import Mathlib

/-!
# Names with components

A name is a list of symbols, a separator cuts it into components. `Above p n`
says that `p` is `n` cut at one of its separators. Cutting at the last separator
again and again meets every name above, the nearest first.
-/

namespace Dotted

variable {α β : Type*} (sep : α)

/-- `p` is a proper ancestor of `n`. -/
def Above (p n : List α) : Prop := ∃ r, n = p ++ sep :: r

/-- `n` is `p` or one of its descendants. -/
def Within (p n : List α) : Prop := n = p ∨ Above sep p n

/-- The name in front of the last separator. -/
def cutLast [DecidableEq α] : List α → Option (List α)
  | [] => none
  | a :: n =>
    match cutLast n with
    | some p => some (a :: p)
    | none => if a = sep then some [] else none

theorem Above.length_lt {p n : List α} (h : Above sep p n) : p.length < n.length := by
  obtain ⟨r, rfl⟩ := h
  rw [List.length_append, List.length_cons]
  omega

theorem cutLast_none [DecidableEq α] : ∀ {n : List α}, cutLast sep n = none → sep ∉ n
  | [], _ => List.not_mem_nil
  | a :: n, h => by
    unfold cutLast at h
    split at h
    · cases h
    · next hn =>
      split at h
      · cases h
      · next ha =>
        intro hm
        rcases List.mem_cons.mp hm with h' | h'
        · exact ha h'.symm
        · exact cutLast_none hn h'

theorem cutLast_some [DecidableEq α] : ∀ {n p : List α}, cutLast sep n = some p → ∃ r, n = p ++ sep :: r ∧ sep ∉ r
  | [], p, h => by cases h
  | a :: n, p, h => by
    unfold cutLast at h
    split at h
    · next q hq =>
      cases h
      obtain ⟨r, hr, hn⟩ := cutLast_some hq
      exact ⟨r, by rw [hr]; rfl, hn⟩
    · next hn =>
      split at h
      · next ha =>
        cases h
        exact ⟨n, by rw [ha]; rfl, cutLast_none sep hn⟩
      · cases h

/-- A name above `p ++ sep :: r` is `p` or above `p`, when `r` is one component. -/
theorem above_cut {p r q : List α} (hr : sep ∉ r) (h : Above sep q (p ++ sep :: r)) : Within sep q p := by
  obtain ⟨s, hs⟩ := h
  rcases List.append_eq_append_iff.mp hs with ⟨t, hq, ht⟩ | ⟨t, hp, ht⟩
  · cases t with
    | nil => exact Or.inl (by rw [hq, List.append_nil])
    | cons b t =>
      -- the separator behind `q` would stand inside the last component
      have hmem : sep ∈ r := by
        rw [List.cons_append, List.cons.injEq] at ht
        rw [ht.2]
        exact List.mem_append_right _ List.mem_cons_self
      exact absurd hmem hr
  · cases t with
    | nil => exact Or.inl (by rw [hp, List.append_nil])
    | cons b t =>
      rw [List.cons_append, List.cons.injEq] at ht
      exact Or.inr ⟨t, by rw [hp, ht.1]⟩

theorem Above.trans {p q n : List α} (hpq : Above sep p q) (hqn : Above sep q n) : Above sep p n := by
  obtain ⟨r, rfl⟩ := hpq
  obtain ⟨s, rfl⟩ := hqn
  exact ⟨r ++ sep :: s, by simp⟩

/-! ## Looking upwards -/

/-- Cut at the last separator until a name has a value. -/
def climb [DecidableEq α] (value : List α → Option β) : Nat → List α → Option β
  | 0, _ => none
  | fuel + 1, n =>
    match cutLast sep n with
    | none => none
    | some p =>
      match value p with
      | some v => some v
      | none => climb value fuel p

/-- `p` is the nearest name above `n` that has a value, and `v` is that value. -/
structure Nearest (value : List α → Option β) (n p : List α) (v : β) : Prop where
  above : Above sep p n
  holds : value p = some v
  nearest : ∀ q, Above sep q n → (value q).isSome → Within sep q p

variable {sep} {value : List α → Option β}

theorem climb_some [DecidableEq α] : ∀ {fuel : Nat} {n : List α} {v : β}, climb sep value fuel n = some v →
    ∃ p, Nearest sep value n p v
  | 0, n, v, h => by cases h
  | fuel + 1, n, v, h => by
    unfold climb at h
    split at h
    · cases h
    · next p hp =>
      obtain ⟨r, rfl, hr⟩ := cutLast_some sep hp
      split at h
      · next w hw =>
        cases h
        exact ⟨p, ⟨r, rfl⟩, hw, fun q hq _ => above_cut sep hr hq⟩
      · next hw =>
        obtain ⟨q, hq⟩ := climb_some h
        refine ⟨q, Above.trans sep hq.above ⟨r, rfl⟩, hq.holds, fun s hs hv => ?_⟩
        rcases above_cut sep hr hs with rfl | hs'
        · rw [hw] at hv
          cases hv
        · exact hq.nearest s hs' hv

theorem climb_none [DecidableEq α] : ∀ {fuel : Nat} {n : List α}, n.length ≤ fuel → climb sep value fuel n = none →
    ∀ q, Above sep q n → value q = none
  | 0, n, hlen, _, q, hq => by
    have := hq.length_lt
    omega
  | fuel + 1, n, hlen, h, q, hq => by
    unfold climb at h
    split at h
    · next hn =>
      obtain ⟨r, rfl⟩ := hq
      exact absurd (List.mem_append_right _ List.mem_cons_self) (cutLast_none sep hn)
    · next p hp =>
      obtain ⟨r, rfl, hr⟩ := cutLast_some sep hp
      rw [List.length_append, List.length_cons] at hlen
      split at h
      · cases h
      · next hw =>
        rcases above_cut sep hr hq with rfl | hq'
        · exact hw
        · exact climb_none (by omega) h q hq'

/-- Only one name is nearest. -/
theorem Nearest.unique {n p q : List α} {v w : β} (hp : Nearest sep value n p v) (hq : Nearest sep value n q w) :
    p = q ∧ v = w := by
  have hpq : p = q := by
    rcases hq.nearest p hp.above (by rw [hp.holds]; rfl) with rfl | h
    · rfl
    · rcases hp.nearest q hq.above (by rw [hq.holds]; rfl) with rfl | h'
      · rfl
      · have := h.length_lt
        have := h'.length_lt
        omega
  subst hpq
  refine ⟨rfl, ?_⟩
  have := hp.holds.symm.trans hq.holds
  injection this

end Dotted
