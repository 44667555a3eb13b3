import Mathlib

/-!
# An array of slots with a count

Pointers kept in the first `count` slots of an array: appending, removing with the
loop that moves the slots behind down, a walk that removes some of them on the way,
and looking for the first that matches. `Holds` says which list the array stands
for, and each operation is the one on lists.
-/

namespace Slots

variable {α : Type*}

structure Table (α : Type*) where
  slots : Nat → Option α
  count : Nat

namespace Table

/-- What a walk over the array finds; empty slots are skipped. -/
def live (t : Table α) : List α := (List.range t.count).filterMap t.slots

def Filled (t : Table α) : Prop := ∀ k, k < t.count → (t.slots k).isSome

/-- The array stands for this list. -/
def Holds (t : Table α) (l : List α) : Prop := t.count = l.length ∧ ∀ k, k < l.length → t.slots k = l[k]?

theorem Holds.filled {t : Table α} {l : List α} (h : t.Holds l) : t.Filled := by
  intro k hk
  have hlt : k < l.length := h.1 ▸ hk
  rw [h.2 k hlt, List.getElem?_eq_getElem hlt]
  rfl

theorem range_filterMap_getElem (l : List α) : ∀ n, n ≤ l.length →
    (List.range n).filterMap (fun k => l[k]?) = l.take n
  | 0, _ => by simp
  | n + 1, h => by
    have ih := range_filterMap_getElem l n (Nat.le_of_succ_le h)
    rw [List.range_succ, List.filterMap_append, ih, List.take_add_one]
    have hget : l[n]? = some l[n] := List.getElem?_eq_getElem h
    simp [hget]

theorem Holds.live {t : Table α} {l : List α} (h : t.Holds l) : t.live = l := by
  have hslots : (List.range l.length).filterMap t.slots = (List.range l.length).filterMap (fun k => l[k]?) := by
    refine List.filterMap_congr fun k hk => ?_
    exact h.2 k (List.mem_range.mp hk)
  unfold Table.live
  rw [h.1, hslots, range_filterMap_getElem l _ (Nat.le_refl _), List.take_length]

/-! ## Appending -/

def push (t : Table α) (a : α) : Table α := ⟨Function.update t.slots t.count (some a), t.count + 1⟩

theorem Holds.push {t : Table α} {l : List α} (h : t.Holds l) (a : α) : (t.push a).Holds (l ++ [a]) := by
  refine ⟨by simp [Table.push, h.1], fun k hk => ?_⟩
  show Function.update t.slots t.count (some a) k = _
  by_cases hlast : k = t.count
  · subst hlast
    rw [Function.update_self, h.1]
    simp
  · have hlt : k < l.length := by
      rw [List.length_append, List.length_singleton] at hk
      have := h.1
      omega
    rw [Function.update_of_ne hlast, h.2 k hlt, List.getElem?_append_left hlt]

/-! ## Removing -/

/-- The loop that moves slots down: slot `j` takes what the next one holds, `n` times. -/
def shiftDown (slots : Nat → Option α) (j : Nat) : Nat → Nat → Option α
  | 0 => slots
  | n + 1 => shiftDown (Function.update slots j (slots (j + 1))) (j + 1) n

/-- Emptying slot `i` and closing the gap. -/
def removeAt (t : Table α) (i : Nat) : Table α :=
  ⟨Function.update (shiftDown t.slots i (t.count - 1 - i)) (t.count - 1) none, t.count - 1⟩

theorem shiftDown_apply : ∀ (n : Nat) (slots : Nat → Option α) (j k : Nat),
    shiftDown slots j n k = if j ≤ k ∧ k < j + n then slots (k + 1) else slots k
  | 0, slots, j, k => by
    rw [if_neg (by omega)]
    rfl
  | n + 1, slots, j, k => by
    have ih := shiftDown_apply n (Function.update slots j (slots (j + 1))) (j + 1) k
    unfold shiftDown
    rw [ih]
    by_cases hk : k = j
    · subst hk
      rw [if_neg (by omega), if_pos (by omega), Function.update_self]
    · by_cases hmid : j + 1 ≤ k ∧ k < j + 1 + n
      · rw [if_pos hmid, if_pos (by omega), Function.update_of_ne (by omega)]
      · rw [if_neg hmid, if_neg (by omega), Function.update_of_ne hk]

theorem Holds.removeAt {t : Table α} {l : List α} (h : t.Holds l) {i : Nat} (hi : i < l.length) :
    (t.removeAt i).Holds (l.eraseIdx i) := by
  have hlen : (l.eraseIdx i).length = l.length - 1 := List.length_eraseIdx_of_lt hi
  refine ⟨by rw [hlen, ← h.1]; rfl, fun k hk => ?_⟩
  show Function.update (shiftDown t.slots i (t.count - 1 - i)) (t.count - 1) none k = _
  have hc := h.1
  rw [hlen] at hk
  rw [Function.update_of_ne (by omega), shiftDown_apply, List.getElem?_eraseIdx]
  by_cases hlt : k < i
  · rw [if_neg (by omega), if_pos hlt, h.2 k (by omega)]
  · rw [if_pos (by omega), if_neg hlt, h.2 (k + 1) (by omega)]

/-- `while (i < count)`: what `drop` picks is removed, else the walk goes on. With
the table comes what was removed, in order. -/
def compactFrom (drop : α → Bool) : Nat → Table α → Nat → Table α × List α
  | 0, t, _ => (t, [])
  | fuel + 1, t, i =>
    if i < t.count then
      match t.slots i with
      | some a =>
        if drop a then
          let (t, removed) := compactFrom drop fuel (t.removeAt i) i
          (t, a :: removed)
        else compactFrom drop fuel t (i + 1)
      | none => compactFrom drop fuel t (i + 1)
    else (t, [])

def compact (drop : α → Bool) (t : Table α) : Table α × List α := compactFrom drop t.count t 0

/-- The walk has kept `front` and has `back` before it. -/
theorem compactFrom_holds (drop : α → Bool) : ∀ (back front : List α) (fuel : Nat) {t : Table α},
    t.Holds (front ++ back) → back.length ≤ fuel →
    (compactFrom drop fuel t front.length).1.Holds (front ++ back.filter fun a => !drop a) ∧
      (compactFrom drop fuel t front.length).2 = back.filter drop
  | [], front, 0, t, h, _ => ⟨h, rfl⟩
  | [], front, fuel + 1, t, h, _ => by
    have hend : ¬front.length < t.count := by
      rw [h.1, List.append_nil]
      exact Nat.lt_irrefl _
    unfold compactFrom
    rw [if_neg hend]
    exact ⟨h, rfl⟩
  | a :: back, front, fuel + 1, t, h, hf => by
    have hlt : front.length < (front ++ a :: back).length := by simp
    have hslot : t.slots front.length = some a := by
      rw [h.2 _ hlt]
      simp
    have hcount : front.length < t.count := h.1 ▸ hlt
    have hfuel : back.length ≤ fuel := Nat.le_of_succ_le_succ hf
    unfold compactFrom
    rw [if_pos hcount, hslot]
    by_cases hd : drop a = true
    · have hgap : (front ++ a :: back).eraseIdx front.length = front ++ back := by
        rw [List.eraseIdx_append_of_length_le (Nat.le_refl _), Nat.sub_self]
        rfl
      have hr := h.removeAt hlt
      rw [hgap] at hr
      obtain ⟨h1, h2⟩ := compactFrom_holds drop back front fuel hr hfuel
      simp only [hd, if_true, List.filter_cons, Bool.not_true, Bool.false_eq_true, if_false]
      exact ⟨h1, congrArg (a :: ·) h2⟩
    · have hnext : t.Holds ((front ++ [a]) ++ back) := by
        rw [List.append_assoc]
        exact h
      have hlen : (front ++ [a]).length = front.length + 1 := by simp
      obtain ⟨h1, h2⟩ := compactFrom_holds drop back (front ++ [a]) fuel hnext hfuel
      rw [hlen, List.append_assoc] at h1
      rw [hlen] at h2
      simp only [hd, List.filter_cons]
      exact ⟨h1, h2⟩

theorem Holds.compact {t : Table α} {l : List α} (h : t.Holds l) (drop : α → Bool) :
    (t.compact drop).1.Holds (l.filter fun a => !drop a) ∧ (t.compact drop).2 = l.filter drop := by
  exact compactFrom_holds drop l [] t.count (t := t) h (Nat.le_of_eq h.1.symm)

/-! ## Looking and changing -/

/-- The first slot that holds a match. -/
def find (t : Table α) (p : α → Bool) : Option Nat := (List.range t.count).find? fun k => (t.slots k).any p

theorem Holds.find_some {t : Table α} {l : List α} (h : t.Holds l) {p : α → Bool} {i : Nat} (hf : t.find p = some i) :
    ∃ hi : i < l.length, p l[i] = true := by
  have hmem := List.mem_range.mp (List.mem_of_find?_eq_some hf)
  have hi : i < l.length := h.1 ▸ hmem
  have hp := List.find?_some hf
  rw [h.2 i hi, List.getElem?_eq_getElem hi] at hp
  exact ⟨hi, hp⟩

theorem Holds.find_none {t : Table α} {l : List α} (h : t.Holds l) {p : α → Bool} (hf : t.find p = none) :
    ∀ a ∈ l, ¬p a = true := by
  intro a ha hp
  obtain ⟨i, hi, rfl⟩ := List.mem_iff_getElem.mp ha
  have hnot := List.find?_eq_none.mp hf i (List.mem_range.mpr (h.1 ▸ hi))
  rw [h.2 i hi, List.getElem?_eq_getElem hi] at hnot
  exact hnot hp

def modify (t : Table α) (i : Nat) (f : α → α) : Table α :=
  { t with slots := Function.update t.slots i ((t.slots i).map f) }

theorem Holds.modify {t : Table α} {l : List α} (h : t.Holds l) (i : Nat) (f : α → α) :
    (t.modify i f).Holds (l.modify i f) := by
  refine ⟨by rw [List.length_modify]; exact h.1, fun k hk => ?_⟩
  rw [List.length_modify] at hk
  show Function.update t.slots i ((t.slots i).map f) k = _
  rw [List.getElem?_modify]
  by_cases hki : k = i
  · subst hki
    rw [Function.update_self, h.2 k hk]
    simp
  · have hik : ¬i = k := fun e => hki e.symm
    rw [Function.update_of_ne hki, h.2 k hk]
    simp [hik]

end Table

end Slots
