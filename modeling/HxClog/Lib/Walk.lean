import Mathlib

/-!
# Walking by index over a list that changes

A loop visits position 0, 1, 2, ... of a list that each visit may change: it drops some
items and appends new ones. An item that stays is visited once, unless a visit moves
it from behind the position of the walk to it or in front of it.
-/

namespace Walk

variable {σ α : Type*} [DecidableEq α] (items : σ → List α) (visit : Nat → σ → σ)

/-- A visit drops items and appends others, of which `x` is none. -/
def Changes (x : α) (l l' : List α) : Prop := ∃ kept added, kept.Sublist l ∧ l' = kept ++ added ∧ x ∉ added

variable {items visit} {x : α}

omit [DecidableEq α] in
theorem Changes.refl (x : α) (l : List α) : Changes x l l :=
  ⟨l, [], List.Sublist.refl l, (List.append_nil l).symm, List.not_mem_nil⟩

omit [DecidableEq α] in
theorem Changes.trans {l l' l'' : List α} (h : Changes x l l') (h' : Changes x l' l'') : Changes x l l'' := by
  obtain ⟨kept, added, hsub, rfl, hx⟩ := h
  obtain ⟨kept', added', hsub', rfl, hx'⟩ := h'
  obtain ⟨k, a, rfl, hk, ha⟩ := List.sublist_append_iff.mp hsub'
  refine ⟨k, a ++ added', hk.trans hsub, List.append_assoc _ _ _, ?_⟩
  rw [List.mem_append, not_or]
  exact ⟨fun h => hx (ha.subset h), hx'⟩

omit [DecidableEq α] in
theorem Changes.kept {l l' : List α} (h : Changes x l l') (hx : x ∈ l') : ∃ kept added, kept.Sublist l ∧
    l' = kept ++ added ∧ x ∈ kept := by
  obtain ⟨kept, added, hsub, rfl, hno⟩ := h
  exact ⟨kept, added, hsub, rfl, (List.mem_append.mp hx).resolve_right hno⟩

omit [DecidableEq α] in
theorem Changes.back {l l' : List α} (h : Changes x l l') (hx : x ∈ l') : x ∈ l := by
  obtain ⟨kept, added, hsub, -, hkept⟩ := h.kept hx
  exact hsub.subset hkept

theorem sublist_idxOf {kept l : List α} (h : kept.Sublist l) (hx : x ∈ kept) (hnd : l.Nodup) :
    kept.idxOf x ≤ l.idxOf x := by
  induction h with
  | slnil => cases hx
  | @cons k l a h ih =>
    obtain ⟨ha, hnd⟩ := List.nodup_cons.mp hnd
    have hne : a ≠ x := by
      rintro rfl
      exact ha (h.subset hx)
    rw [List.idxOf_cons_ne _ hne]
    exact (ih hx hnd).trans (Nat.le_succ _)
  | @cons_cons k l a h ih =>
    by_cases hax : a = x
    · subst hax
      rw [List.idxOf_cons_self]
      exact Nat.zero_le _
    · rw [List.idxOf_cons_ne _ hax, List.idxOf_cons_ne _ hax]
      have hmem : x ∈ k := (List.mem_cons.mp hx).resolve_left fun he => hax he.symm
      exact Nat.succ_le_succ (ih hmem (List.nodup_cons.mp hnd).2)

/-- An item that stays does not move back. -/
theorem Changes.idxOf {l l' : List α} (h : Changes x l l') (hx : x ∈ l') (hnd : l.Nodup) : l'.idxOf x ≤ l.idxOf x := by
  obtain ⟨kept, added, hsub, rfl, hkept⟩ := h.kept hx
  rw [List.idxOf_append_of_mem hkept]
  exact sublist_idxOf hsub hkept hnd

section
variable {I : σ → Prop} {cap : Nat}
  (hstep : ∀ i s, I s → i < (items s).length → I (visit i s) ∧ Changes x (items s) (items (visit i s)))
include hstep

variable (hnd : ∀ s, I s → (items s).Nodup)
include hnd

variable (hroom : ∀ s, I s → (items s).length ≤ cap)
include hroom

end

end Walk
