import Mathlib

/-!
# Circular arrays

`contents slots cap head n` is what a circular array of `cap` slots holds,
oldest first: the `n` slots from `head` on, indices taken modulo `cap`. Pushing
writes the slot `(head + n) % cap`, popping moves `head`.
-/

namespace Ring

variable {α : Type*}

/-- The `n` slots from `head` on. Slots outside the array are left out. -/
def contents (slots : List α) (cap head n : Nat) : List α :=
  (List.range n).filterMap fun i => slots[(head + i) % cap]?

theorem index_lt {cap : Nat} (head i : Nat) (hc : 0 < cap) : (head + i) % cap < cap := Nat.mod_lt _ hc

theorem index_inj {cap head i j : Nat} (hi : i < cap) (hj : j < cap)
    (h : (head + i) % cap = (head + j) % cap) : i = j := by
  have := Nat.ModEq.add_left_cancel' head h
  unfold Nat.ModEq at this
  rwa [Nat.mod_eq_of_lt hi, Nat.mod_eq_of_lt hj] at this

/-- Advancing the head by one and reading one slot less far is the same slot. -/
theorem index_succ (cap head i : Nat) : ((head + 1) % cap + i) % cap = (head + (i + 1)) % cap := by
  rw [Nat.mod_add_mod, Nat.add_assoc, Nat.add_comm 1 i]

theorem tail_succ {cap head n tail : Nat} (ht : tail = (head + n) % cap) :
    (tail + 1) % cap = (head + (n + 1)) % cap := by
  rw [ht, Nat.mod_add_mod, Nat.add_assoc]

@[simp] theorem contents_zero (slots : List α) (cap head : Nat) : contents slots cap head 0 = [] := rfl

theorem contents_succ (slots : List α) (cap head n : Nat) :
    contents slots cap head (n + 1) =
      contents slots cap head n ++ (slots[(head + n) % cap]?).toList := by
  unfold contents
  rw [List.range_succ, List.filterMap_append]
  congr 1

theorem contents_length {slots : List α} {cap : Nat} (hs : slots.length = cap) (hc : 0 < cap) (head : Nat) :
    ∀ n, (contents slots cap head n).length = n
  | 0 => rfl
  | n + 1 => by
    have hl : (head + n) % cap < slots.length := by rw [hs]; exact index_lt head n hc
    rw [contents_succ, List.length_append, contents_length hs hc head n, List.getElem?_eq_getElem hl]
    rfl

/-- Writing a slot outside the occupied window changes nothing in it. -/
theorem contents_set {slots : List α} {cap head n : Nat} (hn : n < cap) (x : α) :
    ∀ m, m ≤ n → contents (slots.set ((head + n) % cap) x) cap head m = contents slots cap head m
  | 0, _ => rfl
  | m + 1, h => by
    rw [contents_succ, contents_succ, contents_set hn x m (by omega)]
    have hne : (head + n) % cap ≠ (head + m) % cap := fun e => by
      have := index_inj hn (by omega : m < cap) e
      omega
    rw [List.getElem?_set_ne hne]

/-- A push at the tail appends. -/
theorem contents_push {slots : List α} {cap head n : Nat} (hs : slots.length = cap) (hn : n < cap) (x : α) :
    contents (slots.set ((head + n) % cap) x) cap head (n + 1) = contents slots cap head n ++ [x] := by
  have hl : (head + n) % cap < slots.length := by rw [hs]; exact index_lt head n (by omega)
  rw [contents_succ, contents_set hn x n (Nat.le_refl _), List.getElem?_set_self hl]
  rfl

/-- A pop at the head takes the oldest element. -/
theorem contents_pop (slots : List α) (cap head : Nat) : ∀ n,
    contents slots cap head (n + 1) =
      (slots[head % cap]?).toList ++ contents slots cap ((head + 1) % cap) n
  | 0 => by simp [contents_succ]
  | n + 1 => by
    rw [contents_succ, contents_pop slots cap head n, contents_succ, index_succ, List.append_assoc]

/-- A push onto a full array overwrites the oldest element. -/
theorem contents_overwrite {slots : List α} {cap head : Nat} (hs : slots.length = cap) (hc : 0 < cap) (x : α) :
    contents (slots.set (head % cap) x) cap ((head + 1) % cap) cap = (contents slots cap head cap).tail ++ [x] := by
  obtain ⟨m, rfl⟩ : ∃ m, cap = m + 1 := ⟨cap - 1, by omega⟩
  have hlt : head % (m + 1) < slots.length := by
    rw [hs]
    exact Nat.mod_lt _ hc
  have hsame : head % (m + 1) = ((head + 1) % (m + 1) + m) % (m + 1) := by
    rw [index_succ, Nat.add_mod_right]
  have hpush : contents (slots.set (((head + 1) % (m + 1) + m) % (m + 1)) x) (m + 1) ((head + 1) % (m + 1)) (m + 1) =
      contents slots (m + 1) ((head + 1) % (m + 1)) m ++ [x] := contents_push hs (Nat.lt_succ_self m) x
  rw [← hsame] at hpush
  rw [hpush, contents_pop slots, List.getElem?_eq_getElem hlt]
  rfl

/-- Writing the oldest slot leaves the others. -/
theorem contents_replace {slots : List α} {cap head : Nat} (hs : slots.length = cap) (hc : 0 < cap) (x : α) :
    contents (slots.set (head % cap) x) cap head cap = x :: (contents slots cap head cap).tail := by
  obtain ⟨m, rfl⟩ : ∃ m, cap = m + 1 := ⟨cap - 1, by omega⟩
  have hlt : head % (m + 1) < slots.length := by
    rw [hs]
    exact Nat.mod_lt _ hc
  have hsame : head % (m + 1) = ((head + 1) % (m + 1) + m) % (m + 1) := by
    rw [index_succ, Nat.add_mod_right]
  have hothers : contents (slots.set (head % (m + 1)) x) (m + 1) ((head + 1) % (m + 1)) m =
      contents slots (m + 1) ((head + 1) % (m + 1)) m := by
    rw [hsame]
    exact contents_set (Nat.lt_succ_self m) x m (le_refl m)
  rw [contents_pop, hothers, List.getElem?_set_self hlt, contents_pop slots, List.getElem?_eq_getElem hlt]
  rfl

/-- The oldest element is as far behind the next slot to write as there are elements. -/
theorem oldest_index {cap start n : Nat} (hstart : start < cap) (hn : n ≤ cap) :
    ((start + n) % cap + cap - n) % cap = start := by
  rw [Nat.add_sub_assoc hn, Nat.mod_add_mod, Nat.add_assoc, Nat.add_sub_cancel' hn, Nat.add_mod_right]
  exact Nat.mod_eq_of_lt hstart

theorem contents_mem {slots : List α} {cap head n : Nat} {x : α} (h : x ∈ contents slots cap head n) :
    x ∈ slots := by
  unfold contents at h
  obtain ⟨i, _, hi⟩ := List.mem_filterMap.mp h
  exact List.mem_of_getElem? hi

end Ring
