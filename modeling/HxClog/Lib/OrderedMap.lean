import Mathlib

/-!
# Bounded maps in insertion order

A list of at most `cap` entries with distinct keys. A new key comes last, a key that is
there keeps its place.
-/

structure OrderedMap (κ ν : Type*) (cap : Nat) where
  entries : List (κ × ν)
  room : entries.length ≤ cap
  distinct : (entries.map Prod.fst).Nodup

namespace OrderedMap

variable {κ ν : Type*} [DecidableEq κ] {cap : Nat}

def empty (κ ν : Type*) (cap : Nat) : OrderedMap κ ν cap := ⟨[], Nat.zero_le _, List.nodup_nil⟩

/-- The entries with the value of a key replaced. -/
def replaced (entries : List (κ × ν)) (k : κ) (v : ν) : List (κ × ν) :=
  entries.map fun e => if e.1 = k then (k, v) else e

theorem replaced_keys (entries : List (κ × ν)) (k : κ) (v : ν) :
    (replaced entries k v).map Prod.fst = entries.map Prod.fst := by
  unfold replaced
  rw [List.map_map]
  refine List.map_congr_left fun e _ => ?_
  by_cases he : e.1 = k
  · simp [he]
  · simp [he]

omit [DecidableEq κ] in
theorem append_distinct {entries : List (κ × ν)} (h : (entries.map Prod.fst).Nodup) {k : κ} (hk : k ∉ entries.map Prod.fst)
    (v : ν) : ((entries ++ [(k, v)]).map Prod.fst).Nodup := by
  rw [List.map_append, List.map_singleton, List.nodup_append]
  refine ⟨h, List.nodup_singleton _, fun a ha b hb => ?_⟩
  rw [List.mem_singleton.mp hb]
  rintro rfl
  exact hk ha

/-- The value of a key that is there is replaced in its place. A new key is appended, if there is room. -/
def put (m : OrderedMap κ ν cap) (k : κ) (v : ν) : Option (OrderedMap κ ν cap) :=
  if hk : k ∈ m.entries.map Prod.fst then
    some ⟨replaced m.entries k v, by rw [replaced, List.length_map]; exact m.room, by rw [replaced_keys]; exact m.distinct⟩
  else if hroom : m.entries.length < cap then
    some ⟨m.entries ++ [(k, v)], by rw [List.length_append]; exact hroom, append_distinct m.distinct hk v⟩
  else none

/-- The entry of the key is left out, the others keep their order. -/
def remove (m : OrderedMap κ ν cap) (k : κ) : OrderedMap κ ν cap where
  entries := m.entries.filter fun e => e.1 ≠ k
  room := (List.length_filter_le _ _).trans m.room
  distinct := m.distinct.sublist (List.filter_sublist.map _)

section
variable {m : OrderedMap κ ν cap} {k : κ}

theorem put_there (hk : k ∈ m.entries.map Prod.fst) (v : ν) :
    ∃ m', m.put k v = some m' ∧ m'.entries = replaced m.entries k v := by
  unfold put
  exact ⟨_, dif_pos hk, rfl⟩

theorem put_new (hk : k ∉ m.entries.map Prod.fst) (hroom : m.entries.length < cap) (v : ν) :
    ∃ m', m.put k v = some m' ∧ m'.entries = m.entries ++ [(k, v)] := by
  unfold put
  rw [dif_neg hk, dif_pos hroom]
  exact ⟨_, rfl, rfl⟩

theorem put_full (hk : k ∉ m.entries.map Prod.fst) (hfull : cap ≤ m.entries.length) (v : ν) : m.put k v = none := by
  unfold put
  rw [dif_neg hk, dif_neg (Nat.not_lt.mpr hfull)]

end

/-! ## The entry of a key -/

section
variable {before after : List (κ × ν)} {k : κ} {v₀ : ν} (h : ((before ++ (k, v₀) :: after).map Prod.fst).Nodup)
include h

omit [DecidableEq κ] in
/-- No other entry has the key. -/
theorem other_key {e : κ × ν} (he : e ∈ before ++ after) : e.1 ≠ k := by
  rw [List.map_append, List.map_cons, List.nodup_middle, List.nodup_cons, ← List.map_append] at h
  rintro rfl
  exact h.1 (List.mem_map.mpr ⟨e, he, rfl⟩)

theorem replaced_at (v : ν) : replaced (before ++ (k, v₀) :: after) k v = before ++ (k, v) :: after := by
  have hsame : ∀ l : List (κ × ν), (∀ e ∈ l, e.1 ≠ k) → (l.map fun e => if e.1 = k then (k, v) else e) = l := by
    intro l hl
    refine (List.map_congr_left fun e he => if_neg (hl e he)).trans (List.map_id' l)
  unfold replaced
  rw [List.map_append, List.map_cons, if_pos rfl, hsame before fun e he => other_key h (List.mem_append_left _ he),
    hsame after fun e he => other_key h (List.mem_append_right _ he)]

theorem removed_at : ((before ++ (k, v₀) :: after).filter fun e => e.1 ≠ k) = before ++ after := by
  have hrest : ((before ++ after).filter fun e => e.1 ≠ k) = before ++ after :=
    List.filter_eq_self.mpr fun e he => decide_eq_true (other_key h he)
  rw [List.filter_append, List.filter_cons_of_neg (by simp), ← List.filter_append]
  exact hrest

end

theorem removed_absent {entries : List (κ × ν)} {k : κ} (h : k ∉ entries.map Prod.fst) :
    (entries.filter fun e => e.1 ≠ k) = entries := by
  refine List.filter_eq_self.mpr fun e he => decide_eq_true ?_
  rintro rfl
  exact h (List.mem_map_of_mem he)

end OrderedMap
