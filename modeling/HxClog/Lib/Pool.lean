import Mathlib

/-!
# A list of parties, of which one moves

What a list collects from its members, what holds of all of them and a sum over them,
when the one at place `i` goes from `a` to `b`.
-/

namespace Pool

variable {α : Type*}

theorem filterMap_set {β : Type*} (f : α → Option β) : ∀ (l : List α) (i : Nat) (a : α), l[i]? = some a →
    ∃ A B, l.filterMap f = A ++ (f a).toList ++ B ∧ ∀ b, (l.set i b).filterMap f = A ++ (f b).toList ++ B
  | [], i, a, h => by simp at h
  | x :: l, 0, a, h => by
    obtain rfl : x = a := by simpa using h
    refine ⟨[], l.filterMap f, ?_, fun b => ?_⟩
    · rw [List.filterMap_cons]; cases f x <;> rfl
    · rw [List.set_cons_zero, List.filterMap_cons]; cases f b <;> rfl
  | x :: l, i + 1, a, h => by
    obtain ⟨A, B, h1, h2⟩ := filterMap_set f l i a (by simpa using h)
    refine ⟨(f x).toList ++ A, B, ?_, fun b => ?_⟩
    · rw [List.filterMap_cons, h1]; cases f x <;> simp
    · rw [List.set_cons_succ, List.filterMap_cons, h2]; cases f x <;> simp

theorem filterMap_set_same {β : Type*} {f : α → Option β} {l : List α} {i : Nat} {a b : α}
    (h : l[i]? = some a) (hf : f b = f a) : (l.set i b).filterMap f = l.filterMap f := by
  obtain ⟨A, B, h1, h2⟩ := filterMap_set f l i a h
  rw [h1, h2, hf]

theorem forall_set {P : α → Prop} {l : List α} {i : Nat} {b : α} (h : ∀ a ∈ l, P a) (hb : P b) :
    ∀ a ∈ l.set i b, P a := by
  intro a hm
  rcases List.mem_or_eq_of_mem_set hm with hm | rfl
  · exact h a hm
  · exact hb

theorem sum_set (f : α → Nat) : ∀ {l : List α} {i : Nat} {a : α} (b : α), l[i]? = some a →
    ((l.set i b).map f).sum + f a = (l.map f).sum + f b
  | [], i, a, b, h => by simp at h
  | x :: l, 0, a, b, h => by
    obtain rfl : x = a := by simpa using h
    simp only [List.set_cons_zero, List.map_cons, List.sum_cons]
    omega
  | x :: l, i + 1, a, b, h => by
    have ih := sum_set f b (show l[i]? = some a by simpa using h)
    simp only [List.set_cons_succ, List.map_cons, List.sum_cons]
    omega

end Pool
