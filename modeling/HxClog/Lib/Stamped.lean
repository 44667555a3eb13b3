import Mathlib.Logic.Function.Basic
import Mathlib.Order.Basic

/-!
# Stamped copies

A value is shared under a stamp that grows with every change; readers keep copies
with the stamp they were taken at. A copy whose stamp is still the current one must
not be of an older value.
-/

namespace Stamped

structure Copy (α : Type*) where
  stamp : Nat
  value : α

variable {ι α : Type*} {n : Nat} {v : α} {copies : ι → Copy α}

/-- No copy is ahead of the stamp. -/
def Behind (n : Nat) (copies : ι → Copy α) : Prop := ∀ i, (copies i).stamp ≤ n

/-- The copies that carry the stamp are of this value. -/
def Current (n : Nat) (v : α) (copies : ι → Copy α) : Prop := ∀ i, (copies i).stamp = n → (copies i).value = v

theorem Behind.advance (h : Behind n copies) : Behind (n + 1) copies := fun i => Nat.le_succ_of_le (h i)

/-- A stamp that no copy has yet is that of any value. -/
theorem Behind.publish (h : Behind n copies) (v : α) : Current (n + 1) v copies := by
  intro i hi
  have hle := h i
  rw [hi] at hle
  exact absurd hle (Nat.not_succ_le_self n)

variable [DecidableEq ι]

theorem Behind.take (h : Behind n copies) (i : ι) (v : α) : Behind n (Function.update copies i ⟨n, v⟩) := by
  intro j
  by_cases hj : j = i
  · subst hj
    exact Nat.le_of_eq (congrArg Copy.stamp (Function.update_self j _ copies))
  · rw [Function.update_of_ne hj]
    exact h j

theorem Current.take (h : Current n v copies) (i : ι) : Current n v (Function.update copies i ⟨n, v⟩) := by
  intro j hs
  by_cases hj : j = i
  · subst hj
    rw [Function.update_self]
  · rw [Function.update_of_ne hj] at hs ⊢
    exact h j hs

end Stamped
