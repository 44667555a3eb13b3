import Mathlib

/-!
# Groups of numbered things

Things in a row carry the numbers of their groups. Two such lists group alike if the
same positions are together; where the numbers never go back, it is enough to compare
neighbours.
-/

namespace Grouping

/-- The same positions carry equal numbers. -/
def Alike (xs ys : List Nat) : Prop := ∀ i j : Nat, xs[i]? = xs[j]? ↔ ys[i]? = ys[j]?

theorem Alike.refl (xs : List Nat) : Alike xs xs := fun _ _ => Iff.rfl

/-- The numbers never go back, and go up to `top`. -/
def Climbs (xs : List Nat) (top : Nat) : Prop := (xs ++ [top]).Pairwise (· ≤ ·)

/-- A position is in the group of the next thing only if the last one is. -/
theorem Climbs.last {xs : List Nat} {m i : Nat} (h : Climbs xs m) (hi : i < xs.length) :
    xs[i]? = some m ↔ xs[i]? = xs[xs.length - 1]? ∧ xs.getLast? = some m := by
  have hlast : xs.getLast? = xs[xs.length - 1]? := List.getLast?_eq_getElem?
  rw [hlast]
  constructor
  · intro him
    suffices hend : xs[xs.length - 1]? = some m by rw [hend]; exact ⟨him, rfl⟩
    have hle : ∀ k (hk : k < xs.length), xs[k] ≤ m := by
      intro k hk
      exact (List.pairwise_append.mp h).2.2 _ (List.getElem_mem hk) m (List.mem_singleton_self m)
    have hk : xs.length - 1 < xs.length := by omega
    rw [List.getElem?_eq_getElem hk]
    rw [List.getElem?_eq_getElem hi] at him
    congr 1
    refine le_antisymm (hle _ hk) ?_
    rw [← Option.some.inj him]
    rcases Nat.lt_or_ge i (xs.length - 1) with hlt | hge
    · exact List.pairwise_iff_getElem.mp (List.pairwise_append.mp h).1 i (xs.length - 1) hi hk hlt
    · have heq : i = xs.length - 1 := by omega
      subst heq
      exact le_refl _
  · rintro ⟨hlast, hm⟩
    exact hlast.trans hm

theorem getElem?_snoc (xs : List Nat) (m i : Nat) :
    (xs ++ [m])[i]? = if i < xs.length then xs[i]? else if i = xs.length then some m else none := by
  rw [List.getElem?_append]
  split
  · rfl
  · rename_i hi
    by_cases heq : i = xs.length
    · subst heq
      simp
    · rw [if_neg heq]
      exact List.getElem?_eq_none (by rw [List.length_singleton]; omega)

end Grouping
