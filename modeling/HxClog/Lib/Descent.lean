import HxClog.Lib.Transition

/-!
# Counting the steps of a run

Every step of a run is weighed in the state it is taken from. Where a measure of the state
pays for what the steps cost and is paid back what they bring in, it bounds what a whole
run costs.
-/

namespace Transition

variable {σ α : Type*} {step : σ → α → Option σ}

/-- The weight of all steps of the run together. -/
def total (weight : σ → α → Nat) (step : σ → α → Option σ) : σ → List α → Nat
  | _, [] => 0
  | s, a :: as => weight s a + ((step s a).map fun s' => total weight step s' as).getD 0

theorem total_cons {weight : σ → α → Nat} {s s' : σ} {a : α} (h : step s a = some s') (as : List α) :
    total weight step s (a :: as) = weight s a + total weight step s' as := by
  simp [total, h]

theorem total_le {I : σ → Prop} {measure : σ → Nat} (cost gain : σ → α → Nat)
    (hstep : ∀ s a t, I s → step s a = some t → I t ∧ measure t + cost s a ≤ measure s + gain s a) :
    ∀ (as : List α) (s t : σ), I s → run step s as = some t →
      measure t + total cost step s as ≤ measure s + total gain step s as
  | [], s, t, _, h => by
    cases h
    exact le_refl _
  | a :: as, s, t, hs, h => by
    rw [run_cons] at h
    obtain ⟨s', ha, h⟩ := Option.bind_eq_some_iff.mp h
    obtain ⟨hs', hpays⟩ := hstep s a s' hs ha
    have hrest := total_le cost gain hstep as s' t hs' h
    rw [total_cons ha, total_cons ha]
    omega

/-- A run of the restricted system weighs as much as in the system itself. -/
theorem total_restrict {ok : σ → α → Bool} {weight : σ → α → Nat} : ∀ {as : List α} {s t : σ},
    run (restrict ok step) s as = some t → total weight (restrict ok step) s as = total weight step s as
  | [], _, _, _ => rfl
  | a :: as, s, t, h => by
    rw [run_cons] at h
    obtain ⟨s', ha, h⟩ := Option.bind_eq_some_iff.mp h
    rw [total_cons ha, total_cons (restrict_some ha).2, total_restrict h]

theorem total_label {weight : α → Nat} : ∀ {as : List α} {s t : σ}, run step s as = some t →
    total (fun _ a => weight a) step s as = (as.map weight).sum
  | [], _, _, _ => rfl
  | a :: as, s, t, h => by
    rw [run_cons] at h
    obtain ⟨s', ha, h⟩ := Option.bind_eq_some_iff.mp h
    rw [total_cons ha, total_label h, List.map_cons, List.sum_cons]

end Transition
