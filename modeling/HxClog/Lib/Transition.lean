import Mathlib

/-!
# Labelled step functions and their runs

A system is a step function `σ → α → Option σ`: the label names who moves and
resolves every choice the environment makes, `none` says that the move is not
enabled. A property of every interleaving is a property of `run` for every
list of labels.
-/

namespace Transition

variable {σ α : Type*}

/-- The state after the labels `as`, when each of them is enabled in its turn. -/
def run (step : σ → α → Option σ) : σ → List α → Option σ
  | s, [] => some s
  | s, a :: as => (step s a).bind fun s' => run step s' as

/-- The system that refuses every move not allowed by `ok`. -/
def restrict (ok : σ → α → Bool) (step : σ → α → Option σ) (s : σ) (a : α) : Option σ :=
  if ok s a then step s a else none

@[simp] theorem run_nil (step : σ → α → Option σ) (s : σ) : run step s [] = some s := rfl

theorem run_cons (step : σ → α → Option σ) (s : σ) (a : α) (as : List α) :
    run step s (a :: as) = (step s a).bind fun s' => run step s' as := rfl

theorem run_append (step : σ → α → Option σ) : ∀ (as bs : List α) (s : σ),
    run step s (as ++ bs) = (run step s as).bind fun s' => run step s' bs
  | [], _, _ => rfl
  | a :: as, bs, s => by
    rw [List.cons_append, run_cons, run_cons]
    cases step s a with
    | none => rfl
    | some s' => exact run_append step as bs s'

theorem run_snoc {step : σ → α → Option σ} {as : List α} {a : α} {s t u : σ}
    (h : run step s as = some t) (ha : step t a = some u) : run step s (as ++ [a]) = some u := by
  simp [run_append, h, run_cons, ha]

theorem restrict_some {ok : σ → α → Bool} {step : σ → α → Option σ} {s t : σ} {a : α}
    (h : restrict ok step s a = some t) : ok s a = true ∧ step s a = some t := by
  unfold restrict at h
  split at h
  · exact ⟨‹_›, h⟩
  · cases h

/-- What holds at the start and is kept by every step holds after every run. -/
theorem run_invariant {step : σ → α → Option σ} {I : σ → Prop}
    (hstep : ∀ s a t, I s → step s a = some t → I t) :
    ∀ (as : List α) (s t : σ), I s → run step s as = some t → I t
  | [], s, t, hs, h => by cases h; exact hs
  | a :: as, s, t, hs, h => by
    rw [run_cons] at h
    cases ha : step s a with
    | none => rw [ha] at h; cases h
    | some s' =>
      rw [ha] at h
      exact run_invariant hstep as s' t (hstep s a s' hs ha) h

theorem run_restrict {ok : σ → α → Bool} {step : σ → α → Option σ} :
    ∀ (as : List α) (s t : σ), run (restrict ok step) s as = some t → run step s as = some t
  | [], _, _, h => h
  | a :: as, s, t, h => by
    rw [run_cons] at h ⊢
    cases ha : restrict ok step s a with
    | none => rw [ha] at h; cases h
    | some s' =>
      rw [ha] at h
      rw [(restrict_some ha).2]
      exact run_restrict as s' t h

/-- Every step of the run is taken in a state and with a label that `P` allows. -/
def Along (step : σ → α → Option σ) (P : σ → α → Prop) (s : σ) : List α → Prop
  | [] => True
  | a :: as => P s a ∧ ∀ t, step s a = some t → Along step P t as

theorem Along.cons {step : σ → α → Option σ} {P : σ → α → Prop} {s t : σ} {a : α} {as : List α} (ht : step s a = some t)
    (hp : P s a) (h : Along step P t as) : Along step P s (a :: as) := by
  refine ⟨hp, fun u hu => ?_⟩
  rw [ht] at hu
  cases hu
  exact h

/-- What such steps keep holds after every such run. -/
theorem run_along {step : σ → α → Option σ} {P : σ → α → Prop} {I : σ → Prop}
    (hstep : ∀ s a t, I s → P s a → step s a = some t → I t) :
    ∀ (as : List α) (s t : σ), Along step P s as → I s → run step s as = some t → I t
  | [], s, t, _, hs, h => by cases h; exact hs
  | a :: as, s, t, hp, hs, h => by
    rw [run_cons] at h
    obtain ⟨u, hu, h⟩ := Option.bind_eq_some_iff.mp h
    exact run_along hstep as u t (hp.2 u hu) (hstep s a u hs hp.1 hu) h

theorem Along.imp {step : σ → α → Option σ} {P Q : σ → α → Prop} (h : ∀ s a, P s a → Q s a) :
    ∀ {as : List α} {s : σ}, Along step P s as → Along step Q s as
  | [], _, _ => trivial
  | _ :: _, _, hp => ⟨h _ _ hp.1, fun t ht => Along.imp h (hp.2 t ht)⟩

/-- A forward simulation: every step of the concrete system is matched by a run
of the abstract one that keeps `R`, so every concrete run is. -/
theorem run_simulated {τ β : Type*} {step : σ → α → Option σ} {abs : τ → β → Option τ}
    {R : σ → τ → Prop}
    (hstep : ∀ s a s' t, R s t → step s a = some s' → ∃ bs t', run abs t bs = some t' ∧ R s' t') :
    ∀ (as : List α) (s s' : σ) (t : τ), R s t → run step s as = some s' →
      ∃ bs t', run abs t bs = some t' ∧ R s' t'
  | [], s, s', t, hR, h => by cases h; exact ⟨[], t, rfl, hR⟩
  | a :: as, s, s', t, hR, h => by
    rw [run_cons] at h
    cases ha : step s a with
    | none => rw [ha] at h; cases h
    | some s₁ =>
      rw [ha] at h
      obtain ⟨bs, t₁, hb, hR₁⟩ := hstep s a s₁ t hR ha
      obtain ⟨cs, t₂, hc, hR₂⟩ := run_simulated hstep as s₁ s' t₁ hR₁ h
      refine ⟨bs ++ cs, t₂, ?_, hR₂⟩
      rw [run_append, hb]
      exact hc

/-- As a simulation, where the abstract run is given the same of its labels from outside. -/
theorem run_matched {τ β γ : Type*} {step : σ → α → Option σ} {abs : τ → β → Option τ} {R : σ → τ → Prop}
    {P : σ → α → Prop} {given : α → Option γ} {given' : β → Option γ}
    (hstep : ∀ s a s' t, R s t → P s a → step s a = some s' →
      ∃ bs t', run abs t bs = some t' ∧ bs.filterMap given' = (given a).toList ∧ R s' t') :
    ∀ (as : List α) (s s' : σ) (t : τ), R s t → Along step P s as → run step s as = some s' →
      ∃ bs t', run abs t bs = some t' ∧ bs.filterMap given' = as.filterMap given ∧ R s' t'
  | [], s, s', t, hR, _, h => by
    cases h
    exact ⟨[], t, rfl, rfl, hR⟩
  | a :: as, s, s', t, hR, hp, h => by
    rw [run_cons] at h
    obtain ⟨s₁, hs₁, h⟩ := Option.bind_eq_some_iff.mp h
    obtain ⟨bs, t₁, hb, hgiven, hR₁⟩ := hstep s a s₁ t hR hp.1 hs₁
    obtain ⟨cs, t₂, hc, hrest, hR₂⟩ := run_matched hstep as s₁ s' t₁ hR₁ (hp.2 s₁ hs₁) h
    refine ⟨bs ++ cs, t₂, ?_, ?_, hR₂⟩
    · rw [run_append, hb]
      exact hc
    · rw [List.filterMap_append, hgiven, hrest, List.filterMap_cons]
      cases given a <;> rfl

end Transition
