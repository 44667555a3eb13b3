import Mathlib

/-!
# Lifetimes of resources

Resources that are acquired, used and released, and the record of what was done with
them. Read for one resource the record drives a small automaton, and a resource that
is never misused is released at most once and not touched afterwards.
-/

namespace Lifetime

variable {ι : Type*} [DecidableEq ι]

inductive Act where
  | acquire
  | use
  | release
  deriving DecidableEq

structure Event (ι : Type*) where
  obj : ι
  act : Act
  deriving DecidableEq

inductive Phase where
  | unborn
  | live
  | ended
  | misused
  deriving DecidableEq

def Phase.after : Phase → Act → Phase
  | .unborn, .acquire => .live
  | .live, .use => .live
  | .live, .release => .ended
  | _, _ => .misused

def phaseFrom (p : Phase) (i : ι) : List (Event ι) → Phase
  | [] => p
  | e :: es => phaseFrom (if e.obj = i then p.after e.act else p) i es

/-- Where a resource stands after these events. -/
def phase (es : List (Event ι)) (i : ι) : Phase := phaseFrom .unborn i es

theorem phaseFrom_append (p : Phase) (i : ι) : ∀ es es' : List (Event ι),
    phaseFrom p i (es ++ es') = phaseFrom (phaseFrom p i es) i es'
  | [], _ => rfl
  | _ :: es, es' => phaseFrom_append _ i es es'

theorem phase_append (es es' : List (Event ι)) (i : ι) : phase (es ++ es') i = phaseFrom (phase es i) i es' :=
  phaseFrom_append .unborn i es es'

/-! ## Extending a record -/

theorem phaseFrom_others {i : ι} (p : Phase) : ∀ {es : List (Event ι)}, (∀ e ∈ es, e.obj ≠ i) → phaseFrom p i es = p
  | [], _ => rfl
  | e :: es, h => by
    unfold phaseFrom
    rw [if_neg (h e List.mem_cons_self)]
    exact phaseFrom_others p fun e' he => h e' (List.mem_cons_of_mem _ he)

theorem phaseFrom_uses {i : ι} : ∀ {es : List (Event ι)}, (∀ e ∈ es, e.act = .use) → phaseFrom .live i es = .live
  | [], _ => rfl
  | e :: es, h => by
    have hrest : ∀ e' ∈ es, e'.act = .use := fun e' he => h e' (List.mem_cons_of_mem _ he)
    have hsame : (if e.obj = i then Phase.live.after e.act else .live) = .live := by
      rw [h e List.mem_cons_self]
      split <;> rfl
    unfold phaseFrom
    rw [hsame]
    exact phaseFrom_uses hrest

theorem phaseFrom_misused {i : ι} : ∀ es : List (Event ι), phaseFrom .misused i es = .misused
  | [] => rfl
  | e :: es => by
    unfold phaseFrom
    have hsame : (if e.obj = i then Phase.misused.after e.act else .misused) = .misused := by
      split
      · cases e.act <;> rfl
      · rfl
    rw [hsame]
    exact phaseFrom_misused es

/-! ## What the phases say -/

/-- Once it has ended, any event on a resource is a misuse. -/
theorem ended_untouched {i : ι} {p : Phase} : ∀ {es : List (Event ι)}, p = .ended → phaseFrom p i es ≠ .misused →
    ∀ e ∈ es, e.obj ≠ i
  | e :: es, hp, h, e', he => by
    subst hp
    unfold phaseFrom at h
    by_cases hobj : e.obj = i
    · rw [if_pos hobj] at h
      have hmis : Phase.ended.after e.act = .misused := by cases e.act <;> rfl
      rw [hmis, phaseFrom_misused] at h
      exact absurd rfl h
    · rw [if_neg hobj] at h
      rcases List.mem_cons.mp he with rfl | he
      · exact hobj
      · exact ended_untouched rfl h e' he

theorem after_release (p : Phase) : p.after .release = .ended ∨ p.after .release = .misused := by
  cases p
  · exact .inr rfl
  · exact .inl rfl
  · exact .inr rfl
  · exact .inr rfl

/-- A resource that is not misused is not touched after its release. -/
theorem untouched_after_release {es es' : List (Event ι)} {i : ι} (h : phase (es ++ ⟨i, .release⟩ :: es') i ≠ .misused) :
    ∀ e ∈ es', e.obj ≠ i := by
  rw [phase_append] at h
  unfold phaseFrom at h
  rw [if_pos rfl] at h
  rcases after_release (phase es i) with hend | hmis
  · rw [hend] at h
    exact ended_untouched rfl h
  · rw [hmis, phaseFrom_misused] at h
    exact absurd rfl h

/-- A resource that has ended was released once. -/
theorem ended_count {i : ι} : ∀ {es : List (Event ι)} {p : Phase}, phaseFrom p i es = .ended → p ≠ .ended →
    es.count ⟨i, .release⟩ = 1
  | [], p, h, hp => absurd h hp
  | e :: es, p, h, hp => by
    unfold phaseFrom at h
    by_cases hobj : e.obj = i
    · rw [if_pos hobj] at h
      by_cases hrel : e.act = .release
      · have he : e = ⟨i, .release⟩ := by
          cases e
          simp only at hobj hrel
          rw [hobj, hrel]
        have hnone : es.count ⟨i, .release⟩ = 0 := by
          rcases after_release p with hend | hmis
          · rw [hrel, hend] at h
            rw [List.count_eq_zero]
            intro hmem
            exact ended_untouched rfl (by rw [h]; decide) _ hmem rfl
          · rw [hrel, hmis, phaseFrom_misused] at h
            cases h
        rw [he, List.count_cons_self, hnone]
      · have hnot : p.after e.act ≠ .ended := by
          intro hend
          cases p <;> cases hact : e.act <;> simp_all [Phase.after]
        rw [List.count_cons_of_ne (fun he => hrel (by rw [he]))]
        exact ended_count h hnot
    · rw [if_neg hobj] at h
      rw [List.count_cons_of_ne (fun he => hobj (by rw [he]))]
      exact ended_count h hp

/-- No event takes a resource back to where it was not born. -/
theorem phaseFrom_born {i : ι} : ∀ (es : List (Event ι)) {p : Phase}, p ≠ .unborn → phaseFrom p i es ≠ .unborn
  | [], _, h => h
  | e :: es, p, h => by
    unfold phaseFrom
    refine phaseFrom_born es ?_
    split
    · cases p <;> cases e.act <;> simp_all [Phase.after]
    · exact h

/-- A resource that is still unborn was not touched. -/
theorem unborn_untouched {i : ι} : ∀ {es : List (Event ι)} {p : Phase}, phaseFrom p i es = .unborn → ∀ e ∈ es, e.obj ≠ i
  | e :: es, p, h, e', he => by
    unfold phaseFrom at h
    by_cases hobj : e.obj = i
    · rw [if_pos hobj] at h
      refine absurd h (phaseFrom_born es ?_)
      cases p <;> cases e.act <;> simp [Phase.after]
    · rw [if_neg hobj] at h
      rcases List.mem_cons.mp he with rfl | he
      · exact hobj
      · exact unborn_untouched h e' he

end Lifetime
