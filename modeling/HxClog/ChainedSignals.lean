import HxClog.SignalsSound

/-!
# The application does not notice the crash handler

A process without the library has only the actions of the application. With chaining, and
when every action can be set, a process with the crash handler does the same on its
signals, and reports of them come in between.
-/

namespace HxClog

open Transition

/-! ## A process without the crash handler -/

structure PlainSignals where
  disposition : CrashSignal → OwnAction
  pending : CrashSignal → Bool
  acts : List (CrashSignal × OwnAction)
  dead : Bool

inductive PlainEvent where
  | arrives (sig : CrashSignal)
  | takes (sig : CrashSignal)
  | sets (sig : CrashSignal) (a : OwnAction)
  deriving DecidableEq

namespace PlainSignals

def deliver (sig : CrashSignal) (p : PlainSignals) : PlainSignals :=
  { p with pending := Function.update p.pending sig false, acts := p.acts ++ [(sig, p.disposition sig)]
           dead := p.disposition sig = .dfl }

def step (p : PlainSignals) (e : PlainEvent) : Option PlainSignals :=
  if p.dead then none
  else
    match e with
    | .arrives sig => some { p with pending := Function.update p.pending sig true }
    | .takes sig => if p.pending sig then some (p.deliver sig) else none
    | .sets sig a => some { p with disposition := Function.update p.disposition sig a }

def start (actions : CrashSignal → OwnAction) : PlainSignals := ⟨actions, fun _ => false, [], false⟩

end PlainSignals

/-- What is not up to the process: the signals that arrive, and the actions that the application sets. -/
def PlainEvent.given : PlainEvent → Option PlainEvent
  | .takes _ => none
  | e => some e

def SignalEvent.given : SignalEvent → Option PlainEvent
  | .arrives sig => some (.arrives sig)
  | .sets sig a => some (.sets sig a)
  | _ => none

def SignalEffect.acted : SignalEffect → Option (CrashSignal × OwnAction)
  | .report _ => none
  | .acts sig a => some (sig, a)

namespace Signals

/-- The handler is installed for all signals, with chaining, or for none; what it puts back is put back; and the
application sets no actions while it is installed. -/
def Transparent (s : Signals) : SignalEvent → Prop
  | .install chain _ _ ok => s.crashInstalled = true ∨ (∀ sig, ok sig = false) ∨ chain = true ∧ ∀ sig, ok sig = true
  | .sets _ _ => s.crashInstalled = false
  | e => e.Restores

theorem Transparent.restores {s : Signals} {e : SignalEvent} (h : s.Transparent e) : e.Restores := by
  cases e with
  | install => trivial
  | uninstall restored => exact h
  | arrives sig => trivial
  | takes sig restored => exact h
  | sets sig a => trivial

/-! ## The simulation -/

/-- Behind the handler stand the actions of the process without it. -/
structure Chained (s : Signals) (p : PlainSignals) : Prop where
  sound : s.Sound
  chain : s.crashInstalled = true → s.chainPreviousHandler = true
  behind : ∀ sig, (if s.crashInstalled then s.prevActions sig else s.disposition sig) = .own (p.disposition sig)
  front : s.crashInstalled = true → ∀ sig, s.disposition sig = s.prevActions sig ∨ ∃ onStack, s.disposition sig = .crash onStack
  pending : s.pending = p.pending
  acts : s.effects.filterMap SignalEffect.acted = p.acts
  dead : s.dead = p.dead

section
variable {s t : Signals} {p : PlainSignals}

/-- An action of the application that is in force is that of the process without the handler. -/
theorem Chained.own (h : Chained s p) {sig : CrashSignal} {a : OwnAction} (hsig : s.disposition sig = .own a) :
    p.disposition sig = a := by
  have hbehind := h.behind sig
  cases hi : s.crashInstalled with
  | false =>
    rw [hi, if_neg (by decide), hsig] at hbehind
    exact (SignalAction.own.inj hbehind).symm
  | true =>
    rw [hi, if_pos rfl] at hbehind
    rcases h.front hi sig with hsame | ⟨onStack, hcrash⟩
    · rw [← hsame, hsig] at hbehind
      exact (SignalAction.own.inj hbehind).symm
    · rw [hsig] at hcrash
      cases hcrash

/-- What the handler puts back is the action of the process without it. -/
theorem Chained.back (h : Chained s p) {sig : CrashSignal} {onStack : Bool} (hsig : s.disposition sig = .crash onStack) :
    s.chainPreviousHandler = true ∧ s.prevActions sig = .own (p.disposition sig) := by
  have hi := (h.sound.armed sig onStack hsig).1
  have hbehind := h.behind sig
  rw [hi, if_pos rfl] at hbehind
  exact ⟨h.chain hi, hbehind⟩

theorem Chained.install (h : Chained s p) {chain mkdirOk altstackOk : Bool} {ok : CrashSignal → Bool}
    (ht : s.Transparent (.install chain mkdirOk altstackOk ok)) :
    Chained (s.hxClogInstallCrashHandler chain mkdirOk altstackOk ok).2 p := by
  have hsound := h.sound.install chain mkdirOk altstackOk ok
  cases hi : s.crashInstalled with
  | true =>
    rw [install_again hi]
    exact h
  | false =>
    have hbehind := h.behind
    simp only [hi, Bool.false_eq_true, if_false] at hbehind
    by_cases hok : ∀ sig, ok sig = false
    · obtain ⟨reports, heq⟩ := install_none chain mkdirOk altstackOk hi (h.sound.idle hi).1 hok
      rw [heq] at hsound ⊢
      constructor
      · exact hsound
      · intro hon
        exact absurd (hi.symm.trans hon) (by decide)
      · intro sig
        simp only [hi, Bool.false_eq_true, if_false]
        exact hbehind sig
      · intro hon
        exact absurd (hi.symm.trans hon) (by decide)
      · exact h.pending
      · exact h.acts
      · exact h.dead
    · obtain ⟨reports, heq⟩ := install_some chain mkdirOk altstackOk hi (h.sound.idle hi).1 hok
      obtain ⟨hchain, hall⟩ : chain = true ∧ ∀ sig, ok sig = true := by
        rcases ht with hon | hnone | hset
        · rw [hi] at hon
          cases hon
        · exact absurd hnone hok
        · exact hset
      rw [heq] at hsound ⊢
      constructor
      · exact hsound
      · intro _
        exact hchain
      · intro sig
        simp only [hall, if_true]
        exact hbehind sig
      · intro _ sig
        right
        simp only [hall, if_true]
        exact ⟨altstackOk, rfl⟩
      · exact h.pending
      · exact h.acts
      · exact h.dead

theorem Chained.uninstall (h : Chained s p) {restored : CrashSignal → Bool} (hr : ∀ sig, restored sig = true) :
    Chained (s.hxClogUninstallCrashHandler restored) p := by
  have hsound := h.sound.uninstall hr
  cases hi : s.crashInstalled with
  | false =>
    have hsame : s.hxClogUninstallCrashHandler restored = s := by simp [hxClogUninstallCrashHandler, hi]
    rw [hsame]
    exact h
  | true =>
    have hbehind := h.behind
    simp only [hi, if_true] at hbehind
    rw [uninstall_spec hi hr] at hsound ⊢
    constructor
    · exact hsound
    · intro hon
      cases hon
    · intro sig
      simp only [Bool.false_eq_true, if_false]
      exact hbehind sig
    · intro hon
      cases hon
    · exact h.pending
    · exact h.acts
    · exact h.dead

/-- A delivery to the handler is none to the application, and any other is one. -/
theorem Chained.takes (h : Chained s p) {sig : CrashSignal} (hpending : s.pending sig = true) (hdead : s.dead = false)
    (hsound : (s.deliver sig true).Sound) : ∃ bs q, run PlainSignals.step p bs = some q ∧
      bs.filterMap PlainEvent.given = [] ∧ Chained (s.deliver sig true) q := by
  rcases s.deliver_cases h.sound sig with ⟨onStack, a, hsig, hback, heq⟩ | ⟨a, hsig, heq⟩
  · obtain ⟨hchain, hprev⟩ := h.back hsig
    have hi := (h.sound.armed sig onStack hsig).1
    rw [hchain, if_pos rfl] at hback
    refine ⟨[], p, rfl, rfl, ?_⟩
    rw [heq] at hsound ⊢
    constructor
    · exact hsound
    · exact h.chain
    · intro other
      have hbehind := h.behind other
      simp only [hi, if_true] at hbehind ⊢
      exact hbehind
    · intro _ other
      by_cases he : other = sig
      · left
        subst he
        exact (Function.update_self ..).trans hback.symm
      · have hfront := h.front hi other
        simp only [Function.update_of_ne he]
        exact hfront
    · show Function.update s.pending sig true = p.pending
      rw [← h.pending, ← hpending, Function.update_eq_self]
    · rw [← h.acts, List.filterMap_append]
      simp [SignalEffect.acted]
    · exact h.dead
  · have hown := h.own hsig
    refine ⟨[.takes sig], p.deliver sig, ?_, rfl, ?_⟩
    · rw [run_cons]
      simp only [PlainSignals.step, ← h.dead, hdead, ← h.pending, hpending]
      rfl
    · rw [heq] at hsound ⊢
      constructor
      · exact hsound
      · exact h.chain
      · exact h.behind
      · exact h.front
      · show Function.update s.pending sig false = Function.update p.pending sig false
        rw [h.pending]
      · show (s.effects ++ [SignalEffect.acts sig a]).filterMap SignalEffect.acted = p.acts ++ [(sig, p.disposition sig)]
        rw [List.filterMap_append, h.acts, hown]
        rfl
      · show decide (a = .dfl) = decide (p.disposition sig = .dfl)
        rw [hown]

theorem step_chained (h : Chained s p) {e : SignalEvent} (he : s.Transparent e) (hs : s.step e = some t) :
    ∃ bs q, run PlainSignals.step p bs = some q ∧ bs.filterMap PlainEvent.given = e.given.toList ∧ Chained t q := by
  obtain ⟨hsound, -⟩ := step_sound h.sound he.restores hs
  unfold step at hs
  split at hs
  · cases hs
  · rename_i hdead
    have hdead : s.dead = false := by simpa using hdead
    cases e with
    | install chain mkdirOk altstackOk ok =>
      cases hs
      exact ⟨[], p, rfl, rfl, h.install he⟩
    | uninstall restored =>
      cases hs
      exact ⟨[], p, rfl, rfl, h.uninstall he⟩
    | arrives sig =>
      cases hs
      refine ⟨[.arrives sig], { p with pending := Function.update p.pending sig true }, ?_, rfl, ?_⟩
      · rw [run_cons]
        simp only [PlainSignals.step, ← h.dead, hdead]
        rfl
      · exact ⟨hsound, h.chain, h.behind, h.front, congrArg (Function.update · sig true) h.pending, h.acts, h.dead⟩
    | takes sig restored =>
      obtain rfl : restored = true := he
      simp only [Option.ite_none_right_eq_some, Option.some.injEq] at hs
      obtain ⟨hpending, rfl⟩ := hs
      exact h.takes hpending hdead hsound
    | sets sig a =>
      cases hs
      have hi : s.crashInstalled = false := he
      refine ⟨[.sets sig a], { p with disposition := Function.update p.disposition sig a }, ?_, rfl, ?_⟩
      · rw [run_cons]
        simp only [PlainSignals.step, ← h.dead, hdead]
        rfl
      · have hbehind := h.behind
        simp only [hi, Bool.false_eq_true, if_false] at hbehind
        constructor
        · exact hsound
        · exact h.chain
        · intro other
          simp only [hi, Bool.false_eq_true, if_false]
          by_cases ho : other = sig
          · subst ho
            rw [Function.update_self, Function.update_self]
          · rw [Function.update_of_ne ho, Function.update_of_ne ho]
            exact hbehind other
        · intro hon
          exact absurd (hi.symm.trans hon) (by decide)
        · exact h.pending
        · exact h.acts
        · exact h.dead

end

theorem start_chained (actions : CrashSignal → OwnAction) (stack : Nat) :
    Chained (start actions stack) (PlainSignals.start actions) where
  sound := start_sound actions stack
  chain h := by cases h
  behind _ := rfl
  front h := by cases h
  pending := rfl
  acts := rfl
  dead := rfl

/-- The actions of the application are done as in a process without the crash handler that is given the same signals and the
same actions; and when the handler is not installed, these actions are in force. -/
theorem crash_handler_transparent {actions : CrashSignal → OwnAction} {stack : Nat} {es : List SignalEvent} {s : Signals}
    (hes : Along step Transparent (start actions stack) es) (hr : run step (start actions stack) es = some s) :
    ∃ bs p, run PlainSignals.step (PlainSignals.start actions) bs = some p ∧
      bs.filterMap PlainEvent.given = es.filterMap SignalEvent.given ∧
      s.effects.filterMap SignalEffect.acted = p.acts ∧ s.pending = p.pending ∧ s.dead = p.dead ∧
      (s.crashInstalled = false → ∀ sig, s.disposition sig = .own (p.disposition sig)) := by
  have hmatched : ∀ s e t p, Chained s p → Transparent s e → step s e = some t → ∃ bs q,
      run PlainSignals.step p bs = some q ∧ bs.filterMap PlainEvent.given = (SignalEvent.given e).toList ∧ Chained t q :=
    fun s e t p h he hs => step_chained h he hs
  obtain ⟨bs, p, hp, hgiven, h⟩ := run_matched hmatched es _ _ _ (start_chained actions stack) hes hr
  refine ⟨bs, p, hp, hgiven, h.acts, h.pending, h.dead, fun hi sig => ?_⟩
  have hbehind := h.behind sig
  rw [hi, if_neg (by decide)] at hbehind
  exact hbehind

/-- A process with a handler of its own for every signal. -/
def handled : Signals := start (fun _ => .handler 7) 0

/-- A signal that comes while the handler is installed is reported, and then the application's handler gets it. -/
def segvEvents : List SignalEvent :=
  [.install true true true fun _ => true, .arrives .segv, .takes .segv true, .takes .segv true, .uninstall fun _ => true]

theorem segvEvents_run : ∃ s, run step handled segvEvents = some s ∧
    s.effects = [.report .segv, .acts .segv (.handler 7)] := ⟨_, rfl, rfl⟩

theorem segvEvents_transparent : Along step Transparent handled segvEvents :=
  Along.cons rfl (.inr (.inr ⟨rfl, fun _ => rfl⟩)) (Along.cons rfl trivial (Along.cons rfl rfl (Along.cons rfl rfl
    (Along.cons rfl (fun _ => rfl) trivial))))

theorem crash_handler_transparent_segv : ∃ s, run step handled segvEvents = some s ∧
    s.effects = [.report .segv, .acts .segv (.handler 7)] ∧
    ∃ bs p, run PlainSignals.step (PlainSignals.start fun _ => .handler 7) bs = some p ∧
      bs.filterMap PlainEvent.given = segvEvents.filterMap SignalEvent.given ∧
      s.effects.filterMap SignalEffect.acted = p.acts ∧ s.pending = p.pending ∧ s.dead = p.dead ∧
      (s.crashInstalled = false → ∀ sig, s.disposition sig = .own (p.disposition sig)) := by
  obtain ⟨s, hrun, heffects⟩ := segvEvents_run
  exact ⟨s, hrun, heffects, crash_handler_transparent segvEvents_transparent hrun⟩

end Signals

end HxClog
