import HxClog.Signals

/-!
# The crash handler steps aside

Our handler is never remembered as an action of the application, so a signal that is
raised again does not come back to it: each installation reports a signal at most once.
With chaining, the application's actions see the signals as they would without it.
-/

namespace HxClog

open Transition

/-! ## What the calls do -/

namespace Signals

theorem none_ok {ok : CrashSignal → Bool} : kSignals.countP ok = 0 ↔ ∀ sig, ok sig = false := by
  rw [List.countP_eq_zero]
  constructor
  · intro h sig
    have hmem : sig ∈ kSignals := by cases sig <;> decide
    exact Bool.eq_false_iff.mpr (h sig hmem)
  · intro h sig _
    rw [h sig]
    decide

section
variable {s : Signals} {chain mkdirOk altstackOk : Bool} {ok : CrashSignal → Bool}

theorem install_again (h : s.crashInstalled = true) :
    s.hxClogInstallCrashHandler chain mkdirOk altstackOk ok = (.ok, s) := by
  unfold hxClogInstallCrashHandler
  rw [if_pos h]

variable (chain mkdirOk altstackOk)

/-- When no action can be set, all is as before but for what is remembered. -/
theorem install_none (h : s.crashInstalled = false) (ha : s.altstackInstalled = false) (hok : ∀ sig, ok sig = false) :
    ∃ reports, s.hxClogInstallCrashHandler chain mkdirOk altstackOk ok = (.platform,
      { s with chainPreviousHandler := chain, prevActions := fun _ => .own .dfl
               prevAltstack := if altstackOk then s.altstack else s.prevAltstack, reports := reports }) := by
  unfold hxClogInstallCrashHandler
  rw [if_neg (by rw [h]; decide)]
  simp only [none_ok.mpr hok, if_true, sigactions, hok]
  cases mkdirOk <;> cases altstackOk <;> simp [report, ha]

/-- Else the handler is installed where `sigaction` succeeds. -/
theorem install_some (h : s.crashInstalled = false) (ha : s.altstackInstalled = false) (hok : ¬∀ sig, ok sig = false) :
    ∃ reports, s.hxClogInstallCrashHandler chain mkdirOk altstackOk ok = (.ok,
      { s with disposition := fun sig => if ok sig then .crash altstackOk else s.disposition sig
               altstack := if altstackOk then .crash else s.altstack
               prevActions := fun sig => if ok sig then s.disposition sig else .own .dfl
               prevAltstack := if altstackOk then s.altstack else s.prevAltstack
               altstackInstalled := altstackOk, crashInstalled := true, chainPreviousHandler := chain
               reports := reports }) := by
  have hcount : ¬kSignals.countP ok = 0 := fun h => hok (none_ok.mp h)
  unfold hxClogInstallCrashHandler
  rw [if_neg (by rw [h]; decide)]
  simp only [hcount, if_false, sigactions]
  by_cases hall : kSignals.countP ok < kSignals.length
  · simp only [hall, if_true]
    cases mkdirOk <;> cases altstackOk <;> simp [report, ha]
  · simp only [hall, if_false]
    cases mkdirOk <;> cases altstackOk <;> simp [report, ha]

end

/-! ## Every run -/

/-- The handler is in place only while it is installed, on a stack that is registered, and it is never remembered as an
action of the application. -/
structure Sound (s : Signals) : Prop where
  prev : ∀ sig, ∃ a, s.prevActions sig = .own a
  armed : ∀ sig onStack, s.disposition sig = .crash onStack → s.crashInstalled = true ∧
    (onStack = true → s.altstackInstalled = true)
  stack : s.altstackInstalled = true → s.crashInstalled = true ∧ s.altstack = .crash
  prevStack : ∃ n, s.prevAltstack = .own n
  calm : s.altstackInstalled = false → ∃ n, s.altstack = .own n

end Signals

/-- The calls that put an action back succeed. -/
def SignalEvent.Restores : SignalEvent → Prop
  | .uninstall restored => ∀ sig, restored sig = true
  | .takes _ restored => restored = true
  | _ => True

def SignalEvent.isInstall : SignalEvent → Bool
  | .install .. => true
  | _ => false

namespace Signals

theorem start_sound (actions : CrashSignal → OwnAction) (stack : Nat) : (start actions stack).Sound where
  prev _ := ⟨_, rfl⟩
  armed _ _ h := by cases h
  stack h := by cases h
  prevStack := ⟨_, rfl⟩
  calm _ := ⟨_, rfl⟩

section
variable {s t : Signals}

theorem Sound.idle (h : s.Sound) (hi : s.crashInstalled = false) :
    s.altstackInstalled = false ∧ ∀ sig, ∃ a, s.disposition sig = .own a := by
  constructor
  · by_contra ha
    have hinstalled := (h.stack (by simpa using ha)).1
    rw [hi] at hinstalled
    cases hinstalled
  · intro sig
    cases hsig : s.disposition sig with
    | own a => exact ⟨a, rfl⟩
    | crash onStack =>
      have hinstalled := (h.armed sig onStack hsig).1
      rw [hi] at hinstalled
      cases hinstalled

theorem Sound.install (h : s.Sound) (chain mkdirOk altstackOk : Bool) (ok : CrashSignal → Bool) :
    (s.hxClogInstallCrashHandler chain mkdirOk altstackOk ok).2.Sound := by
  cases hi : s.crashInstalled with
  | true =>
    rw [install_again hi]
    exact h
  | false =>
    obtain ⟨ha, hown⟩ := h.idle hi
    obtain ⟨n, hn⟩ := h.calm ha
    have hprevStack : ∃ n, (if altstackOk then s.altstack else s.prevAltstack) = .own n := by
      cases altstackOk with
      | true => exact ⟨n, hn⟩
      | false => exact h.prevStack
    by_cases hok : ∀ sig, ok sig = false
    · obtain ⟨reports, heq⟩ := install_none chain mkdirOk altstackOk hi ha hok
      rw [heq]
      exact ⟨fun _ => ⟨_, rfl⟩, h.armed, h.stack, hprevStack, h.calm⟩
    · obtain ⟨reports, heq⟩ := install_some chain mkdirOk altstackOk hi ha hok
      rw [heq]
      refine ⟨fun sig => ?_, fun sig onStack hsig => ⟨rfl, fun hon => ?_⟩, fun hon => ⟨rfl, if_pos hon⟩, hprevStack,
        fun hoff => ⟨n, ?_⟩⟩
      · simp only
        split
        · exact hown sig
        · exact ⟨_, rfl⟩
      · simp only at hsig
        split at hsig
        · cases hsig
          exact hon
        · obtain ⟨a, hsame⟩ := hown sig
          rw [hsame] at hsig
          cases hsig
      · have hoff : altstackOk = false := hoff
        simp only [hoff]
        exact hn

/-- Every remembered action is put back, and the stack that was registered before. -/
theorem uninstall_spec (hi : s.crashInstalled = true) {restored : CrashSignal → Bool} (hr : ∀ sig, restored sig = true) :
    s.hxClogUninstallCrashHandler restored =
      { s with disposition := s.prevActions, altstack := if s.altstackInstalled then s.prevAltstack else s.altstack
               altstackInstalled := false, crashInstalled := false } := by
  unfold hxClogUninstallCrashHandler
  rw [if_neg (by rw [hi]; decide)]
  simp only [hr, if_true]
  cases s.altstackInstalled <;> simp

theorem Sound.uninstall (h : s.Sound) {restored : CrashSignal → Bool} (hr : ∀ sig, restored sig = true) :
    (s.hxClogUninstallCrashHandler restored).Sound := by
  cases hi : s.crashInstalled with
  | false =>
    unfold hxClogUninstallCrashHandler
    rw [if_pos (by rw [hi]; decide)]
    exact h
  | true =>
    rw [uninstall_spec hi hr]
    constructor
    · exact h.prev
    · intro sig onStack hsig
      obtain ⟨a, hown⟩ := h.prev sig
      exact absurd (hown.symm.trans hsig) (by simp)
    · intro hon
      cases hon
    · exact h.prevStack
    · intro _
      show ∃ n, (if s.altstackInstalled then s.prevAltstack else s.altstack) = .own n
      cases ha : s.altstackInstalled with
      | true => exact h.prevStack
      | false => exact h.calm ha

/-- Behind an installation and its end each action is as before, but the default one where `sigaction` had failed. -/
theorem install_uninstall (h : s.Sound) (hi : s.crashInstalled = false) (chain mkdirOk altstackOk : Bool)
    {ok restored : CrashSignal → Bool} (hok : ¬∀ sig, ok sig = false) (hr : ∀ sig, restored sig = true) :
    let t := (s.hxClogInstallCrashHandler chain mkdirOk altstackOk ok).2.hxClogUninstallCrashHandler restored
    (∀ sig, t.disposition sig = if ok sig then s.disposition sig else .own .dfl) ∧ t.altstack = s.altstack := by
  obtain ⟨reports, heq⟩ := install_some chain mkdirOk altstackOk hi (h.idle hi).1 hok
  rw [heq, uninstall_spec rfl hr]
  refine ⟨fun sig => rfl, ?_⟩
  cases altstackOk <;> rfl

/-- An action of the application in place of another keeps what is true. -/
theorem Sound.sets (h : s.Sound) (sig : CrashSignal) (a : OwnAction) (effects : List SignalEffect)
    (pending : CrashSignal → Bool) : Sound
      { s with disposition := Function.update s.disposition sig (.own a), effects := effects, pending := pending } := by
  refine ⟨h.prev, fun other onStack hother => ?_, h.stack, h.prevStack, h.calm⟩
  have hother : Function.update s.disposition sig (.own a) other = .crash onStack := hother
  by_cases he : other = sig
  · rw [he, Function.update_self] at hother
    cases hother
  · rw [Function.update_of_ne he] at hother
    exact h.armed other onStack hother

/-- The handler puts an action of the application back. -/
theorem Sound.back (h : s.Sound) (sig : CrashSignal) : ∃ a,
    (if s.chainPreviousHandler then s.prevActions sig else .own .dfl) = .own a := by
  split
  · exact h.prev sig
  · exact ⟨_, rfl⟩

/-- A delivered signal is reported and another action put in place, or its action is done. -/
theorem deliver_cases (h : s.Sound) (sig : CrashSignal) :
    (∃ onStack a, s.disposition sig = .crash onStack ∧
      (if s.chainPreviousHandler then s.prevActions sig else .own .dfl) = .own a ∧
      s.deliver sig true = { s with effects := s.effects ++ [.report sig]
                                    disposition := Function.update s.disposition sig (.own a)
                                    pending := Function.update s.pending sig true }) ∨
    ∃ a, s.disposition sig = .own a ∧
      s.deliver sig true = { s with effects := s.effects ++ [.acts sig a], dead := decide (a = .dfl)
                                    pending := Function.update s.pending sig false } := by
  unfold deliver
  cases hsig : s.disposition sig with
  | crash onStack =>
    obtain ⟨a, ha⟩ := h.back sig
    refine .inl ⟨onStack, a, rfl, ha, ?_⟩
    simp only [hsig, posixHandler, ha, if_true, Function.update_idem]
  | own a =>
    refine .inr ⟨a, rfl, ?_⟩
    simp only [hsig]

/-- How often the signal has been reported, and once more while the handler waits for it. -/
def tally (s : Signals) (sig : CrashSignal) : Nat :=
  s.effects.count (.report sig) + match s.disposition sig with
    | .own _ => 0
    | .crash _ => 1

theorem tally_le (sig : CrashSignal) (heffects : t.effects = s.effects)
    (hdisposition : t.disposition sig = s.disposition sig ∨ ∃ a, t.disposition sig = .own a) : t.tally sig ≤ s.tally sig := by
  unfold tally
  rw [heffects]
  rcases hdisposition with hsame | ⟨a, hown⟩
  · rw [hsame]
  · rw [hown]
    exact Nat.le_add_right _ _

theorem tally_le_succ (sig : CrashSignal) (heffects : t.effects = s.effects) : t.tally sig ≤ s.effects.count (.report sig) + 1 := by
  unfold tally
  rw [heffects]
  cases t.disposition sig with
  | own a => exact Nat.le_succ _
  | crash onStack => exact le_refl _

theorem install_effects (h : s.Sound) (chain mkdirOk altstackOk : Bool) (ok : CrashSignal → Bool) :
    (s.hxClogInstallCrashHandler chain mkdirOk altstackOk ok).2.effects = s.effects := by
  cases hi : s.crashInstalled with
  | true => rw [install_again hi]
  | false =>
    by_cases hok : ∀ sig, ok sig = false
    · obtain ⟨reports, heq⟩ := install_none chain mkdirOk altstackOk hi (h.idle hi).1 hok
      rw [heq]
    · obtain ⟨reports, heq⟩ := install_some chain mkdirOk altstackOk hi (h.idle hi).1 hok
      rw [heq]

/-- A delivered signal turns the waiting handler into a report. -/
theorem tally_deliver (h : s.Sound) (sig other : CrashSignal) : (s.deliver sig true).tally other ≤ s.tally other := by
  rcases s.deliver_cases h sig with ⟨onStack, a, hsig, -, heq⟩ | ⟨a, -, heq⟩
  · rw [heq]
    unfold tally
    by_cases he : other = sig
    · subst he
      simp only [Function.update_self, List.count_append, hsig]
      simp
    · simp only [Function.update_of_ne he, List.count_append]
      simp [Ne.symm he]
  · rw [heq]
    unfold tally
    simp only [List.count_append]
    simp

/-- A step keeps what is true, and only an installation lets a signal be reported once more. -/
theorem step_sound (h : s.Sound) {e : SignalEvent} (he : e.Restores) (hs : s.step e = some t) :
    t.Sound ∧ ∀ sig, t.tally sig ≤ s.tally sig + if e.isInstall then 1 else 0 := by
  unfold step at hs
  split at hs
  · cases hs
  · cases e with
    | install chain mkdirOk altstackOk ok =>
      cases hs
      refine ⟨h.install chain mkdirOk altstackOk ok, fun sig => ?_⟩
      refine (tally_le_succ sig (install_effects h chain mkdirOk altstackOk ok)).trans ?_
      exact Nat.add_le_add_right (Nat.le_add_right _ _) 1
    | uninstall restored =>
      cases hs
      refine ⟨h.uninstall he, fun sig => tally_le sig ?_ ?_⟩
      · cases hi : s.crashInstalled with
        | false => simp [hxClogUninstallCrashHandler, hi]
        | true => rw [uninstall_spec hi he]
      · cases hi : s.crashInstalled with
        | false => simp [hxClogUninstallCrashHandler, hi]
        | true =>
          rw [uninstall_spec hi he]
          exact .inr (h.prev sig)
    | arrives sig =>
      cases hs
      exact ⟨⟨h.prev, h.armed, h.stack, h.prevStack, h.calm⟩, fun other => le_refl _⟩
    | takes sig restored =>
      obtain rfl : restored = true := he
      simp only [Option.ite_none_right_eq_some, Option.some.injEq] at hs
      obtain ⟨-, rfl⟩ := hs
      refine ⟨?_, fun other => s.tally_deliver h sig other⟩
      rcases s.deliver_cases h sig with ⟨onStack, a, -, -, heq⟩ | ⟨a, -, heq⟩
      · rw [heq]
        exact h.sets sig a _ _
      · rw [heq]
        exact ⟨h.prev, h.armed, h.stack, h.prevStack, h.calm⟩
    | sets sig a =>
      cases hs
      refine ⟨h.sets sig a _ _, fun other => tally_le other rfl ?_⟩
      by_cases ho : other = sig
      · subst ho
        exact .inr ⟨a, Function.update_self ..⟩
      · exact .inl (Function.update_of_ne ho _ _)

theorem run_sound {es : List SignalEvent} (h : s.Sound) (hes : ∀ e ∈ es, e.Restores) (hr : run step s es = some t) :
    t.Sound ∧ ∀ sig, t.tally sig ≤ s.tally sig + es.countP SignalEvent.isInstall := by
  induction es generalizing s with
  | nil =>
    cases hr
    exact ⟨h, fun sig => le_refl _⟩
  | cons e es ih =>
    rw [run_cons] at hr
    obtain ⟨u, hu, hr⟩ := Option.bind_eq_some_iff.mp hr
    obtain ⟨hsound, hstep⟩ := step_sound h (hes e List.mem_cons_self) hu
    obtain ⟨hend, hrest⟩ := ih hsound (fun e he => hes e (List.mem_cons_of_mem _ he)) hr
    refine ⟨hend, fun sig => (hrest sig).trans ?_⟩
    rw [List.countP_cons]
    have hone := hstep sig
    omega

end

end Signals

end HxClog
