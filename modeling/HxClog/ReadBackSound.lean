import HxClog.ReadBack
import HxClog.RoutingSound

/-!
# When the copy agrees with what is in force

The copy is taken when a configuration is applied. A setter called on the running
library writes past it, so the two agree throughout a run exactly when no setter
changes anything.
-/

namespace HxClog

open C HxClog.Core

variable {c c' : Core}

theorem inForce_of_settings (h : c'.settings = c.settings) : c'.inForce = c.inForce :=
  congrArg (fun f => InForce.mk f.2.2.1 f.2.2.2 f.1.pattern f.1.mode f.1.formatter) h

theorem initialized_of_settings (h : c'.settings = c.settings) : c'.initialized = c.initialized :=
  congrArg (fun f => f.2.1) h

/-! ## Applying a configuration -/

/-- A copy that is stored shows the state it is stored with. -/
theorem stored_inForce {cfg : Config} (hp : c.pattern = (cfg.pattern.getD .empty).cut 512)
    (hm : c.formatMode = cfg.formatMode.getD .pattern) (hf : c.formatter = cfg.formatter) :
    (storeActiveConfigLocked c cfg).inForce = c.inForce := by
  unfold storeActiveConfigLocked Config.inForce Core.inForce
  rw [hp, hm, hf]
  rfl

theorem filled_env (env : EnvOverrides) (cfg : Config) :
    (applyEnvOverrides env cfg).filled = applyEnvOverrides env cfg.filled := rfl

/-- The result of an init that is not refused at once. -/
theorem initLocked_cases (hi : c.initialized = false) (inConfig : Option Config) (o : Outside) :
    (c.hxClogInitLocked inConfig o).1.initialized = false ∧ (c.hxClogInitLocked inConfig o).2 ≠ .ok ∨
      (c.hxClogInitLocked inConfig o).2 = .ok ∧
        (c.hxClogInitLocked inConfig o).1.snapshot =
          (c.applyFormat (applyEnvOverrides o.env (inConfig.getD hxClogConfigDefault))).snapshot := by
  unfold hxClogInitLocked
  rw [if_neg (by rw [hi]; decide)]
  simp only
  generalize applyEnvOverrides o.env (inConfig.getD hxClogConfigDefault) = cfg
  split
  · exact .inl ⟨hi, fun h => by cases h⟩
  · split
    · exact .inl ⟨(initialized_of_settings (addConsole_settings (c.initTable cfg) cfg o)).trans hi, fun h => by cases h⟩
    · exact .inr ⟨rfl, congrArg Prod.fst (initSinks_settings c cfg o)⟩

theorem reconfigureLocked_cases (c : Core) (inConfig : Option Config) (o : Outside) :
    ((c.hxClogReconfigureLocked inConfig o).1 = c ∧ (c.hxClogReconfigureLocked inConfig o).2 ≠ .ok) ∨
      ∃ cfg, inConfig = some cfg ∧ (c.hxClogReconfigureLocked inConfig o).2 = .ok ∧
        (c.hxClogReconfigureLocked inConfig o).1.snapshot = (c.applyFormat cfg).snapshot := by
  unfold hxClogReconfigureLocked
  split
  · exact .inl ⟨rfl, fun h => by cases h⟩
  · cases inConfig with
    | none => exact .inl ⟨rfl, fun h => by cases h⟩
    | some cfg =>
      simp only
      split
      · exact .inl ⟨rfl, fun h => by cases h⟩
      · split
        · exact .inl ⟨rfl, fun h => by cases h⟩
        · exact .inr ⟨cfg, rfl, rfl, congrArg Prod.fst (swapSinks_settings c cfg o)⟩

namespace Configured

/-- What is read back is what is in force. -/
def InSync (s : Configured) : Prop :=
  s.core.initialized = true → ∃ cfg, s.hxClogGetConfig = .ok cfg ∧ cfg.inForce = s.core.inForce

theorem inSync_iff (s : Configured) :
    s.InSync ↔ (s.core.initialized = true → s.activeConfig.inForce = s.core.inForce) := by
  unfold InSync hxClogGetConfig
  constructor
  · intro h hi
    obtain ⟨cfg, hcfg, hf⟩ := h hi
    rw [if_neg (not_not_intro hi)] at hcfg
    injection hcfg with hcfg
    rw [hcfg, hf]
  · intro h hi
    exact ⟨s.activeConfig, if_neg (not_not_intro hi), h hi⟩

theorem init_inSync {s : Configured} (h : s.InSync) (inConfig : Option Config) (o : Outside) :
    (s.hxClogInit inConfig o).InSync := by
  rw [inSync_iff] at h ⊢
  by_cases hi : s.core.initialized = true
  · have hsame : s.core.hxClogInitLocked inConfig o = (s.core, .alreadyInitialized) := if_pos hi
    unfold hxClogInit
    rw [hsame]
    exact h
  · rw [Bool.not_eq_true] at hi
    unfold hxClogInit
    rcases initLocked_cases hi inConfig o with ⟨hno, _⟩ | ⟨hok, hsnap⟩
    · intro hyes
      simp only [hno, Bool.false_eq_true] at hyes
    · intro _
      simp only [hok, if_true]
      exact stored_inForce (congrArg FmtCache.pattern hsnap) (congrArg FmtCache.mode hsnap)
        (congrArg FmtCache.formatter hsnap)

theorem reconfigure_inSync {s : Configured} (h : s.InSync) (inConfig : Option Config) (o : Outside) :
    (s.hxClogReconfigure inConfig o).InSync := by
  rw [inSync_iff] at h ⊢
  unfold hxClogReconfigure
  rcases reconfigureLocked_cases s.core inConfig o with ⟨hsame, hno⟩ | ⟨cfg, rfl, hok, hsnap⟩
  · simp only [hsame, if_neg hno]
    exact h
  · intro _
    simp only [hok, if_true]
    exact stored_inForce (congrArg FmtCache.pattern hsnap) (congrArg FmtCache.mode hsnap)
      (congrArg FmtCache.formatter hsnap)

end Configured

/-! ## Setters -/

/-- A setter on the running library sets what is in force already. -/
def Core.KeepsSettings (c : Core) (call : SettingCall) : Prop :=
  c.initialized = true →
    match call with
    | .setLevel l => l = c.level
    | .loggerSetLevel l => levelValid l → l = c.level
    | .core (.setPattern (some p)) => p.cut 512 = c.pattern ∧ c.formatMode = .pattern
    | .core (.setFormatMode (some m)) => m = c.formatMode
    | .core (.setFormatter f) => f = c.formatter
    | _ => True

namespace Configured

/-- A call that neither begins nor ends a life nor applies a configuration. -/
def setter : SettingCall → Bool
  | .core (.init _ _) | .core (.reconfigure _ _) | .core (.shutdown _) => false
  | _ => true

/-- A setter leaves the copy alone. -/
theorem setter_active (s : Configured) {call : SettingCall} (h : setter call = true) :
    (call.run s).activeConfig = s.activeConfig := by
  cases call with
  | setLevel l => rfl
  | loggerSetLevel l =>
    show (s.hxClogLoggerSetLevel l).activeConfig = _
    unfold hxClogLoggerSetLevel
    split <;> rfl
  | core call =>
    cases call with
    | init cfg o => cases h
    | reconfigure cfg o => cases h
    | _ => rfl

theorem inForce_inj {a b : InForce} : a = b ↔
    a.level = b.level ∧ a.mode = b.mode ∧ a.pattern = b.pattern ∧ a.formatMode = b.formatMode ∧ a.formatter = b.formatter := by
  cases a
  cases b
  simp only [InForce.mk.injEq]

theorem setPattern_step (c : Core) (pattern : Option CStr) :
    (c.hxClogSetPattern pattern).1.initialized = c.initialized ∧
      ((c.hxClogSetPattern pattern).1.inForce = c.inForce ↔
        ∀ p, pattern = some p → p.cut 512 = c.pattern ∧ c.formatMode = .pattern) := by
  cases pattern with
  | none => exact ⟨rfl, by simp [hxClogSetPattern]⟩
  | some p =>
    refine ⟨rfl, ?_⟩
    rw [inForce_inj]
    simp [hxClogSetPattern, bumpFormatGenLocked, Core.inForce, eq_comm]

theorem setFormatMode_step (c : Core) (mode : Option FormatMode) :
    (c.hxClogSetFormatMode mode).1.initialized = c.initialized ∧
      ((c.hxClogSetFormatMode mode).1.inForce = c.inForce ↔ ∀ m, mode = some m → m = c.formatMode) := by
  cases mode with
  | none => exact ⟨rfl, by simp [hxClogSetFormatMode]⟩
  | some m =>
    refine ⟨rfl, ?_⟩
    rw [inForce_inj]
    simp [hxClogSetFormatMode, bumpFormatGenLocked, Core.inForce]

theorem loggerSetLevel_step (s : Configured) (l : Level) :
    (s.hxClogLoggerSetLevel l).core.initialized = s.core.initialized ∧
      ((s.hxClogLoggerSetLevel l).core.inForce = s.core.inForce ↔ (levelValid l → l = s.core.level)) := by
  unfold hxClogLoggerSetLevel
  by_cases hl : levelValid l
  · rw [if_neg (not_not_intro hl)]
    refine ⟨rfl, ?_⟩
    rw [inForce_inj]
    simp [Core.inForce, hl]
  · rw [if_pos hl]
    exact ⟨rfl, by simp [hl]⟩

theorem run_core (s : Configured) (call : Call) : ((SettingCall.core call).run s).core = call.run s.core := by
  cases call <;> rfl

/-- A setter leaves what is in force as it is exactly when it sets it again. -/
theorem setter_inForce (s : Configured) {call : SettingCall} (h : setter call = true) :
    (call.run s).core.initialized = s.core.initialized ∧
      (s.core.initialized = true → ((call.run s).core.inForce = s.core.inForce ↔ s.core.KeepsSettings call)) := by
  cases call with
  | setLevel l =>
    refine ⟨rfl, fun hi => ?_⟩
    rw [inForce_inj]
    simp [SettingCall.run, hxClogSetLevel, Core.inForce, KeepsSettings, hi]
  | loggerSetLevel l =>
    obtain ⟨hinit, hiff⟩ := loggerSetLevel_step s l
    refine ⟨hinit, fun hi => hiff.trans ?_⟩
    simp [KeepsSettings, hi]
  | core call =>
    rw [run_core]
    by_cases hset : setsFormat call = false
    · have hs := run_settings s.core hset
      have hkeep : s.core.KeepsSettings (.core call) := by
        intro _
        cases call <;> trivial
      exact ⟨initialized_of_settings hs, fun _ => iff_of_true (inForce_of_settings hs) hkeep⟩
    · cases call with
      | setPattern pattern =>
        obtain ⟨hinit, hiff⟩ := setPattern_step s.core pattern
        refine ⟨hinit, fun hi => hiff.trans ?_⟩
        cases pattern with
        | none => simp [KeepsSettings]
        | some p => simp [KeepsSettings, hi]
      | setFormatMode mode =>
        obtain ⟨hinit, hiff⟩ := setFormatMode_step s.core mode
        refine ⟨hinit, fun hi => hiff.trans ?_⟩
        cases mode with
        | none => simp [KeepsSettings]
        | some m => simp [KeepsSettings, hi]
      | setFormatter formatter =>
        refine ⟨rfl, fun hi => ?_⟩
        rw [inForce_inj]
        simp [Call.run, hxClogSetFormatter, bumpFormatGenLocked, Core.inForce, KeepsSettings, hi]
      | init cfg o => cases h
      | reconfigure cfg o => cases h
      | shutdown o => cases h
      | _ => exact absurd rfl hset

theorem shutdown_inSync (s : Configured) (o : Outside) (h : s.InSync) : ((SettingCall.core (.shutdown o)).run s).InSync := by
  rw [inSync_iff] at h ⊢
  rw [run_core]
  show (s.core.hxClogShutdown o).initialized = true → s.activeConfig.inForce = (s.core.hxClogShutdown o).inForce
  unfold hxClogShutdown
  split
  · exact h
  · intro hi
    have hstop := initialized_of_settings
      (stopAsync_settings { o.flushed.foldl hxCoreEmitToSinks s.core with initialized := false } o)
    have hno : (stopAsync { o.flushed.foldl hxCoreEmitToSinks s.core with initialized := false } o).initialized = true := hi
    rw [hstop] at hno
    cases hno

/-- A call leaves the copy in sync exactly when it is no setter that changes something. -/
theorem step_inSync {s : Configured} (h : s.InSync) (call : SettingCall) :
    (call.run s).InSync ↔ s.core.KeepsSettings call := by
  by_cases hset : setter call = true
  · obtain ⟨hinit, hiff⟩ := setter_inForce s hset
    rw [inSync_iff] at h ⊢
    rw [hinit, setter_active s hset]
    constructor
    · intro hsync hi
      refine (hiff hi).mp ?_ hi
      rw [← hsync hi, h hi]
    · intro hkeep hi
      rw [(hiff hi).mpr hkeep, h hi]
  · have hkeep : s.core.KeepsSettings call := by
      intro _
      cases call with
      | core call => cases call <;> trivial
      | _ => exact absurd rfl hset
    refine iff_of_true ?_ hkeep
    cases call with
    | core call =>
      cases call with
      | init cfg o => exact init_inSync h cfg o
      | reconfigure cfg o => exact reconfigure_inSync h cfg o
      | shutdown o => exact shutdown_inSync s o h
      | _ => exact absurd rfl hset
    | _ => exact absurd rfl hset

end Configured

/-! ## Runs -/

theorem start_inSync : configuredAtStart.InSync := by
  intro hi
  cases hi

/-- The steps of a run, each with the state it starts from. -/
def AllKeep (s : Configured) : List SettingCall → Prop
  | [] => True
  | call :: calls => s.core.KeepsSettings call ∧ AllKeep (call.run s) calls

theorem run_inSync : ∀ (calls : List SettingCall) {s : Configured}, s.InSync →
    ((∀ pre post, calls = pre ++ post → (runSettings s pre).InSync) ↔ AllKeep s calls)
  | [], s, h => by
    refine iff_of_true (fun pre post hc => ?_) trivial
    have hpre : pre = [] := (List.append_eq_nil_iff.mp hc.symm).1
    rw [hpre]
    exact h
  | call :: calls, s, h => by
    have hstep := Configured.step_inSync h call
    constructor
    · intro hall
      have hnext : (call.run s).InSync := hall [call] calls rfl
      refine ⟨hstep.mp hnext, (run_inSync calls hnext).mp fun pre post hc => ?_⟩
      exact hall (call :: pre) post (by rw [hc]; rfl)
    · rintro ⟨hkeep, hrest⟩ pre post hc
      have hnext := hstep.mpr hkeep
      cases pre with
      | nil => exact h
      | cons c pre =>
        rw [List.cons_append, List.cons.injEq] at hc
        obtain ⟨rfl, hc⟩ := hc
        exact (run_inSync calls hnext).mpr hrest pre post hc

/-- In every state of a run what is read back is in force, if and only if no setter
called on the running library changes anything. -/
theorem read_back_iff (calls : List SettingCall) :
    (∀ pre post, calls = pre ++ post → (runSettings configuredAtStart pre).InSync) ↔ AllKeep configuredAtStart calls :=
  run_inSync calls start_inSync

/-- The level is changed after the init. -/
theorem set_level_not_read_back :
    ¬(runSettings configuredAtStart [.core (.init none {}), .setLevel 4]).InSync := by
  have hsync := (Configured.step_inSync (Configured.init_inSync start_inSync none {}) (.setLevel 4)).not
  refine hsync.mpr fun hkeep => ?_
  have hlevel := hkeep (by decide)
  revert hlevel
  decide

end HxClog
