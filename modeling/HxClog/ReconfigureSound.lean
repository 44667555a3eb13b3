import HxClog.RoutingSound

/-!
# What reconfigure installs

The callback sinks stay, and behind them come the new console and file sinks as far
as there is room. The result is not looked at, so a table that is full is reported
as success.
-/

namespace HxClog

open C Slots

namespace Core

variable {c : Core} {spare : Nat}

def callbacks (c : Core) : List Sink := c.table.live.filter fun s => s.kind = .callback

/-! ## The table after the swap -/

theorem addConsole_live (h : c.Slotted spare) (cfg : Config) (o : Outside) :
    (c.addConsole cfg o).table.live = c.table.live ++
      if (cfg.enableConsole ∧ o.made .console) ∧ c.table.count < maxSinks then [fresh c.created .console c.nextSinkId]
      else [] := by
  unfold addConsole
  by_cases hc : cfg.enableConsole = true
  · rw [if_pos hc, addNew_live h]
    simp only [hc, true_and]
  · rw [if_neg hc, if_neg fun hn => hc hn.1.1, List.append_nil]

theorem reopenNewFile_absent {l : List Sink} {obj : Nat} (h : c.table.Holds l) (ha : ∀ s ∈ l, s.obj ≠ obj)
    (reopened : Bool) : (c.reopenNewFile obj reopened).table = c.table := by
  unfold reopenNewFile
  simp only
  split
  · rename_i i hf
    obtain ⟨hi, hobj⟩ := h.find_some (i := i) hf
    exact absurd (of_decide_eq_true hobj) (ha _ (List.getElem_mem hi))
  · rfl

theorem reopenNewFile_last {l : List Sink} {s : Sink} (h : c.table.Holds (l ++ [s])) (ha : ∀ s' ∈ l, s'.obj ≠ s.obj)
    (reopened : Bool) : (c.reopenNewFile s.obj reopened).table.live = l ++ [{ s with isOpen := reopened }] := by
  unfold reopenNewFile
  simp only
  split
  · rename_i i hf
    obtain ⟨hi, hobj⟩ := h.find_some (i := i) hf
    have hlast : i = l.length := by
      rw [List.length_append, List.length_singleton] at hi
      by_contra hne
      have hlt : i < l.length := by omega
      rw [List.getElem_append_left hlt] at hobj
      exact ha _ (List.getElem_mem hlt) (of_decide_eq_true hobj)
    subst hlast
    refine (h.modify _ _).live.trans ?_
    rw [List.modify_eq_set_getElem?]
    simp
  · rename_i hf
    refine absurd ?_ (h.find_none hf s (by simp))
    exact decide_eq_true rfl

/-- The new file sink, opened again. -/
def newFile (c : Core) (obj : Nat) (o : Outside) : Sink := { fresh obj .file c.nextSinkId with isOpen := o.reopened }

theorem addNewFile_live {obj : Nat} (h : c.Slotted 1) (ha : c.Aside obj) (o : Outside) :
    (c.addNewFile (some (fresh obj .file 0)) o).table.live =
      c.table.live ++ if c.table.count < maxSinks then [c.newFile obj o] else [] := by
  show ((c.addSinkLocked (fresh obj .file 0)).1.reopenNewFile obj o.reopened).table.live = _
  by_cases hfull : maxSinks ≤ c.table.count
  · -- it was closed and is not in the table
    rw [addSinkLocked_full hfull, if_neg (Nat.not_lt.mpr hfull), List.append_nil]
    have habsent := reopenNewFile_absent (c := c.log [.handed obj, .close obj]) h.holds ha.notIn o.reopened
    exact congrArg Table.live habsent
  · have hroom := Nat.lt_of_not_le hfull
    have hpush := h.holds.push (fresh obj .file c.nextSinkId)
    rw [addSinkLocked_room hroom, if_pos hroom]
    exact reopenNewFile_last (s := fresh obj .file c.nextSinkId) hpush ha.notIn o.reopened

/-- A configuration that is acted on. -/
structure Acts (c : Core) (cfg : Config) (o : Outside) : Prop where
  initialized : c.initialized = true
  plain : fileNameIsPlain cfg.file = true
  made : cfg.enableFile = true → o.made .file = true

theorem reconfigure_acts {cfg : Config} {o : Outside} (h : c.Acts cfg o) :
    c.hxClogReconfigureLocked (some cfg) o = ({ c.swapSinks cfg o with mode := startedMode cfg o }, .ok) := by
  have hmade : ¬(cfg.enableFile && !o.made .file) = true := by
    intro hb
    simp only [Bool.and_eq_true, Bool.not_eq_true'] at hb
    rw [h.made hb.1] at hb
    exact Bool.noConfusion hb.2
  unfold hxClogReconfigureLocked
  rw [if_neg (not_not_intro h.initialized)]
  simp only
  rw [if_neg (not_not_intro h.plain), if_neg hmade]

/-- Anything else is refused and changes nothing. -/
theorem reconfigure_refused {cfg : Option Config} {o : Outside} (h : ∀ cfg', cfg = some cfg' → ¬c.Acts cfg' o) :
    ∃ rc, rc ≠ .ok ∧ c.hxClogReconfigureLocked cfg o = (c, rc) := by
  unfold hxClogReconfigureLocked
  by_cases hi : c.initialized = true
  · rw [if_neg (not_not_intro hi)]
    cases cfg with
    | none => exact ⟨.invalidArgument, by decide, rfl⟩
    | some cfg =>
      simp only
      by_cases hp : fileNameIsPlain cfg.file = true
      · rw [if_neg (not_not_intro hp)]
        by_cases hm : (cfg.enableFile && !o.made .file) = true
        · rw [if_pos hm]
          exact ⟨.openFileFailed, by decide, rfl⟩
        · refine absurd ⟨hi, hp, fun he => ?_⟩ (h cfg rfl)
          simpa [he] using hm
      · rw [if_pos hp]
        exact ⟨.invalidArgument, by decide, rfl⟩
  · rw [if_pos hi]
    exact ⟨.notInitialized, by decide, rfl⟩

/-- How many of the new console and file sinks there are. -/
def consoles (cfg : Config) (o : Outside) : Nat := if cfg.enableConsole ∧ o.made .console then 1 else 0
def files (cfg : Config) : Nat := if cfg.enableFile then 1 else 0

/-- What the new sinks are like that found room. -/
structure Added (cfg : Config) (o : Outside) (n : Nat) (console file : List Sink) : Prop where
  consoleKinds : console.map Sink.kind = if n < maxSinks then List.replicate (consoles cfg o) .console else []
  fileKinds : file.map Sink.kind = if n + console.length < maxSinks then List.replicate (files cfg) .file else []
  opened : ∀ s ∈ file, s.isOpen = o.reopened

/-- Where there is room for all, all are added. -/
theorem Added.all {cfg : Config} {o : Outside} {n : Nat} {console file : List Sink} (h : Added cfg o n console file)
    (hroom : n + consoles cfg o + files cfg ≤ maxSinks) :
    console.map Sink.kind = List.replicate (consoles cfg o) .console ∧
      file.map Sink.kind = List.replicate (files cfg) .file := by
  have hconsole : console.map Sink.kind = List.replicate (consoles cfg o) .console := by
    rw [h.consoleKinds]
    split
    · rfl
    · have hzero : consoles cfg o = 0 := by omega
      rw [hzero]
      rfl
  refine ⟨hconsole, ?_⟩
  have hlen : console.length = consoles cfg o := by
    have := congrArg List.length hconsole
    rwa [List.length_map, List.length_replicate] at this
  rw [h.fileKinds, hlen]
  split
  · rfl
  · have hzero : files cfg = 0 := by omega
    rw [hzero]
    rfl

/-- All are added only where there is room for them. -/
theorem Added.room {cfg : Config} {o : Outside} {n : Nat} {console file : List Sink} (h : Added cfg o n console file)
    (hn : n ≤ maxSinks) (hall : (console ++ file).length = consoles cfg o + files cfg) :
    n + consoles cfg o + files cfg ≤ maxSinks := by
  have hconsoles : consoles cfg o ≤ 1 := by
    unfold consoles
    split <;> decide
  have hfiles : files cfg ≤ 1 := by
    unfold files
    split <;> decide
  have hk := congrArg List.length h.consoleKinds
  have hf := congrArg List.length h.fileKinds
  rw [List.length_map, apply_ite List.length, List.length_replicate, List.length_nil] at hk hf
  rw [List.length_append] at hall
  split at hk
  · split at hf <;> omega
  · split at hf <;> omega

theorem console_added (h : c.Slotted spare) (cfg : Config) (o : Outside) : ∃ console,
    (c.addConsole cfg o).table.live = c.table.live ++ console ∧
      console.map Sink.kind = if c.table.live.length < maxSinks then List.replicate (consoles cfg o) .console else [] := by
  refine ⟨_, addConsole_live h cfg o, ?_⟩
  rw [← h.holds.1]
  unfold consoles
  by_cases hw : cfg.enableConsole = true ∧ o.made .console = true
  · by_cases hr : c.table.count < maxSinks
    · rw [if_pos ⟨hw, hr⟩, if_pos hr, if_pos hw]
      rfl
    · rw [if_neg fun h => hr h.2, if_neg hr]
      rfl
  · rw [if_neg fun h => hw h.1, if_neg hw]
    split <;> rfl

/-- With the system sinks off, the table after reconfigure: the callbacks, and what found room behind them. -/
theorem swapSinks_live (h : c.Slotted 0) (cfg : Config) (o : Outside) (hsys : cfg.systemSinks = []) :
    ∃ console file, (c.swapSinks cfg o).table.live = c.callbacks ++ console ++ file ∧
      Added cfg o c.callbacks.length console file := by
  unfold swapSinks newFileSink
  by_cases hfile : cfg.enableFile = true
  · simp only [if_pos hfile, addConfiguredSystemSinks, hsys, List.foldl_nil]
    have hnew := (h.newSink .file).teardown cfg o
    have haside := ((newSink_aside h .file).teardown (h.newSink .file) cfg o).addConsole hnew cfg o
    obtain ⟨console, hconsole, hkinds⟩ := console_added hnew cfg o
    rw [teardown_live (h.newSink .file)] at hconsole hkinds
    have hslotted := hnew.addConsole cfg o
    have hadded := addNewFile_live hslotted haside o
    rw [hslotted.holds.1, hconsole] at hadded
    refine ⟨console, _, hadded, hkinds, ?_, ?_⟩
    · rw [List.length_append]
      show List.map Sink.kind _ = if c.callbacks.length + console.length < maxSinks then _ else _
      unfold files
      rw [if_pos hfile]
      by_cases hroom : c.callbacks.length + console.length < maxSinks
      · rw [if_pos hroom]
        exact congrArg (List.map Sink.kind) (if_pos hroom)
      · rw [if_neg hroom]
        exact congrArg (List.map Sink.kind) (if_neg hroom)
    · intro s hs
      split at hs
      · rw [List.mem_singleton.mp hs]
        rfl
      · cases hs
  · simp only [if_neg hfile, addConfiguredSystemSinks, hsys, List.foldl_nil]
    obtain ⟨console, hconsole, hkinds⟩ := console_added (h.teardown cfg o) cfg o
    rw [teardown_live h] at hconsole hkinds
    refine ⟨console, [], ?_, hkinds, ?_, fun s hs => by cases hs⟩
    · rw [List.append_nil]
      exact hconsole
    · unfold files
      rw [if_neg hfile]
      split <;> rfl

/-! ## What is promised -/

/-- The table holds the callbacks as they were, a console sink if one is wanted and
could be made, and an open file sink if one is wanted. -/
def Installed (c c' : Core) (cfg : Config) (o : Outside) : Prop :=
  ∃ added, c'.table.live = c.callbacks ++ added ∧
    added.map Sink.kind = List.replicate (consoles cfg o) .console ++ List.replicate (files cfg) .file ∧
    ∀ s ∈ added, s.kind = .file → s.isOpen = true

/-- Everything that a refused configuration must leave alone. -/
def Unchanged (c c' : Core) : Prop :=
  c'.table = c.table ∧ c'.level = c.level ∧ c'.pattern = c.pattern ∧ c'.formatMode = c.formatMode ∧
    c'.formatter = c.formatter ∧ c'.loggerName = c.loggerName ∧ c'.mode = c.mode

/-- What reconfigure reports is what it did. -/
def Reports (c : Core) (cfg : Option Config) (o : Outside) : Prop :=
  if (c.hxClogReconfigureLocked cfg o).2 = .ok then
    ∃ cfg', cfg = some cfg' ∧ Installed c (c.hxClogReconfigureLocked cfg o).1 cfg' o
  else Unchanged c (c.hxClogReconfigureLocked cfg o).1

theorem installed_iff (h : c.Slotted 0) {cfg : Config} {o : Outside} (ha : c.Acts cfg o) (hsys : cfg.systemSinks = []) :
    Installed c (c.hxClogReconfigureLocked (some cfg) o).1 cfg o ↔
      c.callbacks.length + consoles cfg o + files cfg ≤ maxSinks ∧ (cfg.enableFile = true → o.reopened = true) := by
  obtain ⟨console, file, hlive, hadded⟩ := swapSinks_live h cfg o hsys
  have hc' : (c.hxClogReconfigureLocked (some cfg) o).1.table = (c.swapSinks cfg o).table := by
    rw [reconfigure_acts ha]
  have hcallbacks : c.callbacks.length ≤ maxSinks := Nat.le_trans (List.length_filter_le _ _) (h.holds.1 ▸ h.room)
  constructor
  · rintro ⟨added, hl, hkinds, hopen⟩
    rw [hc', hlive, List.append_assoc] at hl
    have hsame : console ++ file = added := List.append_cancel_left hl
    subst hsame
    have hlen := congrArg List.length hkinds
    simp only [List.length_map, List.length_append, List.length_replicate] at hlen
    have hroom := hadded.room hcallbacks (by rw [List.length_append]; exact hlen)
    refine ⟨hroom, fun hwanted => ?_⟩
    have hfile := (hadded.all hroom).2
    rw [show files cfg = 1 from if_pos hwanted] at hfile
    -- the file sink is the last of the new ones
    cases file with
    | nil => cases hfile
    | cons s rest =>
      have hs : s.kind = .file := (List.cons.inj hfile).1
      rw [← hadded.opened s List.mem_cons_self]
      exact hopen s (by simp) hs
  · rintro ⟨hroom, hopen⟩
    obtain ⟨hconsole, hfile⟩ := hadded.all hroom
    refine ⟨console ++ file, by rw [hc', hlive, List.append_assoc], ?_, fun s hs hkind => ?_⟩
    · rw [List.map_append, hconsole, hfile]
    · rcases List.mem_append.mp hs with hs | hs
      · have hmem := List.mem_map_of_mem (f := Sink.kind) hs
        rw [hconsole, hkind] at hmem
        cases List.eq_of_mem_replicate hmem
      · have hmem := List.mem_map_of_mem (f := Sink.kind) hs
        rw [hfile] at hmem
        have hone : cfg.enableFile = true := by
          by_contra hno
          rw [show files cfg = 0 from if_neg hno] at hmem
          cases hmem
        rw [hadded.opened s hs]
        exact hopen hone

end Core

/-- Reconfigure installs what it reports exactly when a configuration that is acted on
finds room for its sinks and its file can be opened again. -/
theorem reconfigure_reports_iff (calls : List Call) (cfg : Option Config) (o : Outside)
    (hsys : ∀ cfg', cfg = some cfg' → cfg'.systemSinks = []) :
    Core.Reports (runCalls coreOnceInit calls) cfg o ↔
      ∀ cfg', cfg = some cfg' → (runCalls coreOnceInit calls).Acts cfg' o →
        (runCalls coreOnceInit calls).callbacks.length + Core.consoles cfg' o + Core.files cfg' ≤ maxSinks ∧
          (cfg'.enableFile = true → o.reopened = true) := by
  have hs := (Core.reachable_sound calls Core.start_slotted (show coreOnceInit.Counted from rfl)).1
  generalize runCalls coreOnceInit calls = c at hs ⊢
  unfold Core.Reports
  by_cases hacts : ∃ cfg', cfg = some cfg' ∧ c.Acts cfg' o
  · obtain ⟨cfg', rfl, ha⟩ := hacts
    have hrc : (c.hxClogReconfigureLocked (some cfg') o).2 = .ok := by rw [Core.reconfigure_acts ha]
    have hiff := Core.installed_iff hs ha (hsys cfg' rfl)
    rw [if_pos hrc]
    constructor
    · rintro ⟨cfg₁, he, hinst⟩ cfg₂ he' -
      cases he
      cases he'
      exact hiff.mp hinst
    · intro hcond
      exact ⟨cfg', rfl, hiff.mpr (hcond cfg' rfl ha)⟩
  · have hno : ∀ cfg', cfg = some cfg' → ¬c.Acts cfg' o := fun cfg' he ha => hacts ⟨cfg', he, ha⟩
    obtain ⟨rc, hrc, heq⟩ := Core.reconfigure_refused hno
    rw [heq, if_neg hrc]
    refine iff_of_true ⟨rfl, rfl, rfl, rfl, rfl, rfl, rfl⟩ fun cfg' he ha => absurd ha (hno cfg' he)

/-- Two callback sinks leave room for a console and a file. -/
theorem reconfigure_reports_two : Core.Reports (runCalls coreOnceInit twoCallbacks) (some hxClogConfigDefault) {} := by
  have htwo : (runCalls coreOnceInit twoCallbacks).callbacks.length = 2 := by decide
  have hone : Core.consoles hxClogConfigDefault {} = 1 := rfl
  have hfile : Core.files hxClogConfigDefault = 1 := rfl
  refine (reconfigure_reports_iff twoCallbacks (some hxClogConfigDefault) {} fun cfg he => ?_).mpr fun cfg he _ => ?_
  · rw [← Option.some.inj he]
    rfl
  · rw [← Option.some.inj he, htwo, hone, hfile]
    exact ⟨by decide, fun _ => rfl⟩

/-- Callback sinks are added as long as there is room. -/
theorem add_callbacks : ∀ (n : Nat) {c : Core}, c.Slotted 0 → c.table.live.length + n ≤ maxSinks →
    (runCalls c (List.replicate n (.addSink .callback true))).callbacks.length = c.callbacks.length + n ∧
      (runCalls c (List.replicate n (.addSink .callback true))).initialized = c.initialized
  | 0, _, _, _ => ⟨rfl, rfl⟩
  | n + 1, c, h, hn => by
    have hlive := Core.addNew_live h .callback true
    have hroom : c.table.count < maxSinks := by
      rw [h.holds.1]
      omega
    rw [if_pos ⟨rfl, hroom⟩] at hlive
    have hcallbacks : (c.addNew .callback true).1.callbacks.length = c.callbacks.length + 1 := by
      unfold Core.callbacks
      rw [hlive, List.filter_append, List.length_append]
      rfl
    have hlen : (c.addNew .callback true).1.table.live.length + n ≤ maxSinks := by
      rw [hlive, List.length_append, List.length_singleton]
      omega
    obtain ⟨hcount, hinit⟩ := add_callbacks n (h.addNew .callback true) hlen
    refine ⟨?_, hinit.trans (c.addNew_initialized .callback true)⟩
    have hcount : (runCalls c (List.replicate (n + 1) (.addSink .callback true))).callbacks.length = _ := hcount
    rw [hcount, hcallbacks, Nat.add_assoc, Nat.add_comm 1 n]

theorem runCalls_append (c : Core) (before after : List Call) :
    runCalls c (before ++ after) = runCalls (runCalls c before) after := List.foldl_append

/-- A table full of callback sinks. -/
def sixteenCallbacks : List Call := [.init (some bareConfig) {}] ++ List.replicate 16 (.addSink .callback true)

theorem sixteenCallbacks_full : 16 ≤ (runCalls coreOnceInit sixteenCallbacks).callbacks.length ∧
    (runCalls coreOnceInit sixteenCallbacks).initialized = true := by
  have hstart := (Core.reachable_sound [.init (some bareConfig) {}] Core.start_slotted
    (show coreOnceInit.Counted from rfl)).1
  have hempty : (runCalls coreOnceInit [.init (some bareConfig) {}]).table.live = [] := rfl
  have hup : (runCalls coreOnceInit [.init (some bareConfig) {}]).initialized = true := rfl
  unfold sixteenCallbacks
  rw [runCalls_append]
  generalize runCalls coreOnceInit [.init (some bareConfig) {}] = c at hstart hempty hup
  obtain ⟨hsixteen, hinit⟩ := add_callbacks 16 hstart (by rw [hempty]; decide)
  exact ⟨by rw [hsixteen]; exact Nat.le_add_left _ _, hinit.trans hup⟩

def fileConfig : Config := { hxClogConfigDefault with enableConsole := false }

/-- The file sink finds no room, is closed, and reconfigure returns success. -/
theorem reconfigure_without_file : ¬Core.Reports (runCalls coreOnceInit sixteenCallbacks) (some fileConfig) {} := by
  obtain ⟨hsixteen, hinit⟩ := sixteenCallbacks_full
  have hs := (Core.reachable_sound sixteenCallbacks Core.start_slotted (show coreOnceInit.Counted from rfl)).1
  generalize runCalls coreOnceInit sixteenCallbacks = c at hs hsixteen hinit
  have ha : c.Acts fileConfig {} := ⟨hinit, by decide, fun _ => rfl⟩
  have hrc : (c.hxClogReconfigureLocked (some fileConfig) {}).2 = .ok := by rw [Core.reconfigure_acts ha]
  intro h
  unfold Core.Reports at h
  rw [if_pos hrc] at h
  obtain ⟨cfg, he, hinst⟩ := h
  rw [← Option.some.inj he] at hinst
  have hroom := ((Core.installed_iff hs ha rfl).mp hinst).1
  have hfile : Core.files fileConfig = 1 := rfl
  have hmax : maxSinks = 16 := rfl
  omega

end HxClog
