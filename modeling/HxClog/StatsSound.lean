import HxClog.Stats
import HxClog.RoutingSound

/-!
# Which counters survive a restart

The lines that are written and the files that are rotated are counted in `g_core` and
never lost. The count of dropped lines starts over with the engine, so it is the
number of lines dropped exactly as long as none was dropped before the last start.
-/

namespace HxClog

/-! ## What the worker drops -/

/-- The engine after some lines were dropped. -/
structure Dropping (e e' : AsyncEngine) (lost : List Line) : Prop where
  wf : e'.WF
  running : e'.running = e.running
  dropped : e'.dropped = e.dropped + lost.length

theorem workerTurn_dropping {e : AsyncEngine} (h : e.WF) (alloc : Bool) :
    Dropping e (workerTurn e alloc).eng (workerTurn e alloc).lost := by
  unfold workerTurn
  split
  · exact ⟨h, rfl, rfl⟩
  · next hc =>
    cases hp : workerPop e alloc with
    | none => exact ⟨h, rfl, rfl⟩
    | some r =>
      rcases workerPop_spec h (Nat.pos_of_ne_zero hc) hp with ⟨e', l, rfl, _, hw, hsame, _, hd⟩ | ⟨e', p, rfl, hw, hsame, _, hd⟩
      · exact ⟨hw, hsame.running, hd⟩
      · exact ⟨hw, hsame.running, hd⟩

theorem workerTurns_dropping : ∀ (allocs : List Bool) {e : AsyncEngine}, e.WF →
    Dropping e (workerTurns e allocs).eng (workerTurns e allocs).lost
  | [], e, h => ⟨h, rfl, rfl⟩
  | alloc :: allocs, e, h => by
    have first := workerTurn_dropping h alloc
    have rest := workerTurns_dropping allocs first.wf
    refine ⟨rest.wf, rest.running.trans first.running, ?_⟩
    have hsum := rest.dropped
    rw [first.dropped, Nat.add_assoc, ← List.length_append] at hsum
    exact hsum

/-! ## What the sinks count -/

namespace Core

variable {c : Core}

theorem emits_writtenLines (ls : List Line) (c : Core) : c.writtenLines ≤ (ls.foldl hxCoreEmitToSinks c).writtenLines := by
  rw [emits_written]
  exact Nat.le_add_right _ _

theorem addEach_writtenLines (o : Outside) : ∀ (kinds : List SinkKind) (c : Core),
    (kinds.foldl (fun c kind => (c.addNew kind (o.made kind)).1) c).writtenLines = c.writtenLines
  | [], _ => rfl
  | kind :: kinds, c => by
    obtain ⟨t, id, ops, n, h⟩ := addNew_frame c kind (o.made kind)
    rw [List.foldl_cons, addEach_writtenLines o kinds, h]

theorem addConsole_writtenLines (c : Core) (cfg : Config) (o : Outside) :
    (c.addConsole cfg o).writtenLines = c.writtenLines := by
  unfold addConsole
  split
  · obtain ⟨t, id, ops, n, h⟩ := addNew_frame c .console (o.made .console)
    rw [h]
  · rfl

theorem addFile_writtenLines (c : Core) (cfg : Config) (o : Outside) :
    (c.addFile cfg o).writtenLines = c.writtenLines := by
  unfold addFile
  split
  · obtain ⟨t, id, ops, n, h⟩ := addNew_frame c .file (o.made .file)
    rw [h]
  · rfl

theorem init_writtenLines (c : Core) (cfg : Option Config) (o : Outside) :
    (c.hxClogInitLocked cfg o).1.writtenLines = c.writtenLines := by
  unfold hxClogInitLocked
  split
  · rfl
  · simp only
    split
    · rfl
    · split
      · exact addConsole_writtenLines _ _ _
      · exact ((addEach_writtenLines o _ _).trans (addFile_writtenLines _ _ _)).trans (addConsole_writtenLines _ _ _)

theorem stopAsync_writtenLines (c : Core) (o : Outside) : c.writtenLines ≤ (c.stopAsync o).writtenLines := by
  unfold stopAsync
  split
  · exact emits_writtenLines _ _
  · exact Nat.le_refl _

theorem flush_writtenLines (c : Core) (ls : List Line) : c.writtenLines ≤ (c.hxClogFlush ls).writtenLines := by
  obtain ⟨ops, n, h⟩ := flush_written c ls
  rw [h]
  exact Nat.le_add_right _ _

theorem addNewFile_writtenLines (c : Core) (obj : Nat) (o : Outside) :
    (c.addNewFile (some (fresh obj .file 0)) o).writtenLines = c.writtenLines := by
  obtain ⟨t, id, ops, h⟩ := addSinkLocked_frame c obj .file
  unfold addNewFile reopenNewFile
  simp only [h]
  split <;> rfl

theorem teardown_writtenLines (c : Core) (cfg : Config) (o : Outside) :
    c.writtenLines ≤ (c.teardown cfg o).writtenLines :=
  Nat.le_trans (flush_writtenLines c o.flushed) (stopAsync_writtenLines _ o)

theorem swapSinks_writtenLines (c : Core) (cfg : Config) (o : Outside) :
    c.writtenLines ≤ (c.swapSinks cfg o).writtenLines := by
  unfold swapSinks newFileSink
  by_cases hfile : cfg.enableFile = true
  · simp only [if_pos hfile]
    refine Nat.le_trans (teardown_writtenLines (c.newSink .file).1 cfg o) (Nat.le_of_eq (Eq.symm ?_))
    refine (addEach_writtenLines o cfg.systemSinks _).trans ((addNewFile_writtenLines _ _ _).trans ?_)
    exact addConsole_writtenLines _ _ _
  · simp only [if_neg hfile]
    refine Nat.le_trans (teardown_writtenLines c cfg o) (Nat.le_of_eq (Eq.symm ?_))
    exact (addEach_writtenLines o cfg.systemSinks _).trans (addConsole_writtenLines _ _ _)

theorem reconfigure_writtenLines (c : Core) (cfg : Option Config) (o : Outside) :
    c.writtenLines ≤ (c.hxClogReconfigureLocked cfg o).1.writtenLines := by
  unfold hxClogReconfigureLocked
  split
  · exact Nat.le_refl _
  · cases cfg with
    | none => exact Nat.le_refl _
    | some cfg =>
      simp only
      split
      · exact Nat.le_refl _
      · split
        · exact Nat.le_refl _
        · exact swapSinks_writtenLines c cfg o

theorem shutdown_writtenLines (c : Core) (o : Outside) : c.writtenLines ≤ (c.hxClogShutdown o).writtenLines := by
  unfold hxClogShutdown
  split
  · exact Nat.le_refl _
  · have hstop := stopAsync_writtenLines { o.flushed.foldl hxCoreEmitToSinks c with initialized := false } o
    exact Nat.le_trans (emits_writtenLines o.flushed c) hstop

end Core

/-! ## A step -/

namespace Process

variable {s s' : Process}

/-- The engine is well formed while it runs, and before the first start nothing was dropped. -/
structure Ok (s : Process) : Prop where
  wf : s.eng.running = true → s.eng.WF
  ready : s.eng.running = true → s.primsReady = true
  unready : s.primsReady = false → s.eng.dropped = 0 ∧ s.dropLog = []

/-- What a step does to the counters and the history. -/
structure Counts (s s' : Process) (starts : Prop) : Prop where
  ok : s'.Ok
  written : s.core.writtenLines ≤ s'.core.writtenLines
  rotated : s.rotatedFiles ≤ s'.rotatedFiles
  history : ∃ lost, s'.dropLog = s.dropLog ++ lost ∧ (¬starts → s'.eng.dropped = s.eng.dropped + lost.length)
  zeroed : starts → s'.eng.dropped = 0

theorem reported (h : s.Ok) : s.hxClogGetStats.droppedLines = s.eng.dropped := by
  show s.hxAsyncDropped = s.eng.dropped
  unfold hxAsyncDropped
  split
  · rfl
  · next hp => exact (h.unready (by simpa using hp)).1.symm

/-- A step that leaves the engine and the history alone. -/
theorem Counts.still (h : s.Ok) {c : Core} (hw : s.core.writtenLines ≤ c.writtenLines) {r : Nat}
    (hr : s.rotatedFiles ≤ r) : Counts s { s with core := c, rotatedFiles := r } False :=
  ⟨⟨h.wf, h.ready, h.unready⟩, hw, hr, ⟨[], (List.append_nil _).symm, fun _ => rfl⟩, False.elim⟩

theorem emit_counts (h : s.Ok) (l : Line) : Counts s (s.emit l) False :=
  .still h (Core.emits_writtenLines [l] s.core) (Nat.le_refl _)

/-- A step of an engine that was started once. -/
theorem Counts.dropped (hready : s.primsReady = true) {e : AsyncEngine} (he : e.running = true → e.WF) (lost : List Line)
    (hd : e.dropped = s.eng.dropped + lost.length) {c : Core} (hw : s.core.writtenLines ≤ c.writtenLines) :
    Counts s { s with core := c, eng := e, dropLog := s.dropLog ++ lost } False := by
  refine ⟨⟨he, fun _ => hready, fun hno => ?_⟩, hw, Nat.le_refl _, ⟨lost, rfl, fun _ => hd⟩, False.elim⟩
  have hp : s.primsReady = false := hno
  rw [hready] at hp
  cases hp

theorem log_counts (h : s.Ok) {l : Line} {alloc : Bool} (hs : s.log l alloc = some s') : Counts s s' False := by
  unfold log at hs
  split at hs
  · cases hs
    exact .still h (Nat.le_refl _) (Nat.le_refl _)
  · split at hs
    · cases hs
      exact emit_counts h l
    · split at hs
      · cases hs
        exact emit_counts h l
      · next hp =>
        have hready : s.primsReady = true := by simpa using hp
        cases hr : hxAsyncEnqueue s.eng l alloc with
        | none => rw [hr] at hs; cases hs
        | some r =>
          have hspec := hxAsyncEnqueue_spec h.wf hr
          rw [hr] at hs
          cases hspec with
          | unavailable _ => cases hs; exact emit_counts h l
          | wait _ => cases hs
          | refused report hrun _ _ _ =>
            cases hs
            exact .dropped hready (fun _ => wf_dropped (h.wf hrun) _) [l] rfl (Nat.le_refl _)
          | stored e' stored report _ _ _ hst _ =>
            cases hs
            refine .dropped hready (fun _ => hst.wf) _ ?_ (Nat.le_refl _)
            rw [hst.dropped]
            cases stored <;> rfl
          | evicted mid e' old stored report _ _ _ _ _ _ _ hd hst _ =>
            cases hs
            refine .dropped hready (fun _ => hst.wf) _ ?_ (Nat.le_refl _)
            rw [hst.dropped, hd]
            cases stored <;> rfl

theorem work_counts (h : s.Ok) (alloc : Bool) : Counts s (s.work alloc) False := by
  unfold work
  split
  · exact .still h (Nat.le_refl _) (Nat.le_refl _)
  · next hr =>
    have hrun : s.eng.running = true := by simpa using hr
    have hturn := workerTurn_dropping (h.wf hrun) alloc
    exact .dropped (h.ready hrun) (fun _ => hturn.wf) _ hturn.dropped (Core.emits_writtenLines _ _)

/-- What stopping the engine does. -/
theorem draining_spec (h : s.Ok) (alloc : Nat → Bool) :
    ((s.draining alloc).eng.running = true → (s.draining alloc).eng.WF ∧ s.primsReady = true) ∧
      (s.draining alloc).eng.dropped = s.eng.dropped + (s.draining alloc).lost.length ∧
      (s.primsReady = false → (s.draining alloc).eng.dropped = 0 ∧ (s.draining alloc).lost = []) := by
  unfold draining
  split
  · next hon =>
    have hw := h.wf hon.2.2
    have hstop : (asyncStopRequest s.eng).WF :=
      ⟨hw.slots, hw.pos, hw.small, hw.head, hw.count, hw.tail, hw.batch, hw.ok, hw.full, hw.scratchCap, hw.scratch⟩
    have hturns := workerTurns_dropping ((List.range s.eng.count).map alloc) hstop
    refine ⟨fun hr => ?_, hturns.dropped, fun hno => ?_⟩
    · cases hr
    · rw [hon.2.1] at hno
      cases hno
  · exact ⟨fun hr => ⟨h.wf hr, h.ready hr⟩, rfl, fun hno => ⟨(h.unready hno).1, rfl⟩⟩

theorem shutdown_counts (h : s.Ok) (o : Outside) (alloc : Nat → Bool) : Counts s (s.hxClogShutdown o alloc) False := by
  unfold hxClogShutdown
  split
  · exact .still h (Nat.le_refl _) (Nat.le_refl _)
  · obtain ⟨hrun, hd, hno⟩ := draining_spec h alloc
    refine ⟨⟨fun hr => (hrun hr).1, fun hr => (hrun hr).2, fun hp => ?_⟩, Core.shutdown_writtenLines _ _,
      Nat.le_refl _, ⟨_, rfl, fun _ => hd⟩, False.elim⟩
    obtain ⟨hzero, hnil⟩ := hno hp
    refine ⟨hzero, ?_⟩
    show s.dropLog ++ (s.draining alloc).lost = []
    rw [hnil, (h.unready hp).2]
    rfl

/-- Starting the engine zeroes its counter. -/
theorem startIf_counts {mid : Process} (h : Counts s mid False) (mode : Mode) (a : Starting) :
    Counts s (mid.startIf mode a) (mode = .async ∧ a.slotsOk = true) := by
  obtain ⟨lost, hlog, hd⟩ := h.history
  cases mode with
  | sync => exact ⟨h.ok, h.written, h.rotated, ⟨lost, hlog, fun _ => hd id⟩, fun hno => by cases hno.1⟩
  | async =>
    unfold startIf Process.hxAsyncStart
    cases hslots : a.slotsOk with
    | false =>
      refine ⟨⟨h.ok.wf, fun _ => rfl, fun hno => by cases hno⟩, h.written, h.rotated, ⟨lost, hlog, fun _ => hd id⟩, ?_⟩
      intro hno
      cases hno.2
    | true =>
      refine ⟨⟨?_, fun _ => rfl, fun hno => by cases hno⟩, h.written, h.rotated, ⟨lost, hlog, fun hno => ?_⟩, fun _ => ?_⟩
      · cases a.created with
        | false => exact fun hr => by cases hr
        | true => exact fun _ => hxAsyncStart_wf a.cfg
      · exact absurd ⟨rfl, rfl⟩ hno
      · cases a.created <;> rfl

/-- The start may depend on more than whether the engine is zeroed. -/
theorem Counts.congr {p q : Prop} (h : Counts s s' p) (hpq : p ↔ q) : Counts s s' q := by
  rw [← propext hpq]
  exact h

theorem init_counts (h : s.Ok) (cfg : Option Config) (a : Starting) (o : Outside) :
    Counts s (s.hxClogInit cfg a o) (s.starts (.init cfg a o)) := by
  have hmid : Counts s { s with core := (s.core.hxClogInitLocked cfg { o with asyncStarted := a.slotsOk && a.created }).1 }
      False := .still h (Nat.le_of_eq (Core.init_writtenLines _ _ _).symm) (Nat.le_refl _)
  unfold hxClogInit
  simp only
  split
  · next hok => exact (startIf_counts hmid _ a).congr ⟨fun hst => ⟨hok, hst⟩, fun hst => hst.2⟩
  · next hno => exact hmid.congr ⟨False.elim, fun hst => hno hst.1⟩

theorem reconfigure_counts (h : s.Ok) (cfg : Option Config) (a : Starting) (o : Outside) (alloc : Nat → Bool) :
    Counts s (s.hxClogReconfigure cfg a o alloc) (s.starts (.reconfigure cfg a o alloc)) := by
  obtain ⟨hrun, hd, hno⟩ := draining_spec h alloc
  have hwritten := Core.reconfigure_writtenLines s.core cfg
    { o with flushed := [], drained := (s.draining alloc).out, asyncStarted := a.slotsOk && a.created }
  unfold hxClogReconfigure
  simp only
  split
  · next hok =>
    refine (startIf_counts ?_ _ a).congr
      ⟨fun hst => ⟨hok, hst⟩, fun hst => hst.2⟩
    refine ⟨⟨fun hr => (hrun hr).1, fun hr => (hrun hr).2, fun hp => ?_⟩, hwritten, Nat.le_refl _,
      ⟨_, rfl, fun _ => hd⟩, False.elim⟩
    obtain ⟨hzero, hnil⟩ := hno hp
    refine ⟨hzero, ?_⟩
    show s.dropLog ++ (s.draining alloc).lost = []
    rw [hnil, (h.unready hp).2]
    rfl
  · next hbad =>
    have hmid := Counts.still h hwritten (Nat.le_refl s.rotatedFiles)
    exact hmid.congr ⟨False.elim, fun hst => hbad hst.1⟩

theorem step_counts (h : s.Ok) {call : StatCall} (hs : s.step call = some s') : Counts s s' (s.starts call) := by
  cases call with
  | log l alloc => exact log_counts h hs
  | work alloc =>
    cases hs
    exact work_counts h alloc
  | rotate =>
    cases hs
    exact .still h (Nat.le_refl _) (Nat.le_succ _)
  | init cfg a o =>
    cases hs
    exact init_counts h cfg a o
  | reconfigure cfg a o alloc =>
    cases hs
    exact reconfigure_counts h cfg a o alloc
  | shutdown o alloc =>
    cases hs
    exact shutdown_counts h o alloc

end Process

/-! ## Runs -/

def Stats.Le (a b : Stats) : Prop :=
  a.writtenLines ≤ b.writtenLines ∧ a.droppedLines ≤ b.droppedLines ∧ a.rotatedFiles ≤ b.rotatedFiles

theorem Stats.Le.trans {a b c : Stats} (h : a.Le b) (h' : b.Le c) : a.Le c :=
  ⟨Nat.le_trans h.1 h'.1, Nat.le_trans h.2.1 h'.2.1, Nat.le_trans h.2.2 h'.2.2⟩

/-- Whenever a call of the run zeroes the engine, no line has been dropped until then. -/
def NoneDroppedAtStart (s : Process) (calls : List StatCall) : Prop :=
  ∀ pre call post t t', calls = pre ++ call :: post → Transition.run Process.step s pre = some t →
    t.step call = some t' → t.starts call → t'.dropLog = []

/-- The count of dropped lines is the number of lines that were dropped. -/
def Process.Truthful (s : Process) : Prop := s.hxClogGetStats.droppedLines = s.dropLog.length

/-- A step that starts the engine only when no line was dropped. -/
theorem step_truthful {s s' : Process} {call : StatCall} (h : s.Ok) (ht : s.Truthful) (hs : s.step call = some s')
    (hstart : s.starts call → s'.dropLog = []) : s'.Ok ∧ s'.Truthful ∧ s.hxClogGetStats.Le s'.hxClogGetStats := by
  have hc := Process.step_counts h hs
  obtain ⟨lost, hlog, hd⟩ := hc.history
  have hbefore := (Process.reported h).symm.trans ht
  have hafter : s'.eng.dropped = s'.dropLog.length := by
    by_cases hst : s.starts call
    · rw [hc.zeroed hst, hstart hst]
      rfl
    · rw [hd hst, hbefore, hlog, List.length_append]
  have hreport := Process.reported hc.ok
  refine ⟨hc.ok, hreport.trans hafter, hc.written, ?_, hc.rotated⟩
  rw [hreport, Process.reported h, hbefore, hafter, hlog, List.length_append]
  exact Nat.le_add_right _ _

theorem run_truthful : ∀ {calls : List StatCall} {s s' : Process}, s.Ok → s.Truthful →
    Transition.run Process.step s calls = some s' → NoneDroppedAtStart s calls →
      s'.Ok ∧ s'.Truthful ∧ s.hxClogGetStats.Le s'.hxClogGetStats
  | [], s, s', h, ht, hr, _ => by
    cases hr
    exact ⟨h, ht, Nat.le_refl _, Nat.le_refl _, Nat.le_refl _⟩
  | call :: calls, s, s', h, ht, hr, hn => by
    rw [Transition.run_cons] at hr
    obtain ⟨t, hs, hr⟩ := Option.bind_eq_some_iff.mp hr
    obtain ⟨hok, htrue, hle⟩ := step_truthful h ht hs (hn [] call calls s t rfl rfl hs)
    have hrest : NoneDroppedAtStart t calls := by
      intro pre c post u u' hc hu hu' hst
      refine hn (call :: pre) c post u u' (by rw [hc]; rfl) ?_ hu' hst
      rw [Transition.run_cons, hs]
      exact hu
    obtain ⟨hok', htrue', hle'⟩ := run_truthful hok htrue hr hrest
    exact ⟨hok', htrue', hle.trans hle'⟩

theorem run_ok {calls : List StatCall} {s s' : Process} (h : s.Ok) (hr : Transition.run Process.step s calls = some s') :
    s'.Ok :=
  Transition.run_invariant (fun _ _ _ hok hs => (Process.step_counts hok hs).ok) calls s s' h hr

theorem processAtStart_ok : processAtStart.Ok :=
  ⟨fun h => absurd h (by decide), fun h => absurd h (by decide), fun _ => ⟨rfl, rfl⟩⟩

/-- Between any two points of a run no counter decreases, and at the second the drops
reported are those that happened, if and only if no start of the engine comes after a drop. -/
theorem stats_keep_history_iff (calls : List StatCall) :
    (∀ pre mid post s₁ s₂, calls = pre ++ (mid ++ post) → Transition.run Process.step processAtStart pre = some s₁ →
      Transition.run Process.step s₁ mid = some s₂ → s₁.hxClogGetStats.Le s₂.hxClogGetStats ∧ s₂.Truthful) ↔
      NoneDroppedAtStart processAtStart calls := by
  constructor
  · intro hall pre call post t t' hc ht ht' hst
    have hok := run_ok processAtStart_ok ht
    have hcounts := Process.step_counts hok ht'
    have hone : Transition.run Process.step t [call] = some t' := by
      rw [Transition.run_cons, ht']
      rfl
    have htrue := (hall pre [call] post t t' hc ht hone).2
    have hzero := (Process.reported hcounts.ok).symm.trans htrue
    rw [hcounts.zeroed hst] at hzero
    exact List.length_eq_zero_iff.mp hzero.symm
  · intro hn pre mid post s₁ s₂ hc h₁ h₂
    have hpre : NoneDroppedAtStart processAtStart pre := by
      intro a c b t t' ha ht ht' hst
      exact hn a c (b ++ (mid ++ post)) t t' (by rw [hc, ha]; simp) ht ht' hst
    obtain ⟨hok, htrue, _⟩ := run_truthful processAtStart_ok rfl h₁ hpre
    have hmid : NoneDroppedAtStart s₁ mid := by
      intro a c b t t' ha ht ht' hst
      refine hn (pre ++ a) c (b ++ post) t t' (by rw [hc, ha]; simp) ?_ ht' hst
      rw [Transition.run_append, h₁]
      exact ht
    obtain ⟨_, htrue', hle⟩ := run_truthful hok htrue h₂ hmid
    exact ⟨hle, htrue'⟩

/-- A queue for one line, which refuses the second. -/
def oneSlotConfig : Config := { hxClogConfigDefault with mode := .async, enableConsole := false, enableFile := false }

def oneSlotStart : Starting := { cfg := ⟨.async, 1, 1, 0, .dropNew⟩ }

def refusedCalls : List StatCall :=
  [.init (some oneSlotConfig) oneSlotStart {}, .log ⟨2, [97], 0, true⟩ true, .log ⟨2, [97], 0, true⟩ true]

def restartCalls : List StatCall := [.shutdown {} (fun _ => true), .init (some oneSlotConfig) oneSlotStart {}]

/-- After a shutdown and an init the drop that was reported is forgotten. -/
theorem restart_forgets_drops : ∃ s₁ s₂, Transition.run Process.step processAtStart refusedCalls = some s₁ ∧
    Transition.run Process.step s₁ restartCalls = some s₂ ∧ s₁.hxClogGetStats.droppedLines = 1 ∧
      s₂.hxClogGetStats.droppedLines = 0 ∧ s₂.dropLog.length = 1 := by
  refine ⟨_, _, rfl, rfl, ?_, ?_, ?_⟩ <;> decide

end HxClog
