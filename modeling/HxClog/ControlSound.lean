import HxClog.EnqueueSound
import HxClog.Moves

/-!
# What the reconfiguring thread guarantees

At most one thread at a time is past the init lock. `Phase` is how far it has
come; with the mode, the running and stop flags and the worker's life span it
determines the state of the engine. A producer may be anywhere meanwhile: its
sections touch the queue only while the engine runs and is not stopping.
-/

namespace HxClog

/-! ## Phases of a reconfiguration -/

inductive Phase where
  | settled
  | modeCleared
  | joining
  | detaching
  | down
  | failed
  | created
  | publishing
  deriving DecidableEq

def Caller.phase? : Caller → Option Phase
  | .reconfigure _ => some .settled
  | _ => none

def Pc.phase? : Pc → Option Phase
  | .flush _ k => k.phase?
  | .asyncFlush _ k => k.phase?
  | .flushWait _ k => k.phase?
  | .flushSinks _ k => k.phase?
  | .checkMode _ => some .settled
  | .stop _ => some .modeCleared
  | .join _ => some .joining
  | .detach _ => some .detaching
  | .swap _ => some .down
  | .start _ => some .down
  | .create => some .created
  | .abortStart => some .failed
  | .publish => some .publishing
  | .unlock => some .settled
  | _ => none

@[simp] theorem wake_phase (pc : Pc) : pc.wake.phase? = pc.phase? := by cases pc <;> rfl

theorem after_phase (k : Caller) : k.after.phase? = k.phase? := by cases k <;> rfl

def Worker.alive : Worker → Bool
  | .none => false
  | .exited => false
  | _ => true

/-- The worker has seen the stop flag and an empty queue. -/
def Worker.leaving : Worker → Bool
  | .flushSinks _ exit => exit
  | .notify exit => exit
  | .exited => true
  | _ => false

/-- The engine as `mode` says: on with a worker, or off without one. -/
structure Up (s : State) : Prop where
  running : s.eng.running = true
  stop : s.eng.stop = false
  worker : s.worker.alive = true

structure Down (s : State) : Prop where
  running : s.eng.running = false
  worker : s.worker = .none

def Phase.Ok (s : State) : Phase → Prop
  | .settled => (s.mode = .async ∧ Up s) ∨ (s.mode = .sync ∧ Down s)
  | .modeCleared => s.mode = .sync ∧ Up s
  | .joining => s.mode = .sync ∧ s.eng.running = true ∧ s.eng.stop = true ∧ s.worker ≠ .none
  | .detaching => s.mode = .sync ∧ s.eng.running = true ∧ s.eng.stop = true ∧ s.worker = .none ∧ s.eng.count = 0
  | .down => s.mode = .sync ∧ Down s
  | .failed => False
  | .created => s.mode = .sync ∧ s.eng.running = true ∧ s.eng.stop = false ∧ s.worker = .none
  | .publishing => s.mode = .sync ∧ Up s

def phases (threads : List Pc) : List Phase := threads.filterMap Pc.phase?

/-- The init lock is held by the one thread that has a phase. -/
def PhaseInv (s : State) : Prop :=
  (phases s.threads = [] ∧ s.initLock = false ∧ Phase.Ok s .settled) ∨
    ∃ ph, phases s.threads = [ph] ∧ s.initLock = true ∧ ph.Ok s

structure Control (s : State) : Prop where
  wf : s.eng.running = true → s.eng.WF
  empty : s.eng.running = false → s.eng.queued = []
  ready : s.eng.running = true → s.primsReady = true
  drained : s.worker.leaving = true → s.eng.stop = true ∧ s.eng.count = 0
  phase : PhaseInv s

/-- A step of anyone but the reconfiguring thread. -/
structure Frame (s s' : State) : Prop where
  mode : s'.mode = s.mode
  initLock : s'.initLock = s.initLock
  primsReady : s'.primsReady = s.primsReady
  running : s'.eng.running = s.eng.running
  stop : s'.eng.stop = s.eng.stop
  phases : phases s'.threads = phases s.threads
  worker : s'.worker = s.worker ∨
    s.worker.alive = true ∧ s'.worker ≠ .none ∧ (s'.worker = .exited → s.eng.stop = true)
  count : s.eng.stop = true → s.eng.count = 0 → s'.eng.count = 0

theorem up_frame {s s' : State} (f : Frame s s') (h : Up s) : Up s' := by
  refine ⟨f.running.trans h.running, f.stop.trans h.stop, ?_⟩
  rcases f.worker with hw | ⟨_, hn, he⟩
  · rw [hw]; exact h.worker
  · cases hs : s'.worker with
    | none => exact absurd hs hn
    | exited => have := he hs; rw [h.stop] at this; cases this
    | _ => rfl

theorem down_frame {s s' : State} (f : Frame s s') (h : Down s) : Down s' := by
  refine ⟨f.running.trans h.running, ?_⟩
  rcases f.worker with hw | ⟨ha, _, _⟩
  · rw [hw]; exact h.worker
  · rw [h.worker] at ha; cases ha

theorem phase_frame {s s' : State} (f : Frame s s') {ph : Phase} (h : ph.Ok s) : ph.Ok s' := by
  have hnone : s.worker = .none → s'.worker = .none := by
    intro hw
    rcases f.worker with h' | ⟨ha, _, _⟩
    · rw [h', hw]
    · rw [hw] at ha; cases ha
  have hsome : s.worker ≠ .none → s'.worker ≠ .none := by
    intro hw
    rcases f.worker with h' | ⟨_, hn, _⟩
    · rw [h']; exact hw
    · exact hn
  cases ph with
  | settled =>
    rcases h with ⟨hm, hu⟩ | ⟨hm, hd⟩
    · exact Or.inl ⟨f.mode.trans hm, up_frame f hu⟩
    · exact Or.inr ⟨f.mode.trans hm, down_frame f hd⟩
  | modeCleared => exact ⟨f.mode.trans h.1, up_frame f h.2⟩
  | joining => exact ⟨f.mode.trans h.1, f.running.trans h.2.1, f.stop.trans h.2.2.1, hsome h.2.2.2⟩
  | detaching =>
    exact ⟨f.mode.trans h.1, f.running.trans h.2.1, f.stop.trans h.2.2.1, hnone h.2.2.2.1,
      f.count h.2.2.1 h.2.2.2.2⟩
  | down => exact ⟨f.mode.trans h.1, down_frame f h.2⟩
  | failed => exact h
  | created => exact ⟨f.mode.trans h.1, f.running.trans h.2.1, f.stop.trans h.2.2.1, hnone h.2.2.2⟩
  | publishing => exact ⟨f.mode.trans h.1, up_frame f h.2⟩

theorem PhaseInv.frame {s s' : State} (h : PhaseInv s) (f : Frame s s') : PhaseInv s' := by
  rcases h with ⟨hp, hl, ho⟩ | ⟨ph, hp, hl, ho⟩
  · exact Or.inl ⟨f.phases.trans hp, f.initLock.trans hl, phase_frame f ho⟩
  · exact Or.inr ⟨ph, f.phases.trans hp, f.initLock.trans hl, phase_frame f ho⟩

/-! ## Threads that leave the engine alone -/

section
variable {s : State} {i : Nat} {pc : Pc} (hi : s.threads[i]? = some pc)
include hi

theorem phases_goto {pc' : Pc} (h : pc'.phase? = pc.phase?) : phases (s.goto i pc').threads = phases s.threads :=
  Pool.filterMap_set_same hi h

theorem frame_goto {pc' : Pc} (h : pc'.phase? = pc.phase?) : Frame s (s.goto i pc') :=
  ⟨rfl, rfl, rfl, rfl, rfl, phases_goto hi h, Or.inl rfl, fun _ h => h⟩

theorem control_goto (hc : Control s) {pc' : Pc} (h : pc'.phase? = pc.phase?) : Control (s.goto i pc') :=
  ⟨hc.wf, hc.empty, hc.ready, hc.drained, hc.phase.frame (frame_goto hi h)⟩

/-- The thread past the init lock knows the phase, and is alone. -/
theorem phase_of_thread (hc : Control s) {ph : Phase} (hp : pc.phase? = some ph) :
    s.initLock = true ∧ ph.Ok s ∧ ∀ pc', phases (s.threads.set i pc') = pc'.phase?.toList := by
  obtain ⟨A, B, h1, h2⟩ := Pool.filterMap_set Pc.phase? s.threads i pc hi
  rw [hp] at h1
  rcases hc.phase with ⟨h, _, _⟩ | ⟨ph', h, hl, ho⟩
  · unfold phases at h
    rw [h1] at h
    simp at h
  · unfold phases at h
    rw [h1] at h
    have hlen := congrArg List.length h
    simp only [List.length_append, Option.toList_some, List.length_singleton] at hlen
    obtain rfl : A = [] := List.eq_nil_of_length_eq_zero (by omega)
    obtain rfl : B = [] := List.eq_nil_of_length_eq_zero (by omega)
    obtain rfl : ph = ph' := by simpa using h
    refine ⟨hl, ho, fun pc' => ?_⟩
    have := h2 pc'
    rwa [List.nil_append, List.append_nil] at this

end

theorem control_log {s : State} (hc : Control s) (evs : List Ev) : Control (s.log evs) :=
  ⟨hc.wf, hc.empty, hc.ready, hc.drained,
    hc.phase.frame ⟨rfl, rfl, rfl, rfl, rfl, rfl, Or.inl rfl, fun _ h => h⟩⟩

@[simp] theorem afterWrite_phase (mark : Nat) (l : Line) : (afterWrite mark l).phase? = none := by
  unfold afterWrite; split <;> rfl

theorem control_finishWrite {s : State} (hc : Control s) {i : Nat} {pc : Pc} (hi : s.threads[i]? = some pc)
    (hp : pc.phase? = none) (l : Line) : Control (finishWrite s i l) :=
  control_goto hi hc ((afterWrite_phase _ l).trans hp.symm)

/-- Replacing the engine by one that differs in the queue only. -/
theorem control_eng {s : State} {e : AsyncEngine} (hc : Control s) (hr : s.eng.running = true)
    (hs : s.eng.stop = false) (hw : e.WF) (hsame : SameControl s.eng e) : Control { s with eng := e } := by
  refine ⟨fun _ => hw, fun h => ?_, fun _ => hc.ready hr, fun h => ?_, ?_⟩
  · rw [show e.running = true from hsame.running.trans hr] at h; cases h
  · have := (hc.drained h).1
    rw [hs] at this; cases this
  · exact hc.phase.frame ⟨rfl, rfl, rfl, hsame.running, hsame.stop, rfl, Or.inl rfl,
      fun h => by rw [hs] at h; cases h⟩

/-- `flushRequest` is nobody's business here. -/
theorem control_flushRequest {s : State} (hc : Control s) (b : Bool) :
    Control { s with eng := { s.eng with flushRequest := b } } := by
  refine ⟨fun h => ?_, hc.empty, hc.ready, hc.drained, ?_⟩
  · have w := hc.wf h
    exact ⟨w.slots, w.pos, w.small, w.head, w.count, w.tail, w.batch, w.ok, w.full, w.scratchCap, w.scratch⟩
  · exact hc.phase.frame ⟨rfl, rfl, rfl, rfl, rfl, rfl, Or.inl rfl, fun _ h => h⟩

theorem control_settle {s : State} {i : Nat} {pc : Pc} {l : Line} {alloc : Bool} {r : Enqueue}
    (hi : s.threads[i]? = some pc) (hp : pc.phase? = none) (hc : Control s) (h : Enqueued s.eng l alloc r) :
    Control (settleEnqueue s i l r) := by
  cases r with
  | unavailable => exact control_goto hi hc hp.symm
  | wait => exact control_goto hi hc hp.symm
  | refused e report =>
    cases h with
    | refused _ hr hs _ _ =>
      have hw := control_eng hc hr hs (wf_dropped (hc.wf hr) (s.eng.dropped + 1)) ⟨rfl, rfl, rfl, rfl, rfl, rfl⟩
      exact control_finishWrite (control_log hw _) hi hp l
  | settled e old stored report =>
    obtain ⟨hw, hsame, _, hr, hs⟩ := h.wf
    exact control_finishWrite (control_log (control_eng hc hr hs hw hsame) _) hi hp l

/-! ## The worker -/

section
variable {s : State} (hc : Control s)
include hc

theorem control_worker {w : Worker} (ha : s.worker.alive = true) (hn : w ≠ .none)
    (hl : w.leaving = true → s.eng.stop = true ∧ s.eng.count = 0) : Control { s with worker := w } := by
  refine ⟨hc.wf, hc.empty, hc.ready, hl, ?_⟩
  refine hc.phase.frame ⟨rfl, rfl, rfl, rfl, rfl, rfl, Or.inr ⟨ha, hn, fun h => ?_⟩, fun _ h => h⟩
  have h' : w = .exited := h
  subst h'
  exact (hl rfl).1

/-- A worker has an engine that runs. -/
theorem running_of_worker (hw : s.worker ≠ .none) : s.eng.running = true := by
  rcases hc.phase with ⟨_, _, ho⟩ | ⟨ph, _, _, ho⟩
  · rcases ho with ⟨_, hu⟩ | ⟨_, hd⟩
    · exact hu.running
    · exact absurd hd.worker hw
  · cases ph with
    | settled =>
      rcases ho with ⟨_, hu⟩ | ⟨_, hd⟩
      · exact hu.running
      · exact absurd hd.worker hw
    | modeCleared => exact ho.2.running
    | joining => exact ho.2.1
    | detaching => exact ho.2.1
    | down => exact absurd ho.2.worker hw
    | failed => exact ho.elim
    | created => exact ho.2.1
    | publishing => exact ho.2.running

theorem control_threads {threads : List Pc} (h : phases threads = phases s.threads) :
    Control { s with threads := threads } :=
  ⟨hc.wf, hc.empty, hc.ready, hc.drained,
    hc.phase.frame ⟨rfl, rfl, rfl, rfl, rfl, h, Or.inl rfl, fun _ h => h⟩⟩

theorem control_afterWait (ha : s.worker.alive = true) : Control (workerAfterWait s) := by
  unfold workerAfterWait
  split
  · rename_i h0
    exact control_worker (control_flushRequest hc false) ha (by simp) fun h => ⟨h, h0⟩
  · exact control_worker hc ha (by simp) fun h => by cases h

theorem control_top (ha : s.worker.alive = true) : Control (workerTop s) := by
  unfold workerTop
  split
  · exact control_worker hc ha (by simp) fun h => by cases h
  · exact control_afterWait hc ha

/-- A pop takes a queued line out, whichever way it ends. -/
theorem control_pop {e : AsyncEngine} {w : Worker} (ha : s.worker.alive = true) (hr : s.eng.running = true)
    (hcount : 0 < s.eng.count) (hw : e.WF) (hsame : SameControl s.eng e) (hn : w ≠ .none)
    (hl : w.leaving = false) : Control { s with eng := e, worker := w } := by
  refine ⟨fun _ => hw, fun h => ?_, fun _ => hc.ready hr, fun h => ?_, ?_⟩
  · rw [show e.running = true from hsame.running.trans hr] at h; cases h
  · rw [show w.leaving = false from hl] at h; cases h
  · refine hc.phase.frame ⟨rfl, rfl, rfl, hsame.running, hsame.stop, rfl, Or.inr ⟨ha, hn, fun h => ?_⟩,
      fun _ h => by omega⟩
    have h' : w = .exited := h
    subst h'
    cases hl

theorem control_batch {s' : State} {c : Choice} {n : Nat} (hw : s.worker = .batch n)
    (h : workerBatch s c n = some s') : Control s' := by
  have ha : s.worker.alive = true := by rw [hw]; rfl
  have hr := running_of_worker hc (by rw [hw]; simp)
  unfold workerBatch at h
  split at h
  · rename_i hpos
    obtain ⟨r, hpop, h⟩ := Option.bind_eq_some_iff.mp h
    obtain ⟨threads, hsig, h⟩ := Option.map_eq_some_iff.mp h
    have hph : phases threads = phases s.threads := signal_filterMap wake_phase hsig
    rcases workerPop_spec (hc.wf hr) hpos.1 hpop with ⟨e, l, rfl, _, hwf, hsame, _⟩ | ⟨e, p, rfl, hwf, hsame, _⟩
    · subst h
      exact control_log (control_threads (control_pop hc (w := .batch (n + 1)) ha hr hpos.1 hwf hsame (by simp) rfl)
        hph) _
    · subst h
      exact control_log (control_threads (control_pop hc (w := .emit n p) ha hr hpos.1 hwf hsame (by simp) rfl)
        hph) _
  · cases h
    exact control_worker (control_flushRequest hc _) ha (by simp) fun h => by cases h

theorem control_workerMove {s' : State} {c : Choice} (h : workerMove s c s.worker = some s') : Control s' := by
  cases hw : s.worker with
  | none => rw [hw] at h; cases h
  | exited => rw [hw] at h; cases h
  | top => rw [hw] at h; cases h; exact control_top hc (by rw [hw]; rfl)
  | waiting =>
    rw [hw] at h; cases h
    split
    · exact control_afterWait hc (by rw [hw]; rfl)
    · exact control_top hc (by rw [hw]; rfl)
  | flushSinks d x =>
    rw [hw] at h; cases h
    have hl : x = true → s.eng.stop = true ∧ s.eng.count = 0 := fun hx => hc.drained (by rw [hw]; exact hx)
    refine control_worker (control_log hc _) (show s.worker.alive = true by rw [hw]; rfl) ?_ ?_
    · cases d <;> cases x <;> simp
    · cases d <;> cases x <;> simp [Worker.leaving] at hl ⊢ <;> exact hl
  | notify x =>
    rw [hw] at h; cases h
    have hl : x = true → s.eng.stop = true ∧ s.eng.count = 0 := fun hx => hc.drained (by rw [hw]; exact hx)
    refine control_worker hc (by rw [hw]; rfl) ?_ ?_
    · cases x <;> simp
    · cases x <;> simp [Worker.leaving] at hl ⊢; exact hl
  | batch n => rw [hw] at h; exact control_batch hc hw h
  | emit n p =>
    rw [hw] at h; cases h
    exact control_worker (control_log hc _) (show s.worker.alive = true by rw [hw]; rfl) (by simp) fun h => by cases h
  | relock n =>
    rw [hw] at h; cases h
    exact control_worker hc (by rw [hw]; rfl) (by simp) fun h => by cases h

end

/-! ## The reconfiguring thread -/

/-- The reconfiguring thread moves on to its next phase. -/
theorem PhaseInv.next {s s' : State} {i : Nat} {pc : Pc} {ph : Phase} (hi : s.threads[i]? = some pc)
    (hc : Control s) (pc' : Pc) (ph' : Phase) (hp : pc.phase? = some ph) (hp' : pc'.phase? = some ph')
    (ht : phases s'.threads = phases (s.threads.set i pc')) (hl : s'.initLock = s.initLock) (ho : ph'.Ok s') :
    PhaseInv s' := by
  obtain ⟨hlock, _, hset⟩ := phase_of_thread hi hc hp
  refine Or.inr ⟨ph', ?_, hl.trans hlock, ho⟩
  rw [ht, hset, hp']
  rfl

theorem wf_stop {e : AsyncEngine} (h : e.WF) : (asyncStopRequest e).WF :=
  ⟨h.slots, h.pos, h.small, h.head, h.count, h.tail, h.batch, h.ok, h.full, h.scratchCap, h.scratch⟩

theorem queued_of_count {e : AsyncEngine} (h : e.count = 0) : e.queued = [] := by
  unfold AsyncEngine.queued
  rw [h, Ring.contents_zero]
  rfl

section
variable {s s' : State} {i : Nat} {c : Choice} (hc : Control s)
include hc

theorem control_checkMode {cfg : AsyncConfig} (hi : s.threads[i]? = some (.checkMode cfg))
    (h : threadMove s i c (.checkMode cfg) = some s') : Control s' := by
  obtain ⟨_, ho, _⟩ := phase_of_thread hi hc rfl
  cases hm : s.mode with
  | async =>
    simp only [threadMove, hm, Option.some.injEq] at h
    subst h
    rcases ho with ⟨_, hu⟩ | ⟨hm', _⟩
    · exact ⟨hc.wf, hc.empty, hc.ready, hc.drained,
        PhaseInv.next hi hc (.stop cfg) .modeCleared rfl rfl rfl rfl ⟨rfl, hu.running, hu.stop, hu.worker⟩⟩
    · rw [hm] at hm'; cases hm'
  | sync =>
    simp only [threadMove, hm, Option.some.injEq] at h
    subst h
    rcases ho with ⟨hm', _⟩ | ⟨_, hd⟩
    · rw [hm] at hm'; cases hm'
    · exact ⟨hc.wf, hc.empty, hc.ready, hc.drained,
        PhaseInv.next hi hc (.swap cfg) .down rfl rfl rfl rfl ⟨hm, hd.running, hd.worker⟩⟩

theorem control_stop {cfg : AsyncConfig} (hi : s.threads[i]? = some (.stop cfg))
    (h : threadMove s i c (.stop cfg) = some s') : Control s' := by
  obtain ⟨_, ⟨hm, hu⟩, _⟩ := phase_of_thread hi hc rfl
  have hready := hc.ready hu.running
  simp only [threadMove, hready, Bool.not_true, Bool.false_eq_true, if_false] at h
  split at h
  · cases h
    unfold asyncStopEnter
    rw [if_neg (by rw [hu.running]; decide)]
    have hw : s.worker ≠ .none := by intro hn; have := hu.worker; rw [hn] at this; cases this
    refine ⟨fun _ => wf_stop (hc.wf hu.running), fun h => hc.empty h, hc.ready, fun hl => ?_, ?_⟩
    · exact ⟨rfl, (hc.drained hl).2⟩
    · exact PhaseInv.next hi hc (.join cfg) .joining rfl rfl (wakeAll_set_filterMap wake_phase _ _ _) rfl
        ⟨hm, hu.running, rfl, hw⟩
  · cases h

theorem control_join {cfg : AsyncConfig} (hi : s.threads[i]? = some (.join cfg))
    (h : threadMove s i c (.join cfg) = some s') : Control s' := by
  obtain ⟨_, ⟨hm, hr, hs, _⟩, _⟩ := phase_of_thread hi hc rfl
  simp only [threadMove] at h
  split at h
  · rename_i hw
    cases h
    have hd := (hc.drained (by rw [hw]; rfl)).2
    exact ⟨hc.wf, hc.empty, hc.ready, (fun h => by cases h),
      PhaseInv.next hi hc (.detach cfg) .detaching rfl rfl rfl rfl ⟨hm, hr, hs, rfl, hd⟩⟩
  · cases h

theorem control_detach {cfg : AsyncConfig} (hi : s.threads[i]? = some (.detach cfg))
    (h : threadMove s i c (.detach cfg) = some s') : Control s' := by
  obtain ⟨_, ⟨hm, _, _, hw, _⟩, _⟩ := phase_of_thread hi hc rfl
  simp only [threadMove] at h
  split at h
  · cases h
    refine ⟨(fun h => by cases h), fun _ => rfl, (fun h => by cases h), fun hl => ?_, ?_⟩
    · have hl' : s.worker.leaving = true := hl
      rw [hw] at hl'; cases hl'
    · exact PhaseInv.next hi hc (.swap cfg) .down rfl rfl rfl rfl ⟨hm, rfl, hw⟩
  · cases h

theorem control_swap {cfg : AsyncConfig} (hi : s.threads[i]? = some (.swap cfg))
    (h : threadMove s i c (.swap cfg) = some s') : Control s' := by
  obtain ⟨_, ⟨_, hd⟩, _⟩ := phase_of_thread hi hc rfl
  cases h
  refine ⟨hc.wf, hc.empty, hc.ready, hc.drained, ?_⟩
  cases cfg.mode with
  | async =>
    exact PhaseInv.next hi hc (.start cfg) .down rfl rfl rfl rfl ⟨rfl, hd.running, hd.worker⟩
  | sync =>
    exact PhaseInv.next hi hc .unlock .settled rfl rfl rfl rfl
      (Or.inr ⟨rfl, hd.running, hd.worker⟩)

theorem control_start {cfg : AsyncConfig} (hi : s.threads[i]? = some (.start cfg))
    (h : threadMove s i c (.start cfg) = some s') : Control s' := by
  obtain ⟨_, ⟨hm, hd⟩, _⟩ := phase_of_thread hi hc rfl
  simp only [threadMove] at h
  split at h
  · cases h
    exact ⟨hc.wf, hc.empty, fun _ => rfl, hc.drained,
      PhaseInv.next hi hc .unlock .settled rfl rfl rfl rfl (Or.inr ⟨hm, hd.running, hd.worker⟩)⟩
  · split at h
    · cases h
      refine ⟨fun _ => hxAsyncStart_wf cfg, (fun h => by cases h), fun _ => rfl, fun hl => ?_, ?_⟩
      · have hl' : s.worker.leaving = true := hl
        rw [hd.worker] at hl'; cases hl'
      · exact PhaseInv.next hi hc .create .created rfl rfl rfl rfl ⟨hm, rfl, rfl, hd.worker⟩
    · cases h

theorem control_create (hi : s.threads[i]? = some .create) (hok : c.created = true)
    (h : threadMove s i c .create = some s') : Control s' := by
  obtain ⟨_, ⟨hm, hr, hs, _⟩, _⟩ := phase_of_thread hi hc rfl
  simp only [threadMove, hok, if_true, Option.some.injEq] at h
  subst h
  exact ⟨hc.wf, hc.empty, hc.ready, (fun h => by cases h),
    PhaseInv.next hi hc .publish .publishing rfl rfl rfl rfl ⟨hm, hr, hs, rfl⟩⟩

theorem control_publish (hi : s.threads[i]? = some .publish)
    (h : threadMove s i c .publish = some s') : Control s' := by
  obtain ⟨_, ⟨_, hu⟩, _⟩ := phase_of_thread hi hc rfl
  cases h
  exact ⟨hc.wf, hc.empty, hc.ready, hc.drained,
    PhaseInv.next hi hc .unlock .settled rfl rfl rfl rfl
      (Or.inl ⟨rfl, hu.running, hu.stop, hu.worker⟩)⟩

theorem control_unlock (hi : s.threads[i]? = some .unlock)
    (h : threadMove s i c .unlock = some s') : Control s' := by
  obtain ⟨_, ho, hset⟩ := phase_of_thread hi hc rfl
  cases h
  refine ⟨hc.wf, hc.empty, hc.ready, hc.drained, Or.inl ⟨hset .idle, rfl, ?_⟩⟩
  rcases ho with ⟨hm, hu⟩ | ⟨hm, hd⟩
  · exact Or.inl ⟨hm, hu.running, hu.stop, hu.worker⟩
  · exact Or.inr ⟨hm, hd.running, hd.worker⟩

theorem control_initLock {cfg : AsyncConfig} (hi : s.threads[i]? = some (.initLock cfg))
    (h : threadMove s i c (.initLock cfg) = some s') : Control s' := by
  simp only [threadMove] at h
  split at h
  · cases h
  · rename_i hfree
    split at h
    · cases h
      refine ⟨hc.wf, hc.empty, hc.ready, hc.drained, ?_⟩
      rcases hc.phase with ⟨hp, _, ho⟩ | ⟨_, _, hl, _⟩
      · obtain ⟨A, B, h1, h2⟩ := Pool.filterMap_set Pc.phase? s.threads i _ hi
        unfold phases at hp
        rw [h1] at hp
        have hA := List.append_eq_nil_iff.mp hp
        have hA' := List.append_eq_nil_iff.mp hA.1
        refine Or.inr ⟨.settled, ?_, rfl, ?_⟩
        · have := h2 (.flush s.trace.length (.reconfigure cfg))
          rw [hA'.1, hA.2] at this
          exact this
        · rcases ho with ⟨hm, hu⟩ | ⟨hm, hd⟩
          · exact Or.inl ⟨hm, hu.running, hu.stop, hu.worker⟩
          · exact Or.inr ⟨hm, hd.running, hd.worker⟩
      · exact absurd hl hfree
    · cases h
      exact control_goto hi hc rfl

theorem control_asyncFlush {mark : Nat} {k : Caller} (hi : s.threads[i]? = some (.asyncFlush mark k))
    (h : threadMove s i c (.asyncFlush mark k) = some s') : Control s' := by
  simp only [threadMove] at h
  split at h
  · cases h; exact control_goto hi hc rfl
  · split at h
    · cases h
      unfold asyncFlushEnter
      split
      · exact control_goto hi hc rfl
      · have hf := control_flushRequest hc true
        split
        · exact control_goto (s := { s with eng := { s.eng with flushRequest := true } }) hi hf rfl
        · exact control_goto (s := { s with eng := { s.eng with flushRequest := true } }) hi hf rfl
    · cases h

theorem control_threadMove {pc : Pc} (hi : s.threads[i]? = some pc) (hok : c.created = true)
    (h : threadMove s i c pc = some s') : Control s' := by
  cases pc with
  | idle => cases h
  | parked l => cases h
  | dispatch l =>
    cases h
    refine control_goto hi hc ?_
    cases s.mode <;> rfl
  | enqueue l =>
    simp only [threadMove] at h
    split at h
    · cases h; exact control_goto hi hc rfl
    · split at h
      · obtain ⟨r, hr, rfl⟩ := Option.map_eq_some_iff.mp h
        exact control_settle hi rfl hc (hxAsyncEnqueue_spec hc.wf hr)
      · cases h
  | woken l =>
    simp only [threadMove] at h
    split at h
    · obtain ⟨r, hr, rfl⟩ := Option.map_eq_some_iff.mp h
      exact control_settle hi rfl hc (asyncEnqueueBlock_spec hc.wf hr)
    · cases h
  | emit l =>
    cases h
    exact control_finishWrite (control_log hc _) hi rfl l
  | flush mark k =>
    cases h
    refine control_goto hi hc ?_
    cases s.mode <;> rfl
  | asyncFlush mark k => exact control_asyncFlush hc hi h
  | flushWait mark k =>
    simp only [threadMove] at h
    split at h
    · cases h
      unfold asyncFlushWake
      split
      · exact control_goto hi hc rfl
      · split
        · exact hc
        · exact control_goto hi hc rfl
    · cases h
  | flushSinks mark k =>
    cases h
    exact control_goto (s := s.log [.flush mark k]) hi (control_log hc _) (after_phase k)
  | initLock cfg => exact control_initLock hc hi h
  | checkMode cfg => exact control_checkMode hc hi h
  | stop cfg => exact control_stop hc hi h
  | join cfg => exact control_join hc hi h
  | detach cfg => exact control_detach hc hi h
  | swap cfg => exact control_swap hc hi h
  | start cfg => exact control_start hc hi h
  | create => exact control_create hc hi hok h
  | abortStart => exact (phase_of_thread hi hc rfl).2.1.elim
  | publish => exact control_publish hc hi h
  | unlock => exact control_unlock hc hi h

end

/-! ## Every run -/

theorem control_step {s s' : State} {a : Act} (hc : Control s) (ha : a.startsOk = true) (h : step s a = some s') :
    Control s' := by
  cases a with
  | call i l =>
    simp only [step] at h
    split at h
    · rename_i hi; cases h; exact control_goto (s := s.log [.given i l]) hi (control_log hc _) rfl
    · cases h
  | callFlush i =>
    simp only [step] at h
    split at h
    · rename_i hi; cases h; exact control_goto (s := s.log [.flushCalled i]) hi (control_log hc _) rfl
    · cases h
  | callReconfigure i cfg =>
    simp only [step] at h
    split at h
    · rename_i hi; cases h; exact control_goto hi hc rfl
    · cases h
  | thread i c =>
    obtain ⟨pc, hi, h⟩ := Option.bind_eq_some_iff.mp h
    exact control_threadMove hc hi ha h
  | spurious i =>
    obtain ⟨pc, hi, h⟩ := Option.bind_eq_some_iff.mp h
    split at h
    · cases h; exact control_goto hi hc (wake_phase pc)
    · cases h
  | worker c => exact control_workerMove hc h

theorem control_init (n : Nat) (cfg : AsyncConfig) : Control (initState n cfg) := by
  have hp : phases (List.replicate n Pc.idle) = [] := by
    unfold phases
    rw [List.filterMap_replicate]
    rfl
  cases hm : cfg.mode with
  | async =>
    refine ⟨fun _ => ?_, fun h => ?_, fun _ => ?_, fun h => ?_, Or.inl ⟨hp, rfl, Or.inl ⟨hm, ?_, ?_, ?_⟩⟩⟩
    all_goals simp only [initState, hm] at *
    · exact hxAsyncStart_wf cfg
    · cases h
    · rfl
    · cases h
    · rfl
    · rfl
    · rfl
  | sync =>
    refine ⟨fun h => ?_, fun _ => ?_, fun h => ?_, fun h => ?_, Or.inl ⟨hp, rfl, Or.inr ⟨hm, ?_, ?_⟩⟩⟩
    all_goals simp only [initState, hm] at *
    · cases h
    · rfl
    · cases h
    · cases h

/-- What holds at the start and is kept by every allowed step holds in every reachable state. -/
theorem execute_invariant {ok : Act → Bool} {I : State → Prop} {n : Nat} {cfg : AsyncConfig} {as : List Act} {s : State}
    (hinit : I (initState n cfg)) (hstep : ∀ s a t, I s → ok a = true → step s a = some t → I t)
    (h : execute ok n cfg as = some s) : I s :=
  Transition.run_invariant (I := I) (fun s a t hs ht => by
    obtain ⟨ha, hst⟩ := Transition.restrict_some ht
    exact hstep s a t hs ha hst) as _ s hinit h

theorem control_run {n : Nat} {cfg : AsyncConfig} {as : List Act} {s : State}
    (h : execute Act.startsOk n cfg as = some s) : Control s :=
  execute_invariant (control_init n cfg) (fun _ _ _ hs ha hst => control_step hs ha hst) h

end HxClog
