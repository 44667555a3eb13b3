import HxClog.Lib.Descent
import HxClog.WakeupSound

/-!
# How much work is left

Every thread inside a call, every queued line and the worker stand for a number of steps.
A step takes one from the sum, unless it only ends a wait that begins again: the worker
with nothing to do, `hx_async_flush` with lines still queued, a spurious wakeup. A line
weighs its way through the batch loop and a step for each producer its pop may wake.
-/

namespace HxClog

/-! ## Work -/

/-- From here to the end of `hx_clog_reconfigure`, behind its flush. -/
def reconfigureWork (n : Nat) : Nat := n + 21

def Caller.work (n : Nat) : Caller → Nat
  | .reconfigure _ => reconfigureWork n
  | _ => 0

/-- What the call of a thread has left to do, `n` threads being there to be woken. -/
def Pc.work (n : Nat) : Pc → Nat
  | .idle => 0
  | .dispatch _ => n + 18
  | .enqueue _ => n + 17
  | .parked _ => n + 16
  | .woken _ => n + 17
  | .emit _ => 10
  | .flush _ k => k.work n + 9
  | .asyncFlush _ k => k.work n + 8
  | .flushWait _ k => k.work n + 2
  | .flushSinks _ k => k.work n + 1
  | .initLock _ => reconfigureWork n + 10
  | .checkMode _ => reconfigureWork n
  | .stop _ => n + 20
  | .join _ => 18
  | .detach _ => 17
  | .swap _ => 15
  | .start _ => 14
  | .create => 12
  | .abortStart => 3
  | .publish => 2
  | .unlock => 1

def threadsWork (n : Nat) (threads : List Pc) : Nat := (threads.map (Pc.work n)).sum

/-- Nothing is queued and nothing is asked of the worker. -/
def AsyncEngine.calm (e : AsyncEngine) : Bool := e.count == 0 && !e.stop && !e.flushRequest

def Worker.work (e : AsyncEngine) : Worker → Nat
  | .none => 0
  | .exited => 0
  | .top => if e.calm then 9 else 8
  | .waiting => if e.calm then 9 else 8
  | .flushSinks doFlush exit => if exit then (if doFlush then 2 else 1) else if doFlush then 11 else 9
  | .notify exit => if exit then 1 else 10
  | .batch written => if written < e.batchSize ∧ 0 < e.count then 7 else 10
  | .relock _ => 11
  | .emit _ _ => 12

/-- What a queued line stands for. -/
def lineWork (n : Nat) : Nat := n + 6

def requestWork (flushRequest : Bool) : Nat := if flushRequest then 4 else 0

def workLeft (threads : List Pc) (e : AsyncEngine) (w : Worker) : Nat :=
  threadsWork threads.length threads + lineWork threads.length * e.count + requestWork e.flushRequest + w.work e

def State.work (s : State) : Nat := workLeft s.threads s.eng s.worker

/-! ## Steps that only wait -/

/-- The loop of `hx_async_flush` goes on. -/
def AsyncEngine.undrained (e : AsyncEngine) : Bool := e.count != 0 && e.flushRequest && e.running && !e.stop

def Worker.rests (e : AsyncEngine) : Worker → Bool
  | .top => e.calm
  | .waiting => e.calm
  | .flushSinks false false => e.calm
  | _ => false

def Act.isSpurious : Act → Bool
  | .spurious _ => true
  | _ => false

/-- A wait that ends without the state having changed and begins again. -/
def State.rests (s : State) : Act → Bool
  | .thread i _ =>
    match s.threads[i]? with
    | some (.flushWait _ _) => s.eng.undrained
    | _ => false
  | .worker _ => s.worker.rests s.eng
  | .spurious _ => true
  | _ => false

/-- No further call is made. -/
def Act.continues : Act → Bool
  | .call _ _ => false
  | .callFlush _ => false
  | .callReconfigure _ _ => false
  | _ => true

/-! ## Threads -/

section
variable {n : Nat} {threads : List Pc} {i : Nat} {pc : Pc}

theorem threadsWork_set (hi : threads[i]? = some pc) (pc' : Pc) :
    threadsWork n (threads.set i pc') + pc.work n = threadsWork n threads + pc'.work n :=
  Pool.sum_set (Pc.work n) pc' hi

theorem wake_work (pc : Pc) : pc.wake.work n ≤ pc.work n + 1 := by
  cases pc <;> simp [Pc.wake, Pc.work]

/-- Waking costs each thread at most the way to its next wait. -/
theorem threadsWork_wakes : ∀ {threads : List Pc} (w : Nat → Bool),
    threadsWork n (threads.mapIdx fun i pc => if w i then pc.wake else pc) ≤ threadsWork n threads + threads.length
  | [], _ => le_refl 0
  | pc :: threads, w => by
    have hrest : _ ≤ threadsWork n threads + threads.length := threadsWork_wakes fun i => w (i + 1)
    have hwake : pc.wake.work n ≤ pc.work n + 1 := wake_work pc
    simp only [threadsWork, List.mapIdx_cons, List.map_cons, List.sum_cons, List.length_cons] at hrest ⊢
    split <;> omega

theorem threadsWork_wakeAll (threads : List Pc) :
    threadsWork n (wakeAll threads) ≤ threadsWork n threads + threads.length := by
  have hall : wakeAll threads = threads.mapIdx fun _ pc => if true then pc.wake else pc := by
    apply List.ext_getElem?
    intro i
    simp [wakeAll]
  rw [hall]
  exact threadsWork_wakes fun _ => true

theorem threadsWork_signal {threads' : List Pc} {wake : List Nat} (h : signalNotFull threads wake = some threads') :
    threadsWork n threads' ≤ threadsWork n threads + threads.length ∧ threads'.length = threads.length := by
  rw [signal_wakes h]
  exact ⟨threadsWork_wakes _, List.length_mapIdx⟩

end

/-! ## The worker -/

/-- What others do to the engine hardly changes how far the worker is. -/
theorem worker_work_other {w : Worker} (hfree : ∀ written, w ≠ .batch written) (e e' : AsyncEngine) :
    w.work e' ≤ w.work e + 1 := by
  cases w with
  | batch written => exact absurd rfl (hfree written)
  | top =>
    simp only [Worker.work]
    split <;> split <;> decide
  | waiting =>
    simp only [Worker.work]
    split <;> split <;> decide
  | _ => exact Nat.le_succ _

theorem top_work (e : AsyncEngine) : Worker.work e .top ≤ 9 := by
  rw [Worker.work]
  split <;> decide

theorem lockFree_batch {s : State} (h : s.lockFree = true) (written : Nat) : s.worker ≠ .batch written := by
  intro hw
  rw [State.lockFree, hw] at h
  cases h

/-! ## Sections of a thread -/

section
variable {s s' : State} {i : Nat} {pc pc' : Pc}

/-- A thread goes on and nothing else changes that counts. -/
theorem work_goes (hi : s.threads[i]? = some pc) (hth : s'.threads = s.threads.set i pc') (he : s'.eng = s.eng)
    (hw : s'.worker = s.worker) : s'.work + pc.work s.threads.length = s.work + pc'.work s.threads.length := by
  have hset := threadsWork_set (n := s.threads.length) hi pc'
  unfold State.work workLeft
  rw [hth, he, hw, List.length_set]
  omega

/-- A section under the queue lock. -/
theorem work_section (s' : State) (hi : s.threads[i]? = some pc) (hth : s'.threads = s.threads.set i pc')
    (hfree : s.lockFree = true) (hw : s'.worker = s.worker) {k m : Nat} (hcount : s'.eng.count ≤ s.eng.count + k)
    (hrequest : requestWork s'.eng.flushRequest ≤ requestWork s.eng.flushRequest + m) :
    s'.work + pc.work s.threads.length ≤
      s.work + pc'.work s.threads.length + lineWork s.threads.length * k + m + 1 := by
  have hset := threadsWork_set (n := s.threads.length) hi pc'
  have hworker := worker_work_other (lockFree_batch hfree) s.eng s'.eng
  have hlines := Nat.mul_le_mul_left (lineWork s.threads.length) hcount
  rw [Nat.mul_add] at hlines
  unfold State.work workLeft
  rw [hth, hw, List.length_set]
  omega

theorem afterWrite_work (n mark : Nat) (l : Line) : (afterWrite mark l).work n ≤ 9 := by
  unfold afterWrite
  split
  · exact le_refl _
  · exact Nat.zero_le _

/-- A line is added at most, and the flag of a flush stays as it is. -/
theorem Enqueued.count {e : AsyncEngine} {l : Line} {alloc stored report : Bool} {e' : AsyncEngine} {old : Option Line}
    (hwf : e.running = true → e.WF) (h : Enqueued e l alloc (.settled e' old stored report)) :
    e'.count ≤ e.count + 1 ∧ e'.flushRequest = e.flushRequest := by
  obtain ⟨hwf', hsame, -⟩ := h.wf
  refine ⟨?_, hsame.flushRequest⟩
  cases h with
  | stored _ _ _ hr _ _ hst =>
    have hcount := queued_count (hwf hr) hst
    rw [hcount]
    split <;> omega
  | evicted mid _ old _ _ hr _ _ _ hq _ _ _ hst =>
    have hlen := congrArg List.length hq
    have hlen' := congrArg List.length hst.queued
    rw [AsyncEngine.queued_length (hwf hr), List.length_cons] at hlen
    rw [AsyncEngine.queued_length hwf', apply_ite List.length, List.length_append, List.length_singleton] at hlen'
    rw [hlen']
    split <;> omega

/-- However a section of `hx_async_enqueue` ends, it takes a step off the sum. -/
theorem work_settleEnqueue {l : Line} {c : Choice} {r : Enqueue} (hc : Control s) (hi : s.threads[i]? = some pc)
    (hfree : s.lockFree = true) (hq : Enqueued s.eng l c.alloc r) (hpc : pc.work s.threads.length = s.threads.length + 17) :
    (settleEnqueue s i l r).work + 1 ≤ s.work := by
  cases r with
  | unavailable =>
    have h : (s.goto i (.emit l)).work + _ = _ + (Pc.emit l).work _ := work_goes hi rfl rfl rfl
    rw [hpc] at h
    simp only [Pc.work] at h
    simp only [settleEnqueue]
    omega
  | wait =>
    have h : (s.goto i (.parked l)).work + _ = _ + (Pc.parked l).work _ := work_goes hi rfl rfl rfl
    rw [hpc] at h
    simp only [Pc.work] at h
    simp only [settleEnqueue]
    omega
  | refused e report =>
    have h := work_section (settleEnqueue s i l (.refused e report)) hi rfl hfree rfl (k := 0)
      (m := 0) (by cases hq; exact le_refl _) (by cases hq; exact le_refl _)
    have hafter := afterWrite_work s.threads.length ({ s with eng := e }.log (.refused i l :: dropEvents report)).trace.length l
    omega
  | settled e old stored report =>
    obtain ⟨hcount, hrequest⟩ := hq.count hc.wf
    have h := work_section (settleEnqueue s i l (.settled e old stored report)) hi rfl hfree rfl (m := 0) hcount
      (Nat.le_of_eq (congrArg requestWork hrequest))
    have hafter := afterWrite_work s.threads.length ({ s with eng := e }.log ((old.map Ev.evicted).toList ++
      (if stored then Ev.stored i l else Ev.lost i l) :: dropEvents report)).trace.length l
    unfold lineWork at h
    omega

theorem goes_descends (pc' : Pc) (hi : s.threads[i]? = some pc) (hth : s'.threads = s.threads.set i pc') (he : s'.eng = s.eng)
    (hw : s'.worker = s.worker) (hlt : pc'.work s.threads.length < pc.work s.threads.length) : s'.work + 1 ≤ s.work := by
  have h := work_goes hi hth he hw
  omega

theorem section_descends (pc' : Pc) (hi : s.threads[i]? = some pc) (hth : s'.threads = s.threads.set i pc')
    (hfree : s.lockFree = true) (hw : s'.worker = s.worker) (hcount : s'.eng.count ≤ s.eng.count)
    (hrequest : requestWork s'.eng.flushRequest ≤ requestWork s.eng.flushRequest)
    (hlt : pc'.work s.threads.length + 1 < pc.work s.threads.length) : s'.work + 1 ≤ s.work := by
  have h := work_section s' hi hth hfree hw (k := 0) (m := 0) hcount hrequest
  omega

/-- A wait ends for good or begins again; any other section takes a step off the sum. -/
theorem work_threadMove {c : Choice} (hc : Control s) (hi : s.threads[i]? = some pc) (hm : threadMove s i c pc = some s') :
    (∃ mark k, pc = .flushWait mark k ∧ s.eng.undrained = true ∧ s' = s) ∨ s'.work + 1 ≤ s.work := by
  cases pc with
  | idle => cases hm
  | parked l => cases hm
  | dispatch l =>
    cases hm
    right
    refine goes_descends _ hi rfl rfl rfl ?_
    cases s.mode with
    | sync => exact Nat.lt_of_lt_of_le (show 10 < 18 by decide) (Nat.le_add_left _ _)
    | async => exact Nat.lt_succ_self _
  | enqueue l =>
    right
    simp only [threadMove] at hm
    split at hm
    · cases hm
      exact goes_descends _ hi rfl rfl rfl (Nat.lt_of_lt_of_le (show 10 < 17 by decide) (Nat.le_add_left _ _))
    · split at hm
      · rename_i hfree
        obtain ⟨r, hres, rfl⟩ := Option.map_eq_some_iff.mp hm
        exact work_settleEnqueue hc hi hfree (hxAsyncEnqueue_spec hc.wf hres) rfl
      · cases hm
  | woken l =>
    right
    simp only [threadMove] at hm
    split at hm
    · rename_i hfree
      obtain ⟨r, hres, rfl⟩ := Option.map_eq_some_iff.mp hm
      exact work_settleEnqueue hc hi hfree (asyncEnqueueBlock_spec hc.wf hres) rfl
    · cases hm
  | emit l =>
    cases hm
    right
    exact goes_descends _ hi rfl rfl rfl (Nat.lt_succ_of_le (afterWrite_work _ _ l))
  | flush mark k =>
    cases hm
    right
    refine goes_descends _ hi rfl rfl rfl ?_
    cases s.mode <;> simp [Pc.work]
  | asyncFlush mark k =>
    right
    simp only [threadMove] at hm
    split at hm
    · cases hm
      exact goes_descends _ hi rfl rfl rfl (by simp [Pc.work])
    · split at hm
      · rename_i hfree
        cases hm
        unfold asyncFlushEnter
        split
        · exact goes_descends _ hi rfl rfl rfl (by simp [Pc.work])
        · -- the request is paid for
          have hnext : (if s.eng.stop then Pc.flushSinks mark k else .flushWait mark k).work s.threads.length ≤
              k.work s.threads.length + 2 := by
            split <;> simp [Pc.work]
          have h := work_section ({ s with eng := { s.eng with flushRequest := true } }.goto i
            (if s.eng.stop then .flushSinks mark k else .flushWait mark k)) hi rfl hfree rfl (k := 0) (m := 4) (le_refl _)
            (Nat.le_add_left _ _)
          rw [show (Pc.asyncFlush mark k).work s.threads.length = k.work s.threads.length + 8 from rfl] at h
          omega
      · cases hm
  | flushWait mark k =>
    simp only [threadMove] at hm
    split at hm
    · cases hm
      unfold asyncFlushWake
      split
      · right
        exact goes_descends _ hi rfl rfl rfl (by simp [Pc.work])
      · rename_i hcount
        split
        · rename_i hgo
          left
          refine ⟨mark, k, rfl, ?_, rfl⟩
          simp only [Bool.and_eq_true, Bool.not_eq_true'] at hgo
          simpa [AsyncEngine.undrained, hgo.1.1, hgo.1.2, hgo.2] using hcount
        · right
          exact goes_descends _ hi rfl rfl rfl (by simp [Pc.work])
    · cases hm
  | flushSinks mark k =>
    cases hm
    right
    refine goes_descends _ hi rfl rfl rfl ?_
    cases k <;> simp [Caller.after, Pc.work, Caller.work]
  | initLock cfg =>
    right
    simp only [threadMove] at hm
    split at hm
    · cases hm
    · split at hm
      · cases hm
        exact goes_descends _ hi rfl rfl rfl (by simp [Pc.work, Caller.work])
      · cases hm
        exact goes_descends _ hi rfl rfl rfl (by simp [Pc.work])
  | checkMode cfg =>
    cases hm
    right
    cases s.mode with
    | async => exact goes_descends (.stop cfg) hi rfl rfl rfl (by simp [Pc.work, reconfigureWork])
    | sync => exact goes_descends (.swap cfg) hi rfl rfl rfl (by simp [Pc.work, reconfigureWork])
  | stop cfg =>
    right
    simp only [threadMove] at hm
    split at hm
    · cases hm
      exact goes_descends _ hi rfl rfl rfl (by simp only [Pc.work]; omega)
    · split at hm
      · rename_i hfree
        cases hm
        unfold asyncStopEnter
        split
        · exact goes_descends _ hi rfl rfl rfl (by simp only [Pc.work]; omega)
        · -- everybody is woken
          have hstop : (wakeAll s.threads)[i]? = some (.stop cfg) := by
            rw [wakeAll, List.getElem?_map, hi]
            rfl
          have hset := threadsWork_set (n := s.threads.length) hstop (.join cfg)
          have hwake := threadsWork_wakeAll (n := s.threads.length) s.threads
          have hworker := worker_work_other (lockFree_batch hfree) s.eng (asyncStopRequest s.eng)
          have hlen : (wakeAll s.threads).length = s.threads.length := List.length_map ..
          show workLeft ((wakeAll s.threads).set i _) (asyncStopRequest s.eng) s.worker + 1 ≤
            workLeft s.threads s.eng s.worker
          have hcount : (asyncStopRequest s.eng).count = s.eng.count := rfl
          have hflag : (asyncStopRequest s.eng).flushRequest = s.eng.flushRequest := rfl
          simp only [workLeft, List.length_set, hlen, hcount, hflag]
          simp only [Pc.work] at hset
          omega
      · cases hm
  | join cfg =>
    right
    simp only [threadMove] at hm
    split at hm
    · rename_i hexited
      cases hm
      have hset := threadsWork_set (n := s.threads.length) hi (.detach cfg)
      show workLeft (s.threads.set i _) s.eng .none + 1 ≤ workLeft s.threads s.eng s.worker
      rw [hexited]
      simp only [workLeft, List.length_set, Worker.work]
      simp only [Pc.work] at hset
      omega
    · cases hm
  | detach cfg =>
    right
    simp only [threadMove] at hm
    split at hm
    · rename_i hfree
      cases hm
      exact section_descends (.swap cfg) hi rfl hfree rfl (Nat.zero_le _) (le_refl _) (by simp [Pc.work])
    · cases hm
  | swap cfg =>
    cases hm
    right
    refine goes_descends _ hi rfl rfl rfl ?_
    cases cfg.mode <;> simp [Pc.work]
  | start cfg =>
    right
    simp only [threadMove] at hm
    split at hm
    · cases hm
      exact goes_descends .unlock hi rfl rfl rfl (by simp [Pc.work])
    · split at hm
      · rename_i hfree
        cases hm
        exact section_descends .create hi rfl hfree rfl (Nat.zero_le _) (Nat.zero_le _) (by simp [Pc.work])
      · cases hm
  | create =>
    obtain ⟨-, ⟨-, -, -, hnone⟩, -⟩ := phase_of_thread hi hc rfl
    right
    simp only [threadMove] at hm
    split at hm
    · cases hm
      have hset := threadsWork_set (n := s.threads.length) hi .publish
      have htop := top_work s.eng
      show workLeft (s.threads.set i _) s.eng .top + 1 ≤ workLeft s.threads s.eng s.worker
      simp only [workLeft, List.length_set]
      simp only [Pc.work] at hset
      omega
    · cases hm
      exact goes_descends _ hi rfl rfl rfl (by simp [Pc.work])
  | abortStart => exact (phase_of_thread hi hc rfl).2.1.elim
  | publish =>
    cases hm
    right
    exact goes_descends .unlock hi rfl rfl rfl (by simp [Pc.work])
  | unlock =>
    cases hm
    right
    exact goes_descends .idle hi rfl rfl rfl (by simp [Pc.work])

end

/-! ## Turns of the worker -/

section
variable {s s' : State}

theorem calm_iff {e : AsyncEngine} : e.calm = true ↔ e.count = 0 ∧ e.stop = false ∧ e.flushRequest = false := by
  simp [AsyncEngine.calm, and_assoc]

/-- With nothing to do the worker flushes the sinks, and comes back to its wait. -/
theorem afterWait_calm (hcalm : s.eng.calm = true) : (workerAfterWait s).work = workLeft s.threads s.eng .top := by
  obtain ⟨hcount, hstop, hrequest⟩ := calm_iff.mp hcalm
  unfold workerAfterWait
  rw [if_pos hcount]
  unfold State.work workLeft
  simp [hcount, hstop, hrequest, Worker.work, hcalm]

theorem afterWait_busy (hcalm : s.eng.calm = false) (hbatch : 0 < s.eng.batchSize) :
    (workerAfterWait s).work + 1 ≤ workLeft s.threads s.eng .top := by
  unfold workerAfterWait
  split
  · rename_i hcount
    unfold State.work workLeft
    cases hstop : s.eng.stop <;> cases hrequest : s.eng.flushRequest <;>
      simp [hcount, Worker.work, hcalm, requestWork]
    -- somebody asked for something
    simp [AsyncEngine.calm, hcount, hstop, hrequest] at hcalm
  · rename_i hcount
    unfold State.work workLeft
    simp [Worker.work, hcalm, hbatch, Nat.pos_of_ne_zero hcount]

theorem workerTop_work (hbatch : 0 < s.eng.batchSize) :
    (workerTop s).work + (if s.eng.calm then 0 else 1) ≤ workLeft s.threads s.eng .top := by
  unfold workerTop
  split
  · rename_i h
    have hcalm : s.eng.calm = true := calm_iff.mpr h
    rw [if_pos hcalm]
    exact le_refl _
  · rename_i h
    have hcalm : s.eng.calm = false := by
      rw [← Bool.not_eq_true, calm_iff]
      exact h
    rw [hcalm]
    exact afterWait_busy hcalm hbatch

/-- A turn of the batch loop pays for whom it wakes with the line it takes. -/
theorem workerBatch_work {c : Choice} {written : Nat} (hwf : s.eng.WF) (hw : s.worker = .batch written)
    (hm : workerBatch s c written = some s') : s'.work + 1 ≤ s.work := by
  unfold workerBatch at hm
  split at hm
  · rename_i hmore
    obtain ⟨r, hpop, hm⟩ := Option.bind_eq_some_iff.mp hm
    obtain ⟨threads, hsig, rfl⟩ := Option.map_eq_some_iff.mp hm
    obtain ⟨hwake, hlen⟩ := threadsWork_signal (n := s.threads.length) hsig
    have hcount {e : AsyncEngine} {l : Line} (hwf' : e.WF) (hq : s.eng.queued = l :: e.queued) :
        s.eng.count = e.count + 1 := by
      have h := congrArg List.length hq
      rwa [List.length_cons, AsyncEngine.queued_length hwf', AsyncEngine.queued_length hwf] at h
    have hnow : s.work = threadsWork s.threads.length s.threads + lineWork s.threads.length * s.eng.count +
        requestWork s.eng.flushRequest + 7 := by
      unfold State.work workLeft
      rw [hw, Worker.work, if_pos ⟨hmore.2, hmore.1⟩]
    have hbatch (e : AsyncEngine) : Worker.work e (.batch (written + 1)) ≤ 10 := by
      rw [Worker.work]
      split <;> decide
    rcases workerPop_spec hwf hmore.1 hpop with ⟨e, l, rfl, -, hwf', hsame, hq, -⟩ | ⟨e, p, rfl, hwf', hsame, hq, -⟩
    · show workLeft threads e (.batch (written + 1)) + 1 ≤ s.work
      have hafter := hbatch e
      rw [hnow, hcount hwf' hq, Nat.mul_add, Nat.mul_one, workLeft, hlen, hsame.flushRequest]
      rw [show lineWork s.threads.length = s.threads.length + 6 from rfl]
      omega
    · show workLeft threads e (.emit written p) + 1 ≤ s.work
      rw [hnow, hcount hwf' hq, Nat.mul_add, Nat.mul_one, workLeft, hlen, hsame.flushRequest, Worker.work]
      rw [show lineWork s.threads.length = s.threads.length + 6 from rfl]
      omega
  · rename_i hend
    cases hm
    have hnow : Worker.work s.eng (.batch written) = 10 := by
      rw [Worker.work, if_neg fun h => hend ⟨h.2, h.1⟩]
    have hrequest : requestWork (s.eng.flushRequest && s.eng.count != 0) ≤ requestWork s.eng.flushRequest := by
      cases s.eng.flushRequest
      · exact le_refl _
      · cases s.eng.count != 0 <;> decide
    have hthen := Nat.add_le_add_left (top_work { s.eng with flushRequest := s.eng.flushRequest && s.eng.count != 0 })
      (threadsWork s.threads.length s.threads + lineWork s.threads.length * s.eng.count +
        requestWork (s.eng.flushRequest && s.eng.count != 0))
    refine Nat.le_trans (Nat.succ_le_succ hthen) ?_
    unfold State.work workLeft
    rw [hw, hnow]
    omega

/-- With nothing to do the worker goes round its loop; any other turn takes a step off the sum. -/
theorem work_workerMove {c : Choice} (hc : Control s) (hm : workerMove s c s.worker = some s') :
    s'.work + (if s.worker.rests s.eng then 0 else 1) ≤ s.work := by
  have hbatch (hw : s.worker ≠ .none) : 0 < s.eng.batchSize := (hc.wf (running_of_worker hc hw)).batch
  have hnow {w : Worker} (hw : s.worker = w) : s.work = workLeft s.threads s.eng w := by
    rw [← hw]
    rfl
  cases hw : s.worker with
  | none =>
    rw [hw] at hm
    cases hm
  | exited =>
    rw [hw] at hm
    cases hm
  | top =>
    rw [hw] at hm
    cases hm
    rw [hnow hw]
    exact workerTop_work (hbatch (by rw [hw]; nofun))
  | waiting =>
    rw [hw] at hm
    cases hm
    rw [hnow hw]
    have hpos := hbatch (by rw [hw]; nofun)
    split
    · cases hcalm : s.eng.calm with
      | true =>
        simp only [Worker.rests, hcalm, if_true]
        exact Nat.le_of_eq (afterWait_calm hcalm)
      | false =>
        simp only [Worker.rests, hcalm]
        exact afterWait_busy hcalm hpos
    · exact workerTop_work hpos
  | batch written =>
    rw [hw] at hm
    exact workerBatch_work (hc.wf (running_of_worker hc (by rw [hw]; nofun))) hw hm
  | flushSinks doFlush exit =>
    rw [hw] at hm
    cases hm
    rw [hnow hw]
    cases doFlush <;> cases exit <;> simp [State.work, State.log, workLeft, Worker.work, Worker.rests]
    by_cases hcalm : s.eng.calm = true <;> simp [hcalm]
  | notify exit =>
    rw [hw] at hm
    cases hm
    rw [hnow hw]
    cases exit <;> simp [State.work, workLeft, Worker.work, Worker.rests]
    split <;> omega
  | emit written p =>
    rw [hw] at hm
    cases hm
    rw [hnow hw]
    simp [State.work, State.log, workLeft, Worker.work, Worker.rests]
  | relock written =>
    rw [hw] at hm
    cases hm
    rw [hnow hw]
    simp only [State.work, workLeft, Worker.work, Worker.rests]
    split <;> simp

end

end HxClog
