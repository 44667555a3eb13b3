import HxClog.Progress

/-!
# Every call returns

Once no further call is made, the work that is left bounds the number of steps that are
not waits beginning again, and as long as some call is under way one of them can be taken.
So every write, flush and reconfiguration comes to its end, in whatever order the threads
and the worker take their turns.
-/

namespace HxClog

/-! ## Steps -/

def State.cost (s : State) (a : Act) : Nat := if s.rests a then 0 else 1

/-- A spurious wakeup sends its thread back to the queue. -/
def Act.extra (a : Act) : Nat := if a.isSpurious then 1 else 0

/-- The lines of calls can be queued. -/
def Act.fits : Act → Bool
  | .call _ l => decide (l.size < 2 ^ 31 - 1)
  | _ => true

def returnOk (s : State) (a : Act) : Bool := wakeOk s a && a.fits

section
variable {a : Act} {s s' : State}

theorem cost_le_one (s : State) (a : Act) : s.cost a ≤ 1 := by
  unfold State.cost
  split <;> decide

/-- What a step costs is taken off the work that is left. -/
theorem work_step (hc : Control s) (ha : a.continues = true) (h : step s a = some s') :
    s'.work + s.cost a ≤ s.work + a.extra := by
  have hone := cost_le_one s a
  cases a with
  | call i l => cases ha
  | callFlush i => cases ha
  | callReconfigure i cfg => cases ha
  | thread i c =>
    obtain ⟨pc, hi, hm⟩ := Option.bind_eq_some_iff.mp h
    rcases work_threadMove hc hi hm with ⟨mark, k, rfl, hund, rfl⟩ | hless
    · have hrests : s'.rests (.thread i c) = true := by
        simp only [State.rests, hi]
        exact hund
      rw [State.cost, if_pos hrests]
      exact Nat.le_add_right _ _
    · omega
  | spurious i =>
    obtain ⟨pc, hi, hm⟩ := Option.bind_eq_some_iff.mp h
    split at hm
    · cases hm
      have hgoes : (s.goto i pc.wake).work + _ = _ + pc.wake.work _ := work_goes hi rfl rfl rfl
      have hwake := wake_work (n := s.threads.length) pc
      have hcost : s.cost (.spurious i) = 0 := rfl
      have hextra : (Act.spurious i).extra = 1 := rfl
      omega
    · cases hm
  | worker c => exact work_workerMove hc h

end

/-! ## Held lines -/

def Pc.Fits (pc : Pc) : Prop := ∀ l, pc.held = some l → l.size < 2 ^ 31 - 1

theorem fits_none {pc : Pc} (h : pc.held = none) : pc.Fits := by
  intro l hl
  rw [h] at hl
  cases hl

theorem PcStep.fits {a : Act} {s s' : State} {i : Nat} {pc pc' : Pc} (h : PcStep a s s' i pc pc') (hp : pc.Fits)
    (hidle : pc ≠ .idle) : pc'.Fits := by
  cases h with
  | call l => exact absurd rfl hidle
  | callFlush => exact absurd rfl hidle
  | callReconfigure => exact absurd rfl hidle
  | carry l _ _ hl hl' =>
    intro l' h'
    rw [hl'] at h'
    cases h'
    exact hp l hl
  | settle l => exact fits_none (afterWrite_held _ l)
  | flushed mark k =>
    refine fits_none ?_
    cases k <;> rfl
  | reconfigure _ _ _ hrec =>
    refine fits_none ?_
    cases pc' <;> first | rfl | cases hrec
  | _ => exact fits_none rfl

theorem fits_step {s s' : State} {a : Act} (hall : ∀ pc ∈ s.threads, pc.Fits) (ha : a.fits = true)
    (h : step s a = some s') : ∀ pc ∈ s'.threads, pc.Fits := by
  have hwake (pc : Pc) : pc.wake.Fits ↔ pc.Fits := by
    unfold Pc.Fits
    rw [wake_held]
  cases a with
  | call i l =>
    simp only [step] at h
    split at h
    · cases h
      refine Pool.forall_set hall fun l' hl' => ?_
      cases hl'
      exact of_decide_eq_true ha
    · cases h
  | callFlush i =>
    simp only [step] at h
    split at h
    · cases h
      exact Pool.forall_set hall (fits_none rfl)
    · cases h
  | callReconfigure i cfg =>
    simp only [step] at h
    split at h
    · cases h
      exact Pool.forall_set hall (fits_none rfl)
    · cases h
  | thread i c =>
    obtain ⟨pc, hi, hm⟩ := Option.bind_eq_some_iff.mp h
    obtain ⟨pc', hstep⟩ := threadMove_step (a := .thread i c) hi hm
    refine hstep.threads.forall hwake (Pool.forall_set hall (hstep.step.fits (hall pc (List.mem_of_getElem? hi)) ?_))
    rintro rfl
    cases hm
  | spurious i =>
    obtain ⟨pc, hi, hm⟩ := Option.bind_eq_some_iff.mp h
    split at hm
    · cases hm
      exact Pool.forall_set hall ((hwake pc).mpr (hall pc (List.mem_of_getElem? hi)))
    · cases hm
  | worker c => exact (workerMove_threads h).1.forall hwake hall

/-! ## The invariant -/

structure Going (s : State) : Prop where
  control : Control s
  blockOnly : BlockOnly s
  awake : Awake s.eng s.threads
  fits : ∀ pc ∈ s.threads, pc.Fits

theorem going_step {s s' : State} {a : Act} (h : Going s) (ha : returnOk s a = true) (hst : step s a = some s') :
    Going s' := by
  simp only [returnOk, wakeOk, Bool.and_eq_true] at ha
  obtain ⟨⟨⟨hstarts, hblock⟩, hwake⟩, hfits⟩ := ha
  exact ⟨control_step h.control hstarts hst, blockOnly_step h.control h.blockOnly hstarts hblock hst,
    awake_turn h.awake h.blockOnly.1 hwake (step_turn h.control hst), fits_step h.fits hfits hst⟩

theorem going_init (n : Nat) {cfg : AsyncConfig} (hcfg : cfg.overflowPolicy = .block) : Going (initState n cfg) := by
  refine ⟨control_init n cfg, blockOnly_init n hcfg, awake_init n cfg, fun pc hm => ?_⟩
  rw [List.eq_of_mem_replicate hm]
  exact fits_none rfl

/-! ## Somebody can go on -/

/-- A step can be taken that is neither a new call nor a wait that begins again. -/
def CanGo (s : State) : Prop :=
  ∃ a, a.continues = true ∧ s.rests a = false ∧ returnOk s a = true ∧ (step s a).isSome = true

theorem calm_of_rests {w : Worker} {e : AsyncEngine} (h : w.rests e = true) : e.calm = true := by
  cases w with
  | top => exact h
  | waiting => exact h
  | flushSinks doFlush exit => cases doFlush <;> cases exit <;> first | exact h | cases h
  | _ => cases h

section
variable {s : State} {i : Nat} {pc : Pc}

theorem thread_canGo (hi : s.threads[i]? = some pc) (hm : (threadMove s i {} pc).isSome = true)
    (hrests : s.rests (.thread i {}) = false) : CanGo s := by
  refine ⟨.thread i {}, rfl, hrests, ?_, ?_⟩
  · simp only [returnOk, wakeOk, wakePassedOn, hi, Act.startsOk, Act.blocking, Act.fits, Bool.and_true, Bool.true_and]
    split <;> rfl
  · simpa [step, hi] using hm

/-- Some producer is woken if any is parked. -/
theorem signal_exists (threads : List Pc) : ∃ wake, (signalNotFull threads wake).isSome = true := by
  by_cases hany : threads.any Pc.isParked = true
  · obtain ⟨pc, hm, hp⟩ := List.any_eq_true.mp hany
    obtain ⟨i, hi⟩ := List.mem_iff_getElem?.mp hm
    exact ⟨[i], by simp [signalNotFull, hi, hp]⟩
  · exact ⟨[], by simp [signalNotFull, hany]⟩

/-- The worker is never held up. -/
theorem worker_canGo (hc : Control s) (halive : s.worker.alive = true) (hrests : s.worker.rests s.eng = false) : CanGo s := by
  obtain ⟨c, hc'⟩ : ∃ c, (workerMove s c s.worker).isSome = true := by
    cases hw : s.worker with
    | none =>
      rw [hw] at halive
      cases halive
    | exited =>
      rw [hw] at halive
      cases halive
    | batch written =>
      by_cases hmore : 0 < s.eng.count ∧ written < s.eng.batchSize
      · have hwf := hc.wf (running_of_worker hc (by rw [hw]; nofun))
        obtain ⟨wake, hwake⟩ := signal_exists s.threads
        obtain ⟨r, hr⟩ := Option.isSome_iff_exists.mp (workerPop_isSome hwf hmore.1 true)
        obtain ⟨threads, hth⟩ := Option.isSome_iff_exists.mp hwake
        exact ⟨{ wake := wake }, by simp [workerMove, workerBatch, hmore, hr, hth]⟩
      · exact ⟨{}, by simp [workerMove, workerBatch, hmore]⟩
    | _ => exact ⟨{}, rfl⟩
  exact ⟨.worker c, rfl, hrests, rfl, hc'⟩

/-- An engine that is on has a worker, or a thread is about to start one. -/
theorem engine_served (hc : Control s) (hr : s.eng.running = true) (hs : s.eng.stop = false) :
    s.worker.alive = true ∨ ∃ i : Nat, s.threads[i]? = some .create := by
  have hdown (hd : Down s) : False := by
    have := hd.running
    rw [hr] at this
    cases this
  have hstop (h : s.eng.stop = true) : False := by
    rw [hs] at h
    cases h
  rcases hc.phase with ⟨-, -, ⟨-, hu⟩ | ⟨-, hd⟩⟩ | ⟨ph, hph, -, ho⟩
  · exact .inl hu.worker
  · exact (hdown hd).elim
  · cases ph with
    | settled =>
      obtain ⟨-, hu⟩ | ⟨-, hd⟩ := ho
      · exact .inl hu.worker
      · exact (hdown hd).elim
    | modeCleared => exact .inl ho.2.worker
    | joining => exact (hstop ho.2.2.1).elim
    | detaching => exact (hstop ho.2.2.1).elim
    | down => exact (hdown ho.2).elim
    | failed => exact ho.elim
    | created =>
      right
      have hmem : Phase.created ∈ phases s.threads := by
        rw [hph]
        exact List.mem_singleton_self _
      obtain ⟨pc, hm, hpc⟩ := List.mem_filterMap.mp hmem
      obtain ⟨i, hi⟩ := List.mem_iff_getElem?.mp hm
      refine ⟨i, ?_⟩
      rw [hi]
      cases pc with
      | create => rfl
      | flush mark k => cases k <;> cases hpc
      | asyncFlush mark k => cases k <;> cases hpc
      | flushWait mark k => cases k <;> cases hpc
      | flushSinks mark k => cases k <;> cases hpc
      | _ => cases hpc
    | publishing => exact .inl ho.2.worker

end

/-! ## Nobody waits for ever -/

/-- The worker has nothing to do, or there is none. -/
def WorkerRests (s : State) : Prop := s.worker.alive = true → s.worker.rests s.eng = true

section
variable {s : State} {i : Nat} {pc : Pc}

theorem resting_lockFree (hrests : WorkerRests s) : s.lockFree = true := by
  unfold State.lockFree
  split
  · rename_i written hw
    have h := hrests (by rw [hw]; rfl)
    rw [hw] at h
    cases h
  · rfl

theorem create_canGo (hi : s.threads[i]? = some .create) : CanGo s :=
  thread_canGo hi rfl (by simp [State.rests, hi])

/-- Lines are queued in an engine that is on. -/
theorem queued_canGo (hc : Control s) (hrests : WorkerRests s) (hcount : s.eng.count ≠ 0) (hr : s.eng.running = true)
    (hs : s.eng.stop = false) : CanGo s := by
  obtain halive | ⟨j, hj⟩ := engine_served hc hr hs
  · exact absurd (calm_iff.mp (calm_of_rests (hrests halive))).1 hcount
  · exact create_canGo hj

/-- The sections of `hx_async_enqueue` come to an end. -/
theorem enqueue_isSome (hc : Control s) {l : Line} (hl : l.size < 2 ^ 31 - 1) :
    (hxAsyncEnqueue s.eng l true).isSome = true ∧ (asyncEnqueueBlock s.eng l true).isSome = true := by
  cases hr : s.eng.running with
  | true => exact hxAsyncEnqueue_isSome (hc.wf hr) hl true
  | false =>
    refine ⟨by simp [hxAsyncEnqueue, hr], ?_⟩
    unfold asyncEnqueueBlock
    split
    · rfl
    · simp [hr]

/-- A thread that waits in a flush goes on when the queue is drained, and else there is something for the worker. -/
theorem flushWait_canGo (hc : Control s) (hrests : WorkerRests s) {mark : Nat} {k : Caller}
    (hi : s.threads[i]? = some (.flushWait mark k)) : CanGo s := by
  have hfree := resting_lockFree hrests
  cases hund : s.eng.undrained with
  | false =>
    refine thread_canGo hi ?_ ?_
    · simp [threadMove, hfree]
    · simp only [State.rests, hi]
      exact hund
  | true =>
    simp only [AsyncEngine.undrained, Bool.and_eq_true, Bool.not_eq_true', bne_iff_ne] at hund
    exact queued_canGo hc hrests hund.1.1.1 hund.1.2 hund.2

/-- A thread that waits neither for room nor for the init lock. -/
theorem free_canGo (hc : Control s) (hrests : WorkerRests s) (hi : s.threads[i]? = some pc) (hfits : pc.Fits)
    (hidle : pc ≠ .idle) (hparked : pc.isParked = false) (hlock : ∀ cfg, pc ≠ .initLock cfg) : CanGo s := by
  have hfree := resting_lockFree hrests
  by_cases hflush : ∃ mark k, pc = .flushWait mark k
  · obtain ⟨mark, k, rfl⟩ := hflush
    exact flushWait_canGo hc hrests hi
  have hgo (hm : (threadMove s i {} pc).isSome = true) : CanGo s := by
    refine thread_canGo hi hm ?_
    simp only [State.rests, hi]
    split
    · exact absurd ⟨_, _, Option.some.inj ‹_›⟩ hflush
    · rfl
  cases pc with
  | idle => exact absurd rfl hidle
  | parked l => cases hparked
  | initLock cfg => exact absurd rfl (hlock cfg)
  | enqueue l =>
    refine hgo ?_
    simp only [threadMove, hfree, if_true]
    split
    · rfl
    · rw [Option.isSome_map]
      exact (enqueue_isSome hc (hfits l rfl)).1
  | woken l =>
    refine hgo ?_
    simp only [threadMove, hfree, if_true, Option.isSome_map]
    exact (enqueue_isSome hc (hfits l rfl)).2
  | asyncFlush mark k =>
    refine hgo ?_
    simp only [threadMove, hfree, if_true]
    split <;> rfl
  | flushWait mark k => exact absurd ⟨mark, k, rfl⟩ hflush
  | stop cfg =>
    refine hgo ?_
    simp only [threadMove, hfree, if_true]
    split <;> rfl
  | join cfg =>
    refine hgo ?_
    obtain ⟨-, ⟨-, hr, hs, hw⟩, -⟩ := phase_of_thread hi hc rfl
    -- a worker that is asked to stop has something to do
    have hexited : s.worker = .exited := by
      by_contra hne
      have halive : s.worker.alive = true := by
        cases hworker : s.worker with
        | none => exact absurd hworker hw
        | exited => exact absurd hworker hne
        | _ => rfl
      have hstop := (calm_iff.mp (calm_of_rests (hrests halive))).2.1
      rw [hs] at hstop
      cases hstop
    simp [threadMove, hexited]
  | detach cfg => exact hgo (by simp [threadMove, hfree])
  | start cfg => exact hgo (by simp [threadMove, hfree])
  | abortStart => exact hgo (by simp [threadMove, hfree])
  | _ => exact hgo rfl

/-- The thread past the init lock. -/
theorem holder_canGo (hc : Control s) (hrests : WorkerRests s) (hfits : ∀ pc ∈ s.threads, pc.Fits)
    (hlock : s.initLock = true) : CanGo s := by
  rcases hc.phase with ⟨-, hl, -⟩ | ⟨ph, hph, -, -⟩
  · rw [hlock] at hl
    cases hl
  · have hmem : ph ∈ phases s.threads := by
      rw [hph]
      exact List.mem_singleton_self _
    obtain ⟨pc, hm, hpc⟩ := List.mem_filterMap.mp hmem
    obtain ⟨j, hj⟩ := List.mem_iff_getElem?.mp hm
    refine free_canGo hc hrests hj (hfits pc hm) ?_ ?_ ?_
    · rintro rfl
      cases hpc
    · cases pc <;> first | rfl | cases hpc
    · rintro cfg rfl
      cases hpc

/-- A producer that waits for room. -/
theorem parked_canGo (hg : Going s) (hrests : WorkerRests s) (hi : s.threads[i]? = some pc) (hpc : pc.isParked = true) :
    CanGo s := by
  have hparked : Parked s.threads := ⟨pc, List.mem_of_getElem? hi, hpc⟩
  have hr : s.eng.running = true := by
    by_contra h
    exact hg.awake.quiet (.inl (by simpa using h)) hparked
  have hs : s.eng.stop = false := by
    by_contra h
    exact hg.awake.quiet (.inr (by simpa using h)) hparked
  by_cases hcount : s.eng.count = 0
  · -- the queue is empty, so somebody is on the way back
    have hpos := (hg.control.wf hr).pos
    have henough := hg.awake.enough hr hs hparked
    have hwoken : 0 < wokenCount s.threads := by
      unfold AsyncEngine.free at henough
      omega
    obtain ⟨pc', hm, hpc'⟩ := List.countP_pos_iff.mp hwoken
    obtain ⟨j, hj⟩ := List.mem_iff_getElem?.mp hm
    refine free_canGo hg.control hrests hj (hg.fits pc' hm) ?_ ?_ ?_
    · rintro rfl
      cases hpc'
    · cases pc' <;> first | rfl | cases hpc'
    · rintro cfg rfl
      cases hpc'
  · exact queued_canGo hg.control hrests hcount hr hs

/-- As long as a call is under way, somebody can go on. -/
theorem going_canGo (hg : Going s) (hi : s.threads[i]? = some pc) (hidle : pc ≠ .idle) : CanGo s := by
  by_cases hrests : WorkerRests s
  · cases hparked : pc.isParked with
    | true => exact parked_canGo hg hrests hi hparked
    | false =>
      by_cases hlock : ∃ cfg, pc = .initLock cfg
      · obtain ⟨cfg, rfl⟩ := hlock
        cases hheld : s.initLock with
        | true => exact holder_canGo hg.control hrests hg.fits hheld
        | false =>
          refine thread_canGo hi ?_ ?_
          · simp [threadMove, hheld]
          · simp [State.rests, hi]
      · exact free_canGo hg.control hrests hi (hg.fits pc (List.mem_of_getElem? hi)) hidle hparked
          fun cfg h => hlock ⟨cfg, h⟩
  · unfold WorkerRests at hrests
    push Not at hrests
    exact worker_canGo hg.control hrests.1 (by simpa using hrests.2)

end

theorem extra_sum (as : List Act) : (as.map Act.extra).sum = as.countP Act.isSpurious := by
  induction as with
  | nil => rfl
  | cons a as ih =>
    rw [List.map_cons, List.sum_cons, List.countP_cons, ih, Act.extra]
    omega

theorem going_run {s t : State} {as : List Act} (hs : Going s)
    (h : Transition.run (Transition.restrict returnOk step) s as = some t) : Going t := by
  refine Transition.run_invariant (fun s a t hs hst => ?_) as s t hs h
  obtain ⟨hok, hstep⟩ := Transition.restrict_some hst
  exact going_step hs hok hstep

/-- What a run without further calls takes off the work that is left. -/
theorem work_run {s t : State} {bs : List Act} (hs : Going s)
    (h : Transition.run (Transition.restrict (fun s b => returnOk s b && b.continues) step) s bs = some t) :
    t.work + Transition.total State.cost step s bs ≤ s.work + bs.countP Act.isSpurious := by
  have hpays := Transition.total_le (I := Going) State.cost (fun _ b => b.extra) (fun s b t hs hst => by
    obtain ⟨hok, hstep⟩ := Transition.restrict_some hst
    rw [Bool.and_eq_true] at hok
    exact ⟨going_step hs hok.1 hstep, work_step hs.control hok.2 hstep⟩) bs s t hs h
  rwa [Transition.total_restrict h, Transition.total_label h, extra_sum] at hpays

/-- The calls under way can be brought to their end. -/
theorem going_ends : ∀ (w : Nat) {s : State}, Going s → s.work = w → ∃ bs t,
    Transition.run (Transition.restrict (fun s b => returnOk s b && b.continues) step) s bs = some t ∧
      ∀ pc ∈ t.threads, pc = .idle := by
  intro w
  induction w using Nat.strongRecOn with
  | ind w ih =>
    intro s hs hw
    by_cases hidle : ∀ pc ∈ s.threads, pc = .idle
    · exact ⟨[], s, rfl, hidle⟩
    · push Not at hidle
      obtain ⟨pc, hm, hpc⟩ := hidle
      obtain ⟨i, hi⟩ := List.mem_iff_getElem?.mp hm
      obtain ⟨b, hgo, hrests, hok, hstep⟩ := going_canGo hs hi hpc
      obtain ⟨s', hstep⟩ := Option.isSome_iff_exists.mp hstep
      have hless := work_step hs.control hgo hstep
      have hcost : s.cost b = 1 := by simp [State.cost, hrests]
      have hextra : b.extra = 0 := by cases b <;> first | rfl | cases hrests
      obtain ⟨bs, t, hrun, hall⟩ := ih s'.work (by omega) (going_step hs hok hstep) rfl
      refine ⟨b :: bs, t, ?_, hall⟩
      rw [Transition.run_cons, Transition.restrict, hok, hgo]
      simpa [hstep] using hrun

/-- With BLOCK overflow, once no further call is made the work that is left bounds the steps
that are not waits beginning again; as long as a call is under way one can be taken, and so
all calls can be brought to their end. -/
theorem calls_return {n : Nat} {cfg : AsyncConfig} {as : List Act} {s : State} (hcfg : cfg.overflowPolicy = .block)
    (h : Transition.run (Transition.restrict returnOk step) (initState n cfg) as = some s) :
    (∀ (bs : List Act) (t : State),
      Transition.run (Transition.restrict (fun s b => returnOk s b && b.continues) step) s bs = some t →
      t.work + Transition.total State.cost step s bs ≤ s.work + bs.countP Act.isSpurious) ∧
    ((∃ (i : Nat) (pc : Pc), s.threads[i]? = some pc ∧ pc ≠ .idle) → CanGo s) ∧
    ∃ bs t, Transition.run (Transition.restrict (fun s b => returnOk s b && b.continues) step) s bs = some t ∧
      ∀ pc ∈ t.threads, pc = .idle := by
  have hgoing := going_run (going_init n hcfg) h
  refine ⟨fun bs t => work_run hgoing, ?_, going_ends _ hgoing rfl⟩
  rintro ⟨i, pc, hi, hidle⟩
  exact going_canGo hgoing hi hidle

/-- A producer is parked behind a full queue of one slot while another thread reconfigures. -/
theorem calls_return_parked : ∃ s,
    Transition.run (Transition.restrict returnOk step) (initState 3 ⟨.async, 1, 1, 0, .block⟩)
      [.call 0 shortLine, .thread 0 {}, .thread 0 {}, .call 1 shortLine, .thread 1 {}, .thread 1 {},
        .callReconfigure 2 ⟨.async, 1, 1, 0, .block⟩, .thread 2 {}] = some s ∧ s.threads[1]? = some (.parked shortLine) ∧
    ∃ bs t, Transition.run (Transition.restrict (fun s b => returnOk s b && b.continues) step) s bs = some t ∧
      ∀ pc ∈ t.threads, pc = .idle :=
  ⟨_, rfl, rfl, (@calls_return 3 ⟨.async, 1, 1, 0, .block⟩ [.call 0 shortLine, .thread 0 {}, .thread 0 {},
    .call 1 shortLine, .thread 1 {}, .thread 1 {}, .callReconfigure 2 ⟨.async, 1, 1, 0, .block⟩, .thread 2 {}] _ rfl
    rfl).2.2⟩

end HxClog
