import HxClog.FlushSound
import HxClog.WakeupSound

/-!
# A start that fails

`hx_async_start` publishes the engine before it creates the worker, and takes it back
when there is none. Until then every state is one that a start which succeeds goes
through too: seen from there, the reconfiguring thread is still about to create the
worker.
-/

namespace HxClog

/-! ## What a failed start may strand -/

/-- The thread is about to take back a start that failed. -/
def State.undoes (s : State) : Act → Bool
  | .thread i _ => s.threads[i]? = some .abortStart
  | _ => false

/-- Every stored line is emitted, counted as dropped, in the worker's hand or in the queue,
and while the engine is off nobody sleeps and whoever comes for the queue goes to the sinks. -/
structure NothingStranded (s : State) : Prop where
  stored : StoredStays s
  taken : TakenStays s
  dropped : s.eng.dropped = (sinceStart s.trace).countP Ev.isDrop
  awake : s.eng.running = false → ¬Parked s.threads
  falls : s.eng.running = false → ∀ (i : Nat) (l : Line) (c : Choice) (s' : State),
    s.threads[i]? = some (.enqueue l) ∨ s.threads[i]? = some (.woken l) → step s (.thread i c) = some s' →
      s' = s.goto i (.emit l)

/-- In this run every start that fails is taken back before anybody stored a line or fell asleep. -/
def FailsUnnoticed (s : State) (as : List Act) : Prop :=
  ∀ pre a post t, as = pre ++ a :: post → Transition.run step s pre = some t → t.undoes a = true →
    t.eng.count = 0 ∧ ¬Parked t.threads

/-! ## Before the failure is known -/

def Pc.untried : Pc → Pc
  | .abortStart => .create
  | pc => pc

def State.untried (s : State) : State := { s with threads := s.threads.map Pc.untried }

def Act.created : Act → Act
  | .thread i c => .thread i { c with created := true }
  | a => a

/-- The thread finds that the worker cannot be created. -/
def State.fails (s : State) : Act → Bool
  | .thread i c => s.threads[i]? = some .create && !c.created
  | _ => false

section
variable {s s' : State} {i : Nat} {c : Choice}

@[simp] theorem created_startsOk (a : Act) : a.created.startsOk = true := by
  cases a <;> rfl

theorem untried_self {pc : Pc} (h : pc ≠ .abortStart) : pc.untried = pc := by
  cases pc <;> first | rfl | exact absurd rfl h

@[simp] theorem untried_wake (pc : Pc) : pc.wake.untried = pc.untried.wake := by cases pc <;> rfl

@[simp] theorem untried_parked (pc : Pc) : pc.untried.isParked = pc.isParked := by cases pc <;> rfl

@[simp] theorem afterWrite_untried (mark : Nat) (l : Line) : (afterWrite mark l).untried = afterWrite mark l := by
  unfold afterWrite
  split <;> rfl

@[simp] theorem after_untried (k : Caller) : k.after.untried = k.after := by cases k <;> rfl

theorem untried_goto (s : State) (i : Nat) (pc : Pc) (h : pc.untried = pc) :
    s.untried.goto i pc = (s.goto i pc).untried := by
  unfold State.untried State.goto
  simp only [List.map_set, h]

theorem wakeAll_untried (threads : List Pc) : wakeAll (threads.map Pc.untried) = (wakeAll threads).map Pc.untried := by
  unfold wakeAll
  simp

theorem signal_untried {threads threads' : List Pc} {wake : List Nat} (h : signalNotFull threads wake = some threads') :
    signalNotFull (threads.map Pc.untried) wake = some (threads'.map Pc.untried) := by
  have hany : (threads.map Pc.untried).any Pc.isParked = threads.any Pc.isParked := by
    rw [List.any_map]
    congr 1
    funext pc
    exact untried_parked pc
  have hget : ∀ i : Nat, ((threads.map Pc.untried)[i]?.map Pc.isParked) = threads[i]?.map Pc.isParked := by
    intro i
    rw [List.getElem?_map, Option.map_map]
    congr 1
    funext pc
    exact untried_parked pc
  unfold signalNotFull at h ⊢
  simp only [hany, hget]
  split at h
  · cases h
  · rename_i hwake
    rw [if_neg hwake]
    split at h
    · rename_i hall
      cases h
      rw [if_pos hall]
      refine congrArg some (List.ext_getElem? fun i => ?_)
      simp only [List.getElem?_mapIdx, List.getElem?_map, Option.map_map]
      congr 1
      funext pc
      simp only [Function.comp]
      split
      · exact (untried_wake pc).symm
      · rfl
    · cases h

theorem untried_mode (s : State) : s.untried.mode = s.mode := rfl

theorem settleEnqueue_untried (s : State) (i : Nat) (l : Line) (r : Enqueue) :
    settleEnqueue s.untried i l r = (settleEnqueue s i l r).untried := by
  cases r with
  | unavailable => exact untried_goto s i (.emit l) rfl
  | wait => exact untried_goto s i (.parked l) rfl
  | refused e report =>
    exact untried_goto ({ s with eng := e }.log (.refused i l :: dropEvents report)) i _ (afterWrite_untried _ l)
  | settled e evicted stored report =>
    exact untried_goto ({ s with eng := e }.log ((evicted.map Ev.evicted).toList ++
      (if stored then Ev.stored i l else Ev.lost i l) :: dropEvents report)) i _ (afterWrite_untried _ l)

theorem asyncFlushEnter_untried (s : State) (i mark : Nat) (k : Caller) :
    asyncFlushEnter s.untried i mark k = (asyncFlushEnter s i mark k).untried := by
  unfold asyncFlushEnter
  by_cases h : (!s.eng.running || s.eng.count == 0) = true
  · rw [if_pos h]
    exact (if_pos h).trans (untried_goto s i (.flushSinks mark k) rfl)
  · rw [if_neg h]
    refine (if_neg h).trans (untried_goto { s with eng := { s.eng with flushRequest := true } } i _ ?_)
    split <;> rfl

theorem asyncFlushWake_untried (s : State) (i mark : Nat) (k : Caller) :
    asyncFlushWake s.untried i mark k = (asyncFlushWake s i mark k).untried := by
  unfold asyncFlushWake
  by_cases h : (s.eng.count == 0) = true
  · rw [if_pos h]
    exact (if_pos h).trans (untried_goto s i (.flushSinks mark k) rfl)
  · rw [if_neg h]
    refine (if_neg h).trans ?_
    by_cases hw : (s.eng.flushRequest && s.eng.running && !s.eng.stop) = true
    · rw [if_pos hw]
      exact if_pos hw
    · rw [if_neg hw]
      exact (if_neg hw).trans (untried_goto s i (.flushSinks mark k) rfl)

theorem asyncStop_untried (s : State) (i : Nat) (cfg : AsyncConfig) :
    asyncStopEnter s.untried i cfg = (asyncStopEnter s i cfg).untried := by
  unfold asyncStopEnter
  by_cases h : (!s.eng.running) = true
  · rw [if_pos h]
    exact (if_pos h).trans (untried_goto s i (.swap cfg) rfl)
  · rw [if_neg h, ← untried_goto _ i (.join cfg) rfl]
    refine (if_neg h).trans ?_
    unfold State.untried State.goto
    simp only [wakeAll_untried]

/-- What a thread does does not depend on whether the start will fail. -/
theorem threadMove_untried {pc : Pc} (hpc : pc ≠ .abortStart) (hok : pc = .create → c.created = true)
    (hm : threadMove s i c pc = some s') : threadMove s.untried i { c with created := true } pc = some s'.untried := by
  cases pc with
  | idle => cases hm
  | parked l => cases hm
  | dispatch l =>
    cases hm
    refine congrArg some (untried_goto s i _ ?_)
    rw [untried_mode]
    cases s.mode <;> rfl
  | enqueue l =>
    simp only [threadMove] at hm
    split at hm
    · rename_i hp
      cases hm
      exact (if_pos hp).trans (congrArg some (untried_goto s i (.emit l) rfl))
    · rename_i hp
      split at hm
      · rename_i hf
        obtain ⟨r, hr, rfl⟩ := Option.map_eq_some_iff.mp hm
        refine (if_neg hp).trans ((if_pos hf).trans ?_)
        exact Option.map_eq_some_iff.mpr ⟨r, hr, settleEnqueue_untried s i l r⟩
      · cases hm
  | woken l =>
    simp only [threadMove] at hm
    split at hm
    · rename_i hf
      obtain ⟨r, hr, rfl⟩ := Option.map_eq_some_iff.mp hm
      refine (if_pos hf).trans ?_
      exact Option.map_eq_some_iff.mpr ⟨r, hr, settleEnqueue_untried s i l r⟩
    · cases hm
  | emit l =>
    cases hm
    exact congrArg some (untried_goto (s.log [.direct i l]) i _ (afterWrite_untried _ l))
  | flush mark k =>
    cases hm
    refine congrArg some (untried_goto s i _ ?_)
    rw [untried_mode]
    cases s.mode <;> rfl
  | asyncFlush mark k =>
    simp only [threadMove] at hm
    split at hm
    · rename_i hp
      cases hm
      exact (if_pos hp).trans (congrArg some (untried_goto s i (.flushSinks mark k) rfl))
    · rename_i hp
      split at hm
      · rename_i hf
        cases hm
        exact (if_neg hp).trans ((if_pos hf).trans (congrArg some (asyncFlushEnter_untried s i mark k)))
      · cases hm
  | flushWait mark k =>
    simp only [threadMove] at hm
    split at hm
    · rename_i hf
      cases hm
      exact (if_pos hf).trans (congrArg some (asyncFlushWake_untried s i mark k))
    · cases hm
  | flushSinks mark k =>
    cases hm
    exact congrArg some (untried_goto (s.log [.flush mark k]) i k.after (after_untried k))
  | initLock cfg =>
    simp only [threadMove] at hm
    split at hm
    · cases hm
    · rename_i hfree
      refine (if_neg hfree).trans ?_
      split at hm
      · rename_i hacc
        cases hm
        exact (if_pos hacc).trans (congrArg some
          (untried_goto { s with initLock := true } i (.flush s.trace.length (.reconfigure cfg)) rfl))
      · rename_i hacc
        cases hm
        exact (if_neg hacc).trans (congrArg some (untried_goto s i .idle rfl))
  | checkMode cfg =>
    simp only [threadMove, Option.some.injEq] at hm ⊢
    subst hm
    rw [untried_mode]
    cases s.mode with
    | async => exact untried_goto { s with mode := .sync } i (.stop cfg) rfl
    | sync => exact untried_goto s i (.swap cfg) rfl
  | stop cfg =>
    simp only [threadMove] at hm
    split at hm
    · rename_i hp
      cases hm
      exact (if_pos hp).trans (congrArg some (untried_goto s i (.swap cfg) rfl))
    · rename_i hp
      split at hm
      · rename_i hf
        cases hm
        exact (if_neg hp).trans ((if_pos hf).trans (congrArg some (asyncStop_untried s i cfg)))
      · cases hm
  | join cfg =>
    simp only [threadMove] at hm
    split at hm
    · rename_i hw
      cases hm
      exact (if_pos hw).trans (congrArg some (untried_goto { s with worker := .none } i (.detach cfg) rfl))
    · cases hm
  | detach cfg =>
    simp only [threadMove] at hm
    split at hm
    · rename_i hf
      cases hm
      exact (if_pos hf).trans (congrArg some (untried_goto { s with eng := asyncStopDetach s.eng } i (.swap cfg) rfl))
    · cases hm
  | swap cfg =>
    cases hm
    refine congrArg some (untried_goto { s with mode := .sync } i _ ?_)
    cases cfg.mode <;> rfl
  | start cfg =>
    simp only [threadMove] at hm
    split at hm
    · rename_i ha
      cases hm
      exact (if_pos ha).trans (congrArg some (untried_goto { s with primsReady := true } i .unlock rfl))
    · rename_i ha
      split at hm
      · rename_i hf
        cases hm
        have hgo := untried_goto ({ s with primsReady := true, eng := hxAsyncStart cfg }.log [.started]) i .create rfl
        exact (if_neg ha).trans ((if_pos hf).trans (congrArg some hgo))
      · cases hm
  | create =>
    simp only [threadMove, hok rfl, if_true] at hm
    cases hm
    exact congrArg some (untried_goto { s with worker := .top } i .publish rfl)
  | abortStart => exact absurd rfl hpc
  | publish =>
    cases hm
    exact congrArg some (untried_goto { s with mode := .async } i .unlock rfl)
  | unlock =>
    cases hm
    exact congrArg some (untried_goto { s with initLock := false } i .idle rfl)

/-- Nor does what the worker does. -/
theorem workerMove_untried {w : Worker} (hm : workerMove s c w = some s') :
    workerMove s.untried c w = some s'.untried := by
  have hafter : workerAfterWait s.untried = (workerAfterWait s).untried := by
    unfold workerAfterWait
    by_cases h : s.eng.count = 0
    · rw [if_pos h]
      exact if_pos h
    · rw [if_neg h]
      exact if_neg h
  have htop : workerTop s.untried = (workerTop s).untried := by
    unfold workerTop
    by_cases h : s.eng.count = 0 ∧ s.eng.stop = false ∧ s.eng.flushRequest = false
    · rw [if_pos h]
      exact if_pos h
    · rw [if_neg h]
      exact (if_neg h).trans hafter
  cases w with
  | none => cases hm
  | exited => cases hm
  | top =>
    cases hm
    exact congrArg some htop
  | waiting =>
    cases hm
    simp only [workerMove]
    split
    · exact congrArg some hafter
    · exact congrArg some htop
  | batch n =>
    simp only [workerMove, workerBatch] at hm
    split at hm
    · rename_i hpos
      obtain ⟨r, hpop, hm⟩ := Option.bind_eq_some_iff.mp hm
      obtain ⟨threads, hsig, rfl⟩ := Option.map_eq_some_iff.mp hm
      refine (if_pos hpos).trans (Option.bind_eq_some_iff.mpr ⟨r, hpop, Option.map_eq_some_iff.mpr
        ⟨_, signal_untried hsig, ?_⟩⟩)
      cases r <;> rfl
    · rename_i hpos
      cases hm
      exact if_neg hpos
  | _ =>
    cases hm
    rfl

end

end HxClog
