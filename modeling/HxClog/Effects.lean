import HxClog.ControlSound

/-!
# What a step does to the lines

Whoever moves, the lines see one of ten things happen. `step_effect` says so
once; the results about the queue, about losses and about flushing look at an
`Effect` and never at the program counters again.
-/

namespace HxClog

/-- Events that say nothing about a line. -/
def Ev.silent : Ev → Bool
  | .dropsReported => true
  | .workerFlush => true
  | .flushCalled _ => true
  | _ => false

def Act.alloc : Act → Bool
  | .thread _ c => c.alloc
  | .worker c => c.alloc
  | _ => true

/-- The lines in the queue and in the worker's hand stay, and the counter with
them. A request for a flush is dropped only when nothing is queued or in hand. -/
structure SameLines (s s' : State) : Prop where
  capacity : s'.eng.capacity = s.eng.capacity
  overflow : s'.eng.overflow = s.eng.overflow
  queued : s'.eng.queued = s.eng.queued
  dropped : s'.eng.dropped = s.eng.dropped
  hand : s'.hand = s.hand
  request : s.eng.flushRequest = true → s'.eng.flushRequest = true ∨ (s.eng.count = 0 ∧ s.hand = [])

/-- A thread lets go of the line it holds. -/
def Releases (s s' : State) (l : Line) : Prop := (heldLines s.threads).Perm (l :: heldLines s'.threads)

inductive Effect (a : Act) (s s' : State) : Prop
  | quiet (evs : List Ev) (ht : s'.trace = s.trace ++ evs) (hs : ∀ ev ∈ evs, ev.silent = true)
      (same : SameLines s s') (held : heldLines s'.threads = heldLines s.threads)
  | flushed (i mark : Nat) (k : Caller) (hi : s.threads[i]? = some (.flushSinks mark k))
      (ht : s'.trace = s.trace ++ [.flush mark k]) (same : SameLines s s')
      (held : heldLines s'.threads = heldLines s.threads)
  | given (i : Nat) (l : Line) (ht : s'.trace = s.trace ++ [.given i l]) (same : SameLines s s')
      (held : Releases s' s l)
  | direct (i : Nat) (l : Line) (ht : s'.trace = s.trace ++ [.direct i l]) (same : SameLines s s')
      (held : Releases s s' l)
  | refused (i : Nat) (l : Line) (report : Bool) (ht : s'.trace = s.trace ++ .refused i l :: dropEvents report)
      (hp : s.eng.overflow = .dropNew) (hfull : s.eng.queued.length = s.eng.capacity)
      (he : s'.eng = { s.eng with dropped := s.eng.dropped + 1 }) (hw : s'.worker = s.worker)
      (held : Releases s s' l)
  | settled (i : Nat) (l : Line) (old : Option Line) (stored report : Bool) (hwf : s.eng.WF)
      (h : Enqueued s.eng l a.alloc (.settled s'.eng old stored report))
      (ht : s'.trace = s.trace ++ ((old.map Ev.evicted).toList ++
        (if stored then Ev.stored i l else Ev.lost i l) :: dropEvents report))
      (hw : s'.worker = s.worker) (held : Releases s s' l)
  | skipped (c : Choice) (l : Line) (ha : a = .worker c) (hno : c.alloc = false) (ht : s'.trace = s.trace ++ [.skipped l])
      (hsame : SameControl s.eng s'.eng) (hq : s.eng.queued = l :: s'.eng.queued)
      (hd : s'.eng.dropped = s.eng.dropped + 1) (hh : s.hand = []) (hh' : s'.hand = [])
      (held : heldLines s'.threads = heldLines s.threads)
  | popped (l : Line) (ht : s'.trace = s.trace ++ [.popped l])
      (hsame : SameControl s.eng s'.eng) (hq : s.eng.queued = l :: s'.eng.queued)
      (hd : s'.eng.dropped = s.eng.dropped) (hh : s.hand = []) (hh' : s'.hand = [l])
      (held : heldLines s'.threads = heldLines s.threads)
  | emitted (l : Line) (ht : s'.trace = s.trace ++ [.emitted l]) (he : s'.eng = s.eng)
      (hh : s.hand = [l]) (hh' : s'.hand = []) (held : heldLines s'.threads = heldLines s.threads)
  | started (i : Nat) (cfg : AsyncConfig) (hi : s.threads[i]? = some (.start cfg))
      (ht : s'.trace = s.trace ++ [.started]) (hq : s.eng.queued = []) (hh : s.hand = [])
      (he : s'.eng = hxAsyncStart cfg) (hh' : s'.hand = []) (held : heldLines s'.threads = heldLines s.threads)

/-! ## Lines held by threads -/

section
variable {s : State} {i : Nat} {pc : Pc} (hi : s.threads[i]? = some pc)
include hi

theorem held_goto {pc' : Pc} (h : pc'.held = pc.held) : heldLines (s.goto i pc').threads = heldLines s.threads :=
  Pool.filterMap_set_same hi h

theorem held_release {pc' : Pc} {l : Line} (h : pc.held = some l) (h' : pc'.held = none) :
    (heldLines s.threads).Perm (l :: heldLines (s.threads.set i pc')) := by
  obtain ⟨A, B, h1, h2⟩ := Pool.filterMap_set Pc.held s.threads i pc hi
  unfold heldLines
  rw [h1, h2, h, h']
  simp only [Option.toList_some, Option.toList_none, List.append_nil, List.append_assoc, List.singleton_append]
  exact List.perm_middle

theorem held_take {pc' : Pc} {l : Line} (h : pc.held = none) (h' : pc'.held = some l) :
    (heldLines (s.threads.set i pc')).Perm (l :: heldLines s.threads) := by
  obtain ⟨A, B, h1, h2⟩ := Pool.filterMap_set Pc.held s.threads i pc hi
  unfold heldLines
  rw [h1, h2, h, h']
  simp only [Option.toList_some, Option.toList_none, List.append_nil, List.append_assoc, List.singleton_append]
  exact List.perm_middle

end

theorem wakeAll_set_held (threads : List Pc) (i : Nat) (pc : Pc) :
    heldLines ((wakeAll threads).set i pc) = heldLines (threads.set i pc) :=
  wakeAll_set_filterMap wake_held threads i pc

/-! ## Steps that leave the lines alone -/

theorem sameLines_goto (s : State) (i : Nat) (pc : Pc) : SameLines s (s.goto i pc) := ⟨rfl, rfl, rfl, rfl, rfl, Or.inl⟩

section
variable {a : Act} {s s' : State}

theorem Effect.still (ht : s'.trace = s.trace) (same : SameLines s s')
    (held : heldLines s'.threads = heldLines s.threads) : Effect a s s' :=
  .quiet [] (by rw [ht, List.append_nil]) (fun _ h => nomatch h) same held

theorem effect_goto {i : Nat} {pc pc' : Pc} (hi : s.threads[i]? = some pc) (h : pc'.held = pc.held) :
    Effect a s (s.goto i pc') := .still rfl (sameLines_goto s i pc') (held_goto hi h)

/-- Changing the mode, the locks or the stop and flush flags. -/
theorem effect_flags (held : heldLines s'.threads = heldLines s.threads) (ht : s'.trace = s.trace)
    (hw : s'.worker = s.worker) (he : s'.eng = { s.eng with stop := s'.eng.stop, flushRequest := s'.eng.flushRequest })
    (hr : s.eng.flushRequest = true → s'.eng.flushRequest = true) : Effect a s s' := by
  refine .still ht ⟨?_, ?_, ?_, ?_, ?_, fun h => Or.inl (hr h)⟩ held
  · rw [he]
  · rw [he]
  · rw [he]; rfl
  · rw [he]
  · unfold State.hand Popped.line
    rw [hw, he]

end

/-! ## Sections of `hx_async_enqueue` -/

@[simp] theorem afterWrite_held (mark : Nat) (l : Line) : (afterWrite mark l).held = none := by
  unfold afterWrite; split <;> rfl

theorem effect_settle {a : Act} {s : State} {i : Nat} {pc : Pc} {l : Line} {r : Enqueue} (hc : Control s)
    (hi : s.threads[i]? = some pc) (hl : pc.held = some l) (h : Enqueued s.eng l a.alloc r) :
    Effect a s (settleEnqueue s i l r) := by
  cases r with
  | unavailable => exact effect_goto hi hl.symm
  | wait => exact effect_goto hi hl.symm
  | refused e report =>
    cases h with
    | refused _ hr _ hp hfull =>
      exact .refused i l report rfl hp ((AsyncEngine.queued_length (hc.wf hr)).trans hfull) rfl rfl
        (held_release hi hl (afterWrite_held _ l))
  | settled e old stored report =>
    exact .settled i l old stored report (hc.wf h.wf.2.2.2.1) h rfl rfl
      (held_release hi hl (afterWrite_held _ l))

/-! ## The worker -/

section
variable {s s' : State} {c : Choice}

/-- The worker moves without touching the queue or the line in its hand. -/
theorem effect_worker {w : Worker} {b : Bool} (hs : s.hand = [])
    (hw : ∀ e, ({ s with eng := e, worker := w } : State).hand = [])
    (hr : s.eng.flushRequest = true → b = true ∨ s.eng.count = 0) :
    Effect (.worker c) s { s with eng := { s.eng with flushRequest := b }, worker := w } :=
  .still rfl ⟨rfl, rfl, rfl, rfl, (hw _).trans hs.symm, fun h => (hr h).imp id fun h0 => ⟨h0, hs⟩⟩ rfl

theorem effect_afterWait (hs : s.hand = []) : Effect (.worker c) s (workerAfterWait s) := by
  unfold workerAfterWait
  split
  · rename_i h0; exact effect_worker hs (fun _ => rfl) fun _ => Or.inr h0
  · exact effect_worker (b := s.eng.flushRequest) hs (fun _ => rfl) Or.inl

theorem effect_top (hs : s.hand = []) : Effect (.worker c) s (workerTop s) := by
  unfold workerTop
  split
  · exact effect_worker (b := s.eng.flushRequest) hs (fun _ => rfl) Or.inl
  · exact effect_afterWait hs

theorem effect_batch {n : Nat} (hc : Control s) (hw : s.worker = .batch n) (h : workerBatch s c n = some s') :
    Effect (.worker c) s s' := by
  have hhand : s.hand = [] := by unfold State.hand; rw [hw]
  have hwf := hc.wf (running_of_worker hc (by rw [hw]; simp))
  unfold workerBatch at h
  split at h
  · rename_i hpos
    obtain ⟨r, hpop, h⟩ := Option.bind_eq_some_iff.mp h
    obtain ⟨threads, hsig, h⟩ := Option.map_eq_some_iff.mp h
    have hheld : heldLines threads = heldLines s.threads := signal_filterMap wake_held hsig
    rcases workerPop_spec hwf hpos.1 hpop with ⟨e, l, rfl, ha, _, hsame, hq, hd⟩ | ⟨e, p, rfl, _, hsame, hq, hd⟩
    · subst h
      exact .skipped c l rfl ha rfl hsame hq hd hhand rfl hheld
    · subst h
      exact .popped (p.line e) rfl hsame hq hd hhand rfl hheld
  · cases h
    refine effect_worker hhand (fun _ => rfl) fun hreq => ?_
    rcases Nat.eq_zero_or_pos s.eng.count with h0 | hpos
    · exact Or.inr h0
    · exact Or.inl (by simp [hreq, Nat.ne_of_gt hpos])

theorem effect_workerMove (hc : Control s) (h : workerMove s c s.worker = some s') : Effect (.worker c) s s' := by
  cases hw : s.worker with
  | none => rw [hw] at h; cases h
  | exited => rw [hw] at h; cases h
  | top =>
    rw [hw] at h; cases h
    exact effect_top (by unfold State.hand; rw [hw])
  | waiting =>
    have hhand : s.hand = [] := by unfold State.hand; rw [hw]
    rw [hw] at h; cases h
    split
    · exact effect_afterWait hhand
    · exact effect_top hhand
  | flushSinks d x =>
    have hhand : s.hand = [] := by unfold State.hand; rw [hw]
    rw [hw] at h; cases h
    refine .quiet [.workerFlush] rfl (by simp [Ev.silent]) ⟨rfl, rfl, rfl, rfl, ?_, Or.inl⟩ rfl
    rw [hhand]
    cases d <;> cases x <;> rfl
  | notify x =>
    have hhand : s.hand = [] := by unfold State.hand; rw [hw]
    rw [hw] at h; cases h
    refine .still rfl ⟨rfl, rfl, rfl, rfl, ?_, Or.inl⟩ rfl
    rw [hhand]
    cases x <;> rfl
  | batch n => rw [hw] at h; exact effect_batch hc hw h
  | emit n p =>
    have hhand : s.hand = [p.line s.eng] := by unfold State.hand; rw [hw]
    rw [hw] at h; cases h
    exact .emitted _ rfl rfl hhand rfl rfl
  | relock n =>
    have hhand : s.hand = [] := by unfold State.hand; rw [hw]
    rw [hw] at h; cases h
    exact .still rfl ⟨rfl, rfl, rfl, rfl, hhand.symm, Or.inl⟩ rfl

end

/-! ## Threads -/

theorem effect_threadMove {s s' : State} {i : Nat} {c : Choice} {pc : Pc} (hc : Control s)
    (hi : s.threads[i]? = some pc) (hok : c.created = true) (h : threadMove s i c pc = some s') :
    Effect (.thread i c) s s' := by
  cases pc with
  | idle => cases h
  | parked l => cases h
  | dispatch l =>
    cases h
    refine effect_goto hi ?_
    cases s.mode <;> rfl
  | enqueue l =>
    simp only [threadMove] at h
    split at h
    · cases h; exact effect_goto hi rfl
    · split at h
      · obtain ⟨r, hres, rfl⟩ := Option.map_eq_some_iff.mp h
        exact effect_settle hc hi rfl (hxAsyncEnqueue_spec hc.wf hres)
      · cases h
  | woken l =>
    simp only [threadMove] at h
    split at h
    · obtain ⟨r, hres, rfl⟩ := Option.map_eq_some_iff.mp h
      exact effect_settle hc hi rfl (asyncEnqueueBlock_spec hc.wf hres)
    · cases h
  | emit l =>
    cases h
    exact .direct i l rfl ⟨rfl, rfl, rfl, rfl, rfl, Or.inl⟩ (held_release hi rfl (afterWrite_held _ l))
  | flush mark k =>
    cases h
    refine effect_goto hi ?_
    cases s.mode <;> rfl
  | asyncFlush mark k =>
    simp only [threadMove] at h
    split at h
    · cases h; exact effect_goto hi rfl
    · split at h
      · cases h
        unfold asyncFlushEnter
        split
        · exact effect_goto hi rfl
        · split <;> exact effect_flags (held_goto hi rfl) rfl rfl rfl fun _ => rfl
      · cases h
  | flushWait mark k =>
    simp only [threadMove] at h
    split at h
    · cases h
      unfold asyncFlushWake
      split
      · exact effect_goto hi rfl
      · split
        · exact .still rfl ⟨rfl, rfl, rfl, rfl, rfl, Or.inl⟩ rfl
        · exact effect_goto hi rfl
    · cases h
  | flushSinks mark k =>
    cases h
    refine .flushed i mark k hi rfl ⟨rfl, rfl, rfl, rfl, rfl, Or.inl⟩ ?_
    exact held_goto (s := s.log [.flush mark k]) hi (by cases k <;> rfl)
  | initLock cfg =>
    simp only [threadMove] at h
    split at h
    · cases h
    · split at h
      · cases h; exact effect_flags (held_goto hi rfl) rfl rfl rfl id
      · cases h; exact effect_goto hi rfl
  | checkMode cfg =>
    cases h
    cases s.mode <;> exact effect_flags (held_goto hi rfl) rfl rfl rfl id
  | stop cfg =>
    simp only [threadMove] at h
    split at h
    · cases h; exact effect_goto hi rfl
    · split at h
      · cases h
        unfold asyncStopEnter
        split
        · exact effect_goto hi rfl
        · exact effect_flags ((wakeAll_set_held _ _ _).trans (held_goto hi rfl)) rfl rfl rfl id
      · cases h
  | join cfg =>
    simp only [threadMove] at h
    split at h
    · rename_i hw
      cases h
      refine .still rfl ⟨rfl, rfl, rfl, rfl, ?_, Or.inl⟩ (held_goto hi rfl)
      unfold State.hand
      rw [hw]
      rfl
    · cases h
  | detach cfg =>
    obtain ⟨_, ⟨_, _, _, hw, hcount⟩, _⟩ := phase_of_thread hi hc rfl
    simp only [threadMove] at h
    split at h
    · cases h
      refine .still rfl ⟨rfl, rfl, (queued_of_count hcount).symm, rfl, ?_, Or.inl⟩ (held_goto hi rfl)
      unfold State.hand State.goto
      simp only [hw]
    · cases h
  | swap cfg =>
    cases h
    cases cfg.mode <;> exact effect_flags (held_goto hi rfl) rfl rfl rfl id
  | start cfg =>
    obtain ⟨_, ⟨_, hd⟩, _⟩ := phase_of_thread hi hc rfl
    have hhand : s.hand = [] := by unfold State.hand; rw [hd.worker]
    simp only [threadMove] at h
    split at h
    · cases h; exact effect_flags (held_goto hi rfl) rfl rfl rfl id
    · split at h
      · cases h
        refine .started i cfg hi rfl (hc.empty hd.running) hhand rfl ?_ (held_goto (s := s.log [.started]) hi rfl)
        unfold State.hand State.goto State.log
        simp only [hd.worker]
      · cases h
  | create =>
    obtain ⟨_, ⟨_, _, _, hw⟩, _⟩ := phase_of_thread hi hc rfl
    simp only [threadMove, hok, if_true, Option.some.injEq] at h
    subst h
    refine .still rfl ⟨rfl, rfl, rfl, rfl, ?_, Or.inl⟩ (held_goto hi rfl)
    unfold State.hand State.goto
    simp only [hw]
  | abortStart => exact (phase_of_thread hi hc rfl).2.1.elim
  | publish => cases h; exact effect_flags (held_goto hi rfl) rfl rfl rfl id
  | unlock => cases h; exact effect_flags (held_goto hi rfl) rfl rfl rfl id

theorem step_effect {s s' : State} {a : Act} (hc : Control s) (ha : a.startsOk = true) (h : step s a = some s') :
    Effect a s s' := by
  cases a with
  | call i l =>
    simp only [step] at h
    split at h
    · rename_i hi
      cases h
      exact .given i l rfl ⟨rfl, rfl, rfl, rfl, rfl, Or.inl⟩ (held_take hi rfl rfl)
    · cases h
  | callFlush i =>
    simp only [step] at h
    split at h
    · rename_i hi
      cases h
      refine .quiet [.flushCalled i] rfl (by simp [Ev.silent]) ⟨rfl, rfl, rfl, rfl, rfl, Or.inl⟩ ?_
      exact held_goto (s := s.log [.flushCalled i]) hi rfl
    · cases h
  | callReconfigure i cfg =>
    simp only [step] at h
    split at h
    · rename_i hi; cases h; exact effect_goto hi rfl
    · cases h
  | thread i c =>
    obtain ⟨pc, hi, h⟩ := Option.bind_eq_some_iff.mp h
    exact effect_threadMove hc hi ha h
  | spurious i =>
    obtain ⟨pc, hi, h⟩ := Option.bind_eq_some_iff.mp h
    split at h
    · cases h; exact effect_goto hi (wake_held pc)
    · cases h
  | worker c => exact effect_workerMove hc h

end HxClog
