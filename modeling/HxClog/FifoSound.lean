import HxClog.Effects

/-!
# The ring refines a bounded queue

The events since the last start, read as operations of a bounded queue, are a
run of that queue from empty, and the run ends in the lines the ring holds. So
the worker hands lines to the sinks in the order in which they were stored,
leaving out only those that were evicted or skipped.
-/

namespace HxClog

open Fifo (Fate)

/-! ## Reading the trace -/

def Ev.stored? : Ev → Option Line
  | .stored _ l => some l
  | _ => none

def Ev.evicted? : Ev → Option Line
  | .evicted l => some l
  | _ => none

def Ev.skipped? : Ev → Option Line
  | .skipped l => some l
  | _ => none

/-- A line refused by DROP_NEW, evicted by DROP_OLD or lost to a failed allocation. -/
def Ev.isDrop : Ev → Bool
  | .refused .. => true
  | .evicted _ => true
  | .lost .. => true
  | .skipped _ => true
  | _ => false

def storedLines (tr : List Ev) : List Line := tr.filterMap Ev.stored?

def evictedLines (tr : List Ev) : List Line := tr.filterMap Ev.evicted?

def skippedLines (tr : List Ev) : List Line := tr.filterMap Ev.skipped?

theorem fifoOps_append (xs ys : List Ev) : fifoOps (xs ++ ys) = fifoOps xs ++ fifoOps ys := List.filterMap_append

theorem emittedLines_append (xs ys : List Ev) : emittedLines (xs ++ ys) = emittedLines xs ++ emittedLines ys :=
  List.filterMap_append

theorem pushed_fifoOps (tr : List Ev) : Fifo.pushed (fifoOps tr) = storedLines tr := by
  unfold Fifo.pushed fifoOps storedLines
  rw [List.filterMap_filterMap]
  congr 1
  funext ev
  cases ev <;> rfl

theorem evicted_fifoOps (tr : List Ev) : Fifo.withFate .evicted (Fifo.left (fifoOps tr)) = evictedLines tr := by
  unfold Fifo.withFate Fifo.left fifoOps evictedLines
  rw [List.filterMap_filterMap, List.filterMap_filterMap]
  congr 1
  funext ev
  cases ev <;> rfl

theorem skipped_fifoOps (tr : List Ev) : Fifo.withFate .discarded (Fifo.left (fifoOps tr)) = skippedLines tr := by
  unfold Fifo.withFate Fifo.left fifoOps skippedLines
  rw [List.filterMap_filterMap, List.filterMap_filterMap]
  congr 1
  funext ev
  cases ev <;> rfl

theorem losses_fifoOps (tr : List Ev) : Fifo.losses (fifoOps tr) = tr.countP Ev.isDrop := by
  unfold Fifo.losses fifoOps
  rw [List.countP_filterMap]
  congr 1
  funext ev
  cases ev <;> rfl

theorem sinceStart_append {evs : List Ev} (h : Ev.started ∉ evs) (tr : List Ev) :
    sinceStart (tr ++ evs) = sinceStart tr ++ evs := by
  have key : ∀ (evs acc : List Ev), Ev.started ∉ evs →
      evs.foldl (fun acc ev => if ev = .started then [] else acc ++ [ev]) acc = acc ++ evs := by
    intro evs
    induction evs with
    | nil => intro acc _; simp
    | cons ev evs ih =>
      intro acc h
      have h1 : ev ≠ .started := fun e => h (e ▸ List.mem_cons_self)
      have h2 : .started ∉ evs := fun m => h (List.mem_cons_of_mem _ m)
      rw [List.foldl_cons, if_neg h1, ih _ h2, List.append_assoc]
      rfl
  unfold sinceStart
  rw [List.foldl_append, key _ _ h]

@[simp] theorem sinceStart_started (tr : List Ev) : sinceStart (tr ++ [.started]) = [] := by
  unfold sinceStart
  rw [List.foldl_append]
  rfl

theorem queued_bounded {s : State} (hc : Control s) : s.eng.queued.length ≤ s.eng.capacity := by
  cases hr : s.eng.running with
  | true => rw [AsyncEngine.queued_length (hc.wf hr)]; exact (hc.wf hr).count
  | false => rw [hc.empty hr]; exact Nat.zero_le _

/-! ## What a step records -/

/-- The events of a step, read as operations of a bounded queue, do to any queue
with the same items what the step does to the ring. -/
structure Recorded (a : Act) (s s' : State) (evs : List Ev) : Prop where
  trace : s'.trace = s.trace ++ evs
  going : Ev.started ∉ evs
  capacity : s'.eng.capacity = s.eng.capacity
  queue : ∀ q : Fifo.Queue Line s.eng.capacity, q.items = s.eng.queued →
    ∃ q', Transition.run Fifo.step q (fifoOps evs) = some q' ∧ q'.items = s'.eng.queued
  hand : s.hand ++ Fifo.withFate .taken (Fifo.left (fifoOps evs)) = emittedLines evs ++ s'.hand
  dropped : s'.eng.dropped = s.eng.dropped + Fifo.losses (fifoOps evs)
  skips : (∀ c, a = .worker c → c.alloc = true) → ∀ p ∈ Fifo.left (fifoOps evs), p.2 ≠ Fate.discarded
  flushes : ∀ mark k, .flush mark k ∈ evs → evs = [.flush mark k] ∧ ∃ i : Nat, s.threads[i]? = some (Pc.flushSinks mark k)

theorem silent_filterMap {β : Type*} {f : Ev → Option β} {evs : List Ev} (h : ∀ ev ∈ evs, ev.silent = true)
    (hf : ∀ ev : Ev, ev.silent = true → f ev = none) : evs.filterMap f = [] :=
  List.filterMap_eq_nil_iff.mpr fun ev hm => hf ev (h ev hm)

theorem silent_events {evs : List Ev} (h : ∀ ev ∈ evs, ev.silent = true) :
    Ev.started ∉ evs ∧ fifoOps evs = [] ∧ emittedLines evs = [] := by
  refine ⟨fun hm => (nomatch h _ hm), silent_filterMap h fun ev hev => ?_, silent_filterMap h fun ev hev => ?_⟩
  · cases ev <;> first | rfl | cases hev
  · cases ev <;> first | rfl | cases hev

theorem dropEvents_silent (report : Bool) : ∀ ev ∈ dropEvents report, ev.silent = true := by
  cases report <;> simp [dropEvents, Ev.silent]

section
variable {a : Act} {s s' : State}

/-- A step that leaves the queue, the worker's hand and the drop counter alone. -/
theorem recorded_quiet {evs : List Ev} (ht : s'.trace = s.trace ++ evs) (hn : Ev.started ∉ evs)
    (hf : fifoOps evs = []) (he : emittedLines evs = []) (same : SameLines s s')
    (hfl : ∀ mark k, .flush mark k ∈ evs → evs = [.flush mark k] ∧ ∃ i : Nat, s.threads[i]? = some (Pc.flushSinks mark k)) :
    Recorded a s s' evs := by
  refine ⟨ht, hn, same.capacity, fun q hi => ⟨q, ?_, hi.trans same.queued.symm⟩, ?_, ?_, ?_, hfl⟩
  · rw [hf]; rfl
  · rw [hf, he, same.hand]; simp [Fifo.left, Fifo.withFate]
  · rw [hf, same.dropped]; rfl
  · rw [hf]; intro _ _ h; cases h

theorem hand_of_worker (hw : s'.worker = s.worker) (hs : s'.eng.scratch = s.eng.scratch) :
    s'.hand = s.hand := by
  unfold State.hand Popped.line
  rw [hw, hs]

theorem recorded_refused {i : Nat} {l : Line} {report : Bool}
    (ht : s'.trace = s.trace ++ .refused i l :: dropEvents report) (hfull : s.eng.queued.length = s.eng.capacity)
    (he : s'.eng = { s.eng with dropped := s.eng.dropped + 1 }) (hw : s'.worker = s.worker) :
    Recorded a s s' (.refused i l :: dropEvents report) := by
  obtain ⟨hn, hf, hem⟩ := silent_events (dropEvents_silent report)
  have hops : fifoOps (.refused i l :: dropEvents report) = [.refuse l] := by
    rw [show (Ev.refused i l :: dropEvents report) = [Ev.refused i l] ++ dropEvents report from rfl,
      fifoOps_append, hf]
    rfl
  refine ⟨ht, by simpa using hn, by rw [he], fun q hi => ⟨q, ?_, ?_⟩, ?_, ?_, ?_, ?_⟩
  · rw [hops]
    simp [Transition.run_cons, Fifo.step, Fifo.Queue.full, hi, hfull]
  · rw [hi, he]; rfl
  · rw [hops, show emittedLines (.refused i l :: dropEvents report) = [] from hem, hand_of_worker hw (by rw [he])]
    exact List.append_nil _
  · rw [hops, he]; rfl
  · rw [hops]; intro _ _ h; cases h
  · cases report <;> simp [dropEvents]

/-- What a section of `hx_async_enqueue` that reached the queue leaves in the trace. -/
theorem settled_events (i : Nat) (l : Line) (old : Option Line) (stored report : Bool) :
    let evs := (old.map Ev.evicted).toList ++ (if stored then .stored i l else .lost i l) :: dropEvents report
    Ev.started ∉ evs ∧ emittedLines evs = [] ∧
      fifoOps evs = (old.map fun o => Fifo.Op.leave o .evicted).toList ++
        [if stored then Fifo.Op.push l else .lose l] ∧ ∀ mark k, .flush mark k ∉ evs := by
  cases old <;> cases stored <;> cases report <;> refine ⟨?_, rfl, rfl, ?_⟩ <;> simp [dropEvents]

theorem recorded_settled {i : Nat} {l : Line} {old : Option Line} {alloc stored report : Bool} (hwf : s.eng.WF)
    (h : Enqueued s.eng l alloc (.settled s'.eng old stored report))
    (ht : s'.trace = s.trace ++ ((old.map Ev.evicted).toList ++
      (if stored then Ev.stored i l else Ev.lost i l) :: dropEvents report))
    (hw : s'.worker = s.worker) : Recorded a s s' ((old.map Ev.evicted).toList ++
      (if stored then Ev.stored i l else Ev.lost i l) :: dropEvents report) := by
  obtain ⟨_, hsame, hscratch, _⟩ := h.wf
  obtain ⟨hn, hem, hf, hfl⟩ := settled_events i l old stored report
  refine ⟨ht, hn, hsame.capacity, fun q hi => ?_, ?_, ?_, ?_, fun mark k hm => absurd hm (hfl mark k)⟩
  · obtain ⟨q', hq', hi', _⟩ := h.fifo hwf q hi
    exact ⟨q', by rw [hf]; exact hq', hi'⟩
  · rw [hem, hf, hand_of_worker hw hscratch]
    cases old <;> cases stored <;> simp [Fifo.left, Fifo.withFate, Fifo.Op.left?]
  · obtain ⟨_, _, _, hd⟩ := h.fifo hwf ⟨s.eng.queued, by rw [AsyncEngine.queued_length hwf]; exact hwf.count⟩ rfl
    rw [hf]
    refine hd.trans ?_
    cases old <;> cases stored <;> rfl
  · rw [hf]
    cases old <;> cases stored <;> simp [Fifo.left, Fifo.Op.left?]

/-- A line leaves the front of the queue on the worker's side. -/
theorem recorded_leave {l : Line} {f : Fate} {ev : Ev} (hn : ev ≠ .started) (hfl : ∀ mark k, ev ≠ .flush mark k)
    (hev : ev.fifo? = some (.leave l f)) (hem : ev.emitted? = none) (hf : f ≠ .evicted)
    (ht : s'.trace = s.trace ++ [ev]) (hsame : SameControl s.eng s'.eng) (hq : s.eng.queued = l :: s'.eng.queued)
    (hd : s'.eng.dropped = s.eng.dropped + Fifo.losses [Fifo.Op.leave l f])
    (hh : s.hand ++ Fifo.withFate .taken [(l, f)] = s'.hand)
    (hskip : (∀ c, a = .worker c → c.alloc = true) → f ≠ .discarded) : Recorded a s s' [ev] := by
  have hops : fifoOps [ev] = [.leave l f] := by simp [fifoOps, hev]
  refine ⟨ht, by simpa using hn.symm, hsame.capacity, fun q hi => ?_, ?_, ?_, ?_, ?_⟩
  · obtain ⟨q', hs, hi'⟩ := Fifo.step_leave f (hi.trans hq) (fun h => absurd h hf)
    exact ⟨q', by simp [hops, Transition.run_cons, hs], hi'⟩
  · rw [hops, show emittedLines [ev] = [] by simp [emittedLines, hem]]
    exact hh
  · rw [hops]; exact hd
  · rw [hops]
    intro ha p hp
    obtain rfl : p = (l, f) := by simpa [Fifo.left, Fifo.Op.left?] using hp
    exact hskip ha
  · intro mark k hm
    exact absurd (List.mem_singleton.mp hm).symm (hfl mark k)

/-- Every step records what it does, or starts an engine on an empty queue. -/
theorem Effect.recorded (h : Effect a s s') :
    (∃ evs, Recorded a s s' evs) ∨
    ((∃ (i : Nat) (cfg : AsyncConfig), s.threads[i]? = some (Pc.start cfg)) ∧ s'.trace = s.trace ++ [.started] ∧ s.eng.queued = [] ∧ s.hand = [] ∧
      s'.eng.queued = [] ∧ s'.hand = [] ∧ s'.eng.dropped = 0) := by
  cases h with
  | quiet evs ht hs same _ =>
    obtain ⟨hn, hf, he⟩ := silent_events hs
    exact Or.inl ⟨_, recorded_quiet ht hn hf he same fun mark k hm => nomatch hs _ hm⟩
  | flushed i mark k hi ht same _ =>
    refine Or.inl ⟨_, recorded_quiet ht (by simp) rfl rfl same fun mark' k' hm => ?_⟩
    cases List.mem_singleton.mp hm
    exact ⟨rfl, i, hi⟩
  | given i l ht same _ => exact Or.inl ⟨_, recorded_quiet ht (by simp) rfl rfl same (by simp)⟩
  | direct i l ht same _ => exact Or.inl ⟨_, recorded_quiet ht (by simp) rfl rfl same (by simp)⟩
  | refused i l report ht _ hfull he hw _ => exact Or.inl ⟨_, recorded_refused ht hfull he hw⟩
  | settled i l old stored report hwf h ht hw _ => exact Or.inl ⟨_, recorded_settled hwf h ht hw⟩
  | skipped c l hact hno ht hsame hq hd hh hh' _ =>
    refine Or.inl ⟨_, recorded_leave (f := .discarded) (by simp) (by simp) rfl rfl (by simp) ht hsame hq hd ?_ ?_⟩
    · rw [hh, hh']; rfl
    · intro ha
      rw [ha c hact] at hno
      cases hno
  | popped l ht hsame hq hd hh hh' _ =>
    refine Or.inl ⟨_, recorded_leave (f := .taken) (by simp) (by simp) rfl rfl (by simp) ht hsame hq hd ?_ (by simp)⟩
    rw [hh, hh']; rfl
  | emitted l ht he hh hh' _ =>
    refine Or.inl ⟨_, ht, by simp, by rw [he], fun q hi => ⟨q, rfl, by rw [hi, he]⟩, ?_, by rw [he]; rfl, ?_, by simp⟩
    · rw [hh, hh']; rfl
    · intro _ _ h; cases h
  | started i cfg hi ht hq hh he hh' _ =>
    exact Or.inr ⟨⟨i, cfg, hi⟩, ht, hq, hh, by rw [he]; rfl, hh', by rw [he]; rfl⟩

end

/-! ## The simulation -/

structure Refines (s : State) : Prop where
  queue : ∃ q : Fifo.Queue Line s.eng.capacity,
    Transition.run Fifo.step (Fifo.Queue.empty _) (fifoOps (sinceStart s.trace)) = some q ∧ q.items = s.eng.queued
  hand : emittedLines (sinceStart s.trace) ++ s.hand =
    Fifo.withFate .taken (Fifo.left (fifoOps (sinceStart s.trace)))
  dropped : s.eng.dropped = Fifo.losses (fifoOps (sinceStart s.trace))

theorem Refines.step {s s' : State} {a : Act} (hr : Refines s) (h : Effect a s s') : Refines s' := by
  rcases h.recorded with ⟨evs, h⟩ | ⟨_, ht, _, _, hq, hh, hd⟩
  · have hs : sinceStart s'.trace = sinceStart s.trace ++ evs := by rw [h.trace, sinceStart_append h.going]
    obtain ⟨q, hrun, hi⟩ := hr.queue
    obtain ⟨q', hrun', hi'⟩ := h.queue q hi
    refine ⟨?_, ?_, ?_⟩
    · rw [h.capacity, hs, fifoOps_append]
      refine ⟨q', ?_, hi'⟩
      rw [Transition.run_append, hrun]
      exact hrun'
    · rw [hs, fifoOps_append, emittedLines_append, Fifo.left_append, Fifo.withFate_append, ← hr.hand,
        List.append_assoc, List.append_assoc, h.hand]
    · rw [hs, fifoOps_append, Fifo.losses_append, ← hr.dropped]
      exact h.dropped
  · have htr : sinceStart s'.trace = [] := by rw [ht]; exact sinceStart_started _
    refine ⟨⟨Fifo.Queue.empty _, ?_, ?_⟩, ?_, ?_⟩
    · rw [htr]; rfl
    · rw [hq]; rfl
    · rw [htr, hh]; rfl
    · rw [htr, hd]; rfl

theorem refines_init (n : Nat) (cfg : AsyncConfig) : Refines (initState n cfg) := by
  cases hm : cfg.mode with
  | async =>
    refine ⟨⟨Fifo.Queue.empty _, rfl, ?_⟩, ?_, ?_⟩
    all_goals simp only [initState, hm]; rfl
  | sync =>
    refine ⟨⟨Fifo.Queue.empty _, rfl, ?_⟩, ?_, ?_⟩
    all_goals simp only [initState, hm]; rfl

theorem refines_run {n : Nat} {cfg : AsyncConfig} {as : List Act} {s : State}
    (h : execute Act.startsOk n cfg as = some s) : Control s ∧ Refines s :=
  execute_invariant (I := fun s => Control s ∧ Refines s) ⟨control_init n cfg, refines_init n cfg⟩
    (fun _ _ _ hs ha hst => ⟨control_step hs.1 ha hst, hs.2.step (step_effect hs.1 ha hst)⟩) h

/-! ## The main results -/

/-- Whoever left the queue left it in the order in which the lines were stored. -/
theorem Refines.gone {s : State} (hr : Refines s) : ∃ gone : List (Line × Fate),
    storedLines (sinceStart s.trace) = gone.map Prod.fst ++ s.eng.queued ∧
    Fifo.withFate .taken gone = emittedLines (sinceStart s.trace) ++ s.hand ∧
    Fifo.withFate .evicted gone = evictedLines (sinceStart s.trace) ∧
    Fifo.withFate .discarded gone = skippedLines (sinceStart s.trace) := by
  obtain ⟨q, hrun, hi⟩ := hr.queue
  refine ⟨Fifo.left (fifoOps (sinceStart s.trace)), ?_, hr.hand.symm, evicted_fifoOps _, skipped_fifoOps _⟩
  rw [← pushed_fifoOps, ← hi]
  exact Fifo.run_fifo hrun

/-- An engine that has been taken down, or whose worker has left, holds no line. -/
theorem Control.released {s : State} (hc : Control s) (h : s.eng.running = false ∨ s.worker = .exited) :
    s.eng.queued = [] ∧ s.hand = [] := by
  rcases h with h | h
  · have hw : s.worker = .none := by
      by_contra hne
      rw [running_of_worker hc hne] at h
      cases h
    exact ⟨hc.empty h, by unfold State.hand; rw [hw]⟩
  · exact ⟨queued_of_count (hc.drained (by rw [h]; rfl)).2, by unfold State.hand; rw [h]⟩

/-- The ring is a bounded first-in first-out queue, from a start of the engine to
the end of its drain, whatever the overflow policy and whoever runs when. -/
theorem ring_refines_fifo {n : Nat} {cfg : AsyncConfig} {as : List Act} {s : State}
    (h : execute Act.startsOk n cfg as = some s) :
    (s.eng.running = true →
      s.eng.count ≤ s.eng.capacity ∧ s.eng.tail = (s.eng.head + s.eng.count) % s.eng.capacity ∧
      (0 < s.eng.count → ∀ alloc, (workerPop s.eng alloc).isSome) ∧
      ∀ (l : Line) (alloc : Bool), l.size < 2 ^ 31 - 1 →
        (hxAsyncEnqueue s.eng l alloc).isSome ∧ (asyncEnqueueBlock s.eng l alloc).isSome) ∧
    (∃ q : Fifo.Queue Line s.eng.capacity,
      Transition.run Fifo.step (Fifo.Queue.empty _) (fifoOps (sinceStart s.trace)) = some q ∧
      q.items = s.eng.queued) ∧
    (∃ gone : List (Line × Fate),
      storedLines (sinceStart s.trace) = gone.map Prod.fst ++ s.eng.queued ∧
      Fifo.withFate .taken gone = emittedLines (sinceStart s.trace) ++ s.hand ∧
      Fifo.withFate .evicted gone = evictedLines (sinceStart s.trace) ∧
      Fifo.withFate .discarded gone = skippedLines (sinceStart s.trace)) ∧
    s.eng.dropped = (sinceStart s.trace).countP Ev.isDrop ∧
    (s.eng.running = false ∨ s.worker = .exited → s.eng.queued = [] ∧ s.hand = []) := by
  obtain ⟨hc, hr⟩ := refines_run h
  refine ⟨fun hrun => ?_, hr.queue, hr.gone, hr.dropped.trans (losses_fifoOps _), hc.released⟩
  have hw := hc.wf hrun
  exact ⟨hw.count, hw.tail, fun hpos alloc => workerPop_isSome hw hpos alloc,
    fun l alloc hl => hxAsyncEnqueue_isSome hw hl alloc⟩

def oneSlot : AsyncConfig := ⟨.async, 1, 1, 0, .dropOld⟩

/-- Two lines through a queue of one: the second evicts the first. -/
def evictingRun (l l' : Line) : List Act :=
  [.call 0 l, .thread 0 {}, .thread 0 {}, .call 0 l', .thread 0 {}, .thread 0 {}, .worker {}, .worker {}, .worker {}]

theorem ring_refines_fifo_evicting : ∃ s,
    execute Act.startsOk 1 oneSlot (evictingRun ⟨2, [97], 0, true⟩ ⟨2, [98], 0, true⟩) = some s ∧
    evictedLines s.trace = [⟨2, [97], 0, true⟩] ∧ emittedLines s.trace = [⟨2, [98], 0, true⟩] ∧
    s.eng.dropped = (sinceStart s.trace).countP Ev.isDrop :=
  ⟨_, rfl, rfl, rfl, (@ring_refines_fifo 1 oneSlot
    (evictingRun ⟨2, [97], 0, true⟩ ⟨2, [98], 0, true⟩) _ rfl).2.2.2.1⟩

end HxClog
