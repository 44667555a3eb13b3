import HxClog.FifoSound

/-!
# How far a flush is a barrier

`hx_async_flush` waits for an empty queue, and the worker takes a line out of
the queue before it writes it. So a flush that looks while the worker has a line
in its hand returns too early, for a FATAL record as well. Apart from that, and
from lines the worker skips for want of memory, a flush is a barrier: what was
accepted before the call is written, unless it was evicted, before the sinks are
flushed.
-/

namespace HxClog

open Fifo (Fate)

/-! ## Lines accepted before a flush -/

def acceptedBefore (tr : List Ev) (mark : Nat) : List Line := storedLines (tr.take mark)

/-- The first lines to leave the queue, as many as were accepted before `mark`. -/
def firstGone (tr : List Ev) (mark : Nat) : List (Line × Fate) :=
  (Fifo.left (fifoOps tr)).take (acceptedBefore tr mark).length

/-- The worker has a line in its hand that was accepted before `mark`: of the
lines accepted by then it has taken out more than it has written. -/
def State.holdsBefore (s : State) (mark : Nat) : Bool :=
  decide ((emittedLines s.trace).length < (Fifo.withFate .taken (firstGone s.trace mark)).length)

/-- What a flush called at `mark` is to have achieved when the trace is `tr`. -/
structure Barrier (tr : List Ev) (mark : Nat) (k : Caller) : Prop where
  accepted : acceptedBefore tr mark = (firstGone tr mark).map Prod.fst
  kept : ∀ p ∈ firstGone tr mark, p.2 = .taken ∨ p.2 = .evicted
  written : Fifo.withFate .taken (firstGone tr mark) <+: emittedLines tr
  settled : ∀ l, k = .fatal l → ∃ i, ∃ ev ∈ tr.take mark, ev ∈ settling i l

/-! ## The condition -/

/-- The worker gets the memory it asks for. -/
def Act.noSkip : Act → Bool
  | .worker c => c.alloc
  | _ => true

/-- Nobody reconfigures, the worker skips no line, and no flush finds the queue
empty while the worker holds a line accepted before the call. -/
def barrierOk (s : State) (a : Act) : Bool :=
  a.startsOk && a.noSkip &&
    match a.thread?.bind (s.threads[·]?) with
    | some (.initLock _) => false
    | some (.asyncFlush mark _) => s.eng.count != 0 || !s.holdsBefore mark
    | some (.flushWait mark _) => s.eng.count != 0 || !s.holdsBefore mark
    | _ => true

/-! ## Conservation over the whole trace -/

structure Conserved (s : State) : Prop where
  stored : storedLines s.trace = (Fifo.left (fifoOps s.trace)).map Prod.fst ++ s.eng.queued
  taken : emittedLines s.trace ++ s.hand = Fifo.withFate .taken (Fifo.left (fifoOps s.trace))
  kept : ∀ p ∈ Fifo.left (fifoOps s.trace), p.2 ≠ .discarded

theorem storedLines_append (xs ys : List Ev) : storedLines (xs ++ ys) = storedLines xs ++ storedLines ys :=
  List.filterMap_append

/-- What was stored has left the queue or is still in it. -/
def StoredStays (s : State) : Prop :=
  storedLines s.trace = (Fifo.left (fifoOps s.trace)).map Prod.fst ++ s.eng.queued

/-- What the worker took it has emitted or still holds. -/
def TakenStays (s : State) : Prop :=
  emittedLines s.trace ++ s.hand = Fifo.withFate .taken (Fifo.left (fifoOps s.trace))

section
variable {s s' : State} {a : Act}

theorem fifoOps_started (tr : List Ev) : fifoOps (tr ++ [.started]) = fifoOps tr := by
  rw [fifoOps_append]
  exact List.append_nil _

theorem storedStays_step (hc : Control s) (h : StoredStays s) (he : Effect a s s') : StoredStays s' := by
  unfold StoredStays at h ⊢
  rcases he.recorded with ⟨evs, r⟩ | ⟨_, ht, hq, _, hq', _, _⟩
  · obtain ⟨q, hqi⟩ : ∃ q : Fifo.Queue Line s.eng.capacity, q.items = s.eng.queued :=
      ⟨⟨s.eng.queued, queued_bounded hc⟩, rfl⟩
    obtain ⟨q', hrun, hqi'⟩ := r.queue q hqi
    have hcons := Fifo.run_conserves _ _ _ hrun
    rw [hqi, hqi', pushed_fifoOps] at hcons
    rw [r.trace, fifoOps_append, storedLines_append, h, List.append_assoc, hcons, Fifo.left_append, List.map_append,
      List.append_assoc]
  · rw [ht, fifoOps_started, storedLines_append, h, hq, hq']
    exact List.append_nil _

theorem takenStays_step (h : TakenStays s) (he : Effect a s s') : TakenStays s' := by
  unfold TakenStays at h ⊢
  rcases he.recorded with ⟨evs, r⟩ | ⟨_, ht, _, hh, _, hh', _⟩
  · rw [r.trace, fifoOps_append, emittedLines_append, Fifo.left_append, Fifo.withFate_append, ← h, List.append_assoc,
      List.append_assoc, r.hand]
  · rw [hh] at h
    rw [ht, fifoOps_started, emittedLines_append, hh', ← h]
    exact List.append_nil _

theorem Conserved.step (hc : Control s) (h : Conserved s) (hno : a.noSkip = true) (he : Effect a s s') :
    Conserved s' := by
  refine ⟨storedStays_step hc h.stored he, takenStays_step h.taken he, ?_⟩
  rcases he.recorded with ⟨evs, r⟩ | ⟨_, ht, _⟩
  · intro p hp
    rw [r.trace, fifoOps_append, Fifo.left_append, List.mem_append] at hp
    rcases hp with hp | hp
    · exact h.kept p hp
    · exact r.skips (fun c hact => by subst hact; exact hno) p hp
  · rw [ht, fifoOps_started]
    exact h.kept

end

/-! ## Delivery -/

/-- Everything accepted before `mark` has left the queue and, if taken, been written. -/
structure Delivered (tr : List Ev) (mark : Nat) : Prop where
  left : (acceptedBefore tr mark).length ≤ (Fifo.left (fifoOps tr)).length
  written : (Fifo.withFate .taken (firstGone tr mark)).length ≤ (emittedLines tr).length

theorem acceptedBefore_append {tr : List Ev} {mark : Nat} (hm : mark ≤ tr.length) (evs : List Ev) :
    acceptedBefore (tr ++ evs) mark = acceptedBefore tr mark := by
  unfold acceptedBefore
  rw [List.take_append_of_le_length hm]

theorem Delivered.append {tr : List Ev} {mark : Nat} (h : Delivered tr mark) (hm : mark ≤ tr.length) (evs : List Ev) :
    Delivered (tr ++ evs) mark := by
  have hacc := acceptedBefore_append hm evs
  have hgone : firstGone (tr ++ evs) mark = firstGone tr mark := by
    unfold firstGone
    rw [hacc, fifoOps_append, Fifo.left_append, List.take_append_of_le_length h.left]
  refine ⟨?_, ?_⟩
  · rw [hacc, fifoOps_append, Fifo.left_append, List.length_append]
    exact Nat.le_trans h.left (Nat.le_add_right _ _)
  · rw [hgone, emittedLines_append, List.length_append]
    exact Nat.le_trans h.written (Nat.le_add_right _ _)

theorem acceptedBefore_isPrefix (tr : List Ev) (mark : Nat) : acceptedBefore tr mark <+: storedLines tr := by
  unfold acceptedBefore
  refine ⟨storedLines (tr.drop mark), ?_⟩
  rw [← storedLines_append, List.take_append_drop]

/-- An empty queue and no line of the right age in the worker's hand. -/
theorem delivered_of_empty {s : State} (h : Conserved s) {mark : Nat} (hq : s.eng.queued = [])
    (hh : s.holdsBefore mark = false) : Delivered s.trace mark := by
  refine ⟨?_, ?_⟩
  · have hle := (acceptedBefore_isPrefix s.trace mark).length_le
    have hst := h.stored
    rw [hq, List.append_nil] at hst
    rwa [hst, List.length_map] at hle
  · unfold State.holdsBefore at hh
    exact Nat.le_of_not_lt (of_decide_eq_false hh)

theorem holdsBefore_of_hand {s : State} (h : Conserved s) (hh : s.hand = []) (mark : Nat) :
    s.holdsBefore mark = false := by
  have ht := h.taken
  rw [hh, List.append_nil] at ht
  refine decide_eq_false (Nat.not_lt_of_le ?_)
  rw [ht]
  exact ((List.take_sublist _ _).filterMap _).length_le

theorem Delivered.barrier {s : State} (h : Conserved s) {mark : Nat} {k : Caller} (hd : Delivered s.trace mark)
    (hk : ∀ l, k = .fatal l → ∃ i, ∃ ev ∈ s.trace.take mark, ev ∈ settling i l) : Barrier s.trace mark k := by
  refine ⟨?_, fun p hp => ?_, ?_, hk⟩
  · have hpre := acceptedBefore_isPrefix s.trace mark
    rw [h.stored] at hpre
    have heq := List.prefix_iff_eq_take.mp hpre
    rw [List.take_append_of_le_length (by rw [List.length_map]; exact hd.left), ← List.map_take] at heq
    exact heq
  · have hne := h.kept p (List.mem_of_mem_take hp)
    cases hf : p.2 with
    | taken => exact Or.inl rfl
    | evicted => exact Or.inr rfl
    | discarded => exact absurd hf hne
  · have hpre : Fifo.withFate .taken (firstGone s.trace mark) <+: emittedLines s.trace ++ s.hand := by
      rw [h.taken]
      refine ⟨Fifo.withFate .taken ((Fifo.left (fifoOps s.trace)).drop (acceptedBefore s.trace mark).length), ?_⟩
      unfold firstGone
      rw [← Fifo.withFate_append, List.take_append_drop]
    exact List.prefix_of_prefix_length_le hpre (List.prefix_append _ _) hd.written

/-! ## Threads inside `hx_clog_flush` -/

def Pc.flush? : Pc → Option (Nat × Caller)
  | .flush mark k => some (mark, k)
  | .asyncFlush mark k => some (mark, k)
  | .flushWait mark k => some (mark, k)
  | .flushSinks mark k => some (mark, k)
  | _ => none

@[simp] theorem wake_flush (pc : Pc) : pc.wake.flush? = pc.flush? := by cases pc <;> rfl

theorem flush_of_held {pc : Pc} {l : Line} (h : pc.held = some l) : pc.flush? = none := by
  cases pc <;> first | rfl | cases h

theorem flush_of_reconfiguring {pc : Pc} (h : pc.reconfiguring = true) : pc.flush? = none := by
  cases pc <;> first | rfl | cases h

theorem after_flush (k : Caller) : k.after.flush? = none := by cases k <;> rfl

/-- What holds of a call of `hx_clog_flush` at `mark`. -/
structure Called (tr : List Ev) (mark : Nat) (k : Caller) : Prop where
  bound : mark ≤ tr.length
  settled : ∀ l, k = .fatal l → ∃ i, ∃ ev ∈ tr.take mark, ev ∈ settling i l

def Pc.Marked (s : State) (pc : Pc) : Prop := ∀ mark k, pc.flush? = some (mark, k) → Called s.trace mark k

theorem Called.append {tr : List Ev} {mark : Nat} {k : Caller} (h : Called tr mark k) (evs : List Ev) :
    Called (tr ++ evs) mark k := by
  refine ⟨?_, ?_⟩
  · rw [List.length_append]; exact Nat.le_trans h.bound (Nat.le_add_right _ _)
  · rw [List.take_append_of_le_length h.bound]; exact h.settled

theorem marked_none {s : State} {pc : Pc} (h : pc.flush? = none) : pc.Marked s := by
  intro mark k hk
  rw [h] at hk
  cases hk

theorem marked_afterWrite {s : State} {i : Nat} {l : Line} {ev : Ev} (hm : ev ∈ s.trace) (hev : ev ∈ settling i l) :
    (afterWrite s.trace.length l).Marked s := by
  unfold afterWrite
  split
  · intro mark k hk
    cases hk
    refine ⟨Nat.le_refl _, fun l' h => ?_⟩
    cases h
    rw [List.take_length]
    exact ⟨i, ev, hm, hev⟩
  · exact marked_none rfl

theorem Pc.Marked.append {s s' : State} {pc : Pc} (h : pc.Marked s) (ht : ∃ evs, s'.trace = s.trace ++ evs) :
    pc.Marked s' := by
  obtain ⟨evs, ht⟩ := ht
  intro mark k hk
  rw [ht]
  exact (h mark k hk).append evs

/-- The marks of a thread that moves. -/
theorem marked_moves {a : Act} {s s' : State} {i : Nat} {pc pc' : Pc} (h : pc.Marked s) (hs : PcStep a s s' i pc pc')
    (ht : ∃ evs, s'.trace = s.trace ++ evs) : pc'.Marked s' := by
  cases hs with
  | call l => exact marked_none rfl
  | callFlush ht' =>
    intro mark k hk
    cases hk
    refine ⟨?_, fun l h => nomatch h⟩
    rw [ht', List.length_append]
    exact Nat.le_refl _
  | callReconfigure cfg => exact marked_none rfl
  | carry l _ _ _ h' => exact marked_none (flush_of_held h')
  | settle l _ _ evs ht' ev hm hev => exact marked_afterWrite (by rw [ht']; exact List.mem_append_right _ hm) hev
  | flushAsync mark k => exact Pc.Marked.append (fun m c hk => h m c hk) ht
  | flushSync mark k => exact Pc.Marked.append (fun m c hk => h m c hk) ht
  | flushPasses mark k _ hpc =>
    rcases hpc with rfl | rfl <;> exact Pc.Marked.append (fun m c hk => h m c hk) ht
  | flushWaits mark k _ hpc =>
    rcases hpc with rfl | rfl <;> exact Pc.Marked.append (fun m c hk => h m c hk) ht
  | flushed mark k => exact marked_none (after_flush k)
  | locked cfg hfree ht' =>
    intro mark k hk
    cases hk
    exact ⟨by rw [ht'], fun l h => nomatch h⟩
  | rejected cfg => exact marked_none rfl
  | reconfigure _ _ _ h' => exact marked_none (flush_of_reconfiguring h')
  | unlocked => exact marked_none rfl

theorem marked_step {s s' : State} {a : Act} (hm : ∀ pc ∈ s.threads, pc.Marked s) (h : step s a = some s')
    (ht : ∃ evs, s'.trace = s.trace ++ evs) : ∀ pc ∈ s'.threads, pc.Marked s' := by
  have hwake : ∀ pc : Pc, pc.wake.Marked s' ↔ pc.Marked s' := fun pc => by unfold Pc.Marked; rw [wake_flush]
  rcases step_threads h with ⟨_, hth, _⟩ | ⟨i, pc, pc', _, hi, hst⟩
  · exact hth.forall hwake fun pc hpc => (hm pc hpc).append ht
  · refine hst.threads.forall hwake (Pool.forall_set (fun pc hpc => (hm pc hpc).append ht) ?_)
    exact marked_moves (hm pc (List.mem_of_getElem? hi)) hst.step ht

/-! ## Runs before the stretch without a reconfiguration -/

structure Ready (s : State) : Prop where
  control : Control s
  conserved : Conserved s
  marked : ∀ pc ∈ s.threads, pc.Marked s
  logged : ∀ mark k, .flush mark k ∈ s.trace → mark ≤ s.trace.length

theorem Effect.extends {a : Act} {s s' : State} (h : Effect a s s') : ∃ evs, s'.trace = s.trace ++ evs := by
  rcases h.recorded with ⟨evs, r⟩ | ⟨_, ht, _⟩
  · exact ⟨evs, r.trace⟩
  · exact ⟨_, ht⟩

theorem Ready.step {s s' : State} {a : Act} (hr : Ready s) (ha : a.startsOk = true) (hno : a.noSkip = true)
    (h : step s a = some s') : Ready s' := by
  have he := step_effect hr.control ha h
  refine ⟨control_step hr.control ha h, hr.conserved.step hr.control hno he, marked_step hr.marked h he.extends, ?_⟩
  intro mark k hm
  rcases he.recorded with ⟨evs, r⟩ | ⟨_, ht, _⟩
  · rw [r.trace] at hm ⊢
    rw [List.length_append]
    rcases List.mem_append.mp hm with hm | hm
    · exact Nat.le_trans (hr.logged mark k hm) (Nat.le_add_right _ _)
    · obtain ⟨_, i, hi⟩ := r.flushes mark k hm
      exact Nat.le_trans (hr.marked _ (List.mem_of_getElem? hi) mark k rfl).bound (Nat.le_add_right _ _)
  · rw [ht] at hm ⊢
    rw [List.length_append]
    rcases List.mem_append.mp hm with hm | hm
    · exact Nat.le_trans (hr.logged mark k hm) (Nat.le_add_right _ _)
    · simp at hm

theorem ready_init (n : Nat) (cfg : AsyncConfig) : Ready (initState n cfg) := by
  refine ⟨control_init n cfg, ?_, fun pc hpc => ?_, fun _ _ h => (by cases h)⟩
  · cases hm : cfg.mode with
    | async =>
      refine ⟨?_, ?_, ?_⟩
      all_goals simp only [initState, hm]
      · rfl
      · rfl
      · intro _ h; cases h
    | sync =>
      refine ⟨?_, ?_, ?_⟩
      all_goals simp only [initState, hm]
      · rfl
      · rfl
      · intro _ h; cases h
  · have : pc = .idle := List.eq_of_mem_replicate hpc
    subst this
    exact marked_none rfl

/-! ## The stretch without a reconfiguration -/

/-- What a thread inside `hx_async_flush` may rely on, when it called after `opened`. -/
def Pc.Meets (opened : Nat) (s : State) : Pc → Prop
  | .flushWait mark _ => opened < mark → s.eng.flushRequest = true ∨ Delivered s.trace mark
  | .flushSinks mark _ => opened < mark → Delivered s.trace mark
  | _ => True

structure Window (opened : Nat) (s : State) : Prop where
  ready : Ready s
  mode : s.mode = .async
  alone : phases s.threads = []
  meets : ∀ pc ∈ s.threads, pc.Meets opened s
  flushes : ∀ (j mark : Nat) (k : Caller), s.trace[j]? = some (.flush mark k) → opened < mark →
    Barrier (s.trace.take j) mark k

theorem Window.up {opened : Nat} {s : State} (h : Window opened s) : Up s := by
  rcases h.ready.control.phase with ⟨_, _, ho⟩ | ⟨ph, hp, _, _⟩
  · rcases ho with ⟨_, hu⟩ | ⟨hm, _⟩
    · exact hu
    · rw [h.mode] at hm; cases hm
  · rw [h.alone] at hp; cases hp

theorem Window.phase_none {opened : Nat} {s : State} (h : Window opened s) {i : Nat} {pc : Pc}
    (hi : s.threads[i]? = some pc) : pc.phase? = none :=
  List.filterMap_eq_nil_iff.mp h.alone pc (List.mem_of_getElem? hi)

theorem Effect.request {a : Act} {s s' : State} (h : Effect a s s') (hr : s.eng.flushRequest = true) :
    s'.eng.flushRequest = true ∨ (s.eng.count = 0 ∧ s.hand = []) ∨
      ∃ (i : Nat) (cfg : AsyncConfig), s.threads[i]? = some (Pc.start cfg) := by
  cases h with
  | quiet _ _ _ same => exact (same.request hr).imp id Or.inl
  | flushed _ _ _ _ _ same => exact (same.request hr).imp id Or.inl
  | given _ _ _ same => exact (same.request hr).imp id Or.inl
  | direct _ _ _ same => exact (same.request hr).imp id Or.inl
  | refused _ _ _ _ _ _ he => exact Or.inl (by rw [he]; exact hr)
  | settled _ _ _ _ _ _ h => exact Or.inl (h.wf.2.1.flushRequest.trans hr)
  | skipped _ _ _ _ _ hsame => exact Or.inl (hsame.flushRequest.trans hr)
  | popped _ _ hsame => exact Or.inl (hsame.flushRequest.trans hr)
  | emitted _ _ he => exact Or.inl (by rw [he]; exact hr)
  | started i cfg hi => exact Or.inr (Or.inr ⟨i, cfg, hi⟩)

/-- A thread that stays where it is loses nothing. -/
theorem meets_stay {opened : Nat} {s s' : State} {pc : Pc} (hm : pc.Marked s) (h : pc.Meets opened s)
    (ht : ∃ evs, s'.trace = s.trace ++ evs)
    (hreq : s.eng.flushRequest = true → s'.eng.flushRequest = true ∨ ∀ mark, Delivered s.trace mark) :
    pc.Meets opened s' := by
  obtain ⟨evs, ht⟩ := ht
  cases pc with
  | flushWait mark k =>
    have hb := (hm mark k rfl).bound
    intro ho
    rcases h ho with hf | hd
    · rcases hreq hf with hf' | hall
      · exact Or.inl hf'
      · exact Or.inr (ht ▸ (hall mark).append hb evs)
    · exact Or.inr (ht ▸ hd.append hb evs)
  | flushSinks mark k =>
    intro ho
    exact ht ▸ (h ho).append (hm mark k rfl).bound evs
  | _ => trivial

theorem barrierOk_spec {s : State} {a : Act} (h : barrierOk s a = true) :
    a.startsOk = true ∧ a.noSkip = true ∧
    ∀ (i : Nat) (pc : Pc), a.thread? = some i → s.threads[i]? = some pc → (∀ cfg, pc ≠ .initLock cfg) ∧
      ∀ mark k, pc = .asyncFlush mark k ∨ pc = .flushWait mark k → s.eng.count = 0 → s.holdsBefore mark = false := by
  unfold barrierOk at h
  rw [Bool.and_eq_true, Bool.and_eq_true] at h
  refine ⟨h.1.1, h.1.2, fun i pc ha hi => ?_⟩
  have h2 := h.2
  rw [ha, Option.bind_some, hi] at h2
  refine ⟨?_, ?_⟩
  · rintro cfg rfl
    cases h2
  · rintro mark k (rfl | rfl) h0
    all_goals simpa [h0] using h2

/-- Whoever is outside a reconfiguration stays outside. -/
theorem phase_moves {a : Act} {s s' : State} {i : Nat} {pc pc' : Pc} (h : PcStep a s s' i pc pc')
    (hp : pc.phase? = none) (hl : ∀ cfg, pc ≠ .initLock cfg) : pc'.phase? = none ∧ pc.reconfiguring = false := by
  have hout : pc.reconfiguring = false := by
    cases pc with
    | initLock cfg => exact absurd rfl (hl cfg)
    | _ => first | rfl | cases hp
  refine ⟨?_, hout⟩
  cases h with
  | carry l _ _ _ h' => cases pc' <;> first | rfl | cases h'
  | settle => exact afterWrite_phase _ _
  | flushPasses mark k _ hpc => rcases hpc with rfl | rfl <;> exact hp
  | flushWaits mark k _ hpc => rcases hpc with rfl | rfl <;> exact hp
  | flushed mark k => exact (after_phase k).trans hp
  | locked cfg => exact absurd rfl (hl cfg)
  | reconfigure _ _ h => rw [hout] at h; cases h
  | flushAsync mark k => exact hp
  | flushSync mark k => exact hp
  | _ => rfl

/-- A thread that leaves `hx_async_flush` has what it came for. -/
theorem delivered_passes {opened : Nat} {s : State} (hw : Window opened s) {i : Nat} {pc : Pc} {mark : Nat} {k : Caller}
    (hi : s.threads[i]? = some pc) (hpc : pc = .asyncFlush mark k ∨ pc = .flushWait mark k) (h : FlushPasses s pc)
    (hold : s.eng.count = 0 → s.holdsBefore mark = false) (ho : opened < mark) : Delivered s.trace mark := by
  have hup := hw.up
  have hempty : s.eng.count = 0 → Delivered s.trace mark := fun h0 =>
    delivered_of_empty hw.ready.conserved (queued_of_count h0) (hold h0)
  rcases hpc with rfl | rfl
  · rcases h with h | h | h | h
    · rw [hw.ready.control.ready hup.running] at h; cases h
    · rw [hup.running] at h; cases h
    · rw [hup.stop] at h; cases h
    · exact hempty h
  · rcases h with h | h | h | h
    · rw [hup.running] at h; cases h
    · rw [hup.stop] at h; cases h
    · exact hempty h
    · rcases hw.meets _ (List.mem_of_getElem? hi) ho with hr | hd
      · rw [h] at hr; cases hr
      · exact hd

theorem meets_moves {opened : Nat} {a : Act} {s s' : State} (hw : Window opened s) {i : Nat} {pc pc' : Pc}
    (hi : s.threads[i]? = some pc) (h : PcStep a s s' i pc pc') (ht : ∃ evs, s'.trace = s.trace ++ evs)
    (hold : ∀ mark k, pc = .asyncFlush mark k ∨ pc = .flushWait mark k → s.eng.count = 0 →
      s.holdsBefore mark = false) : pc'.Meets opened s' := by
  have hmark := hw.ready.marked pc (List.mem_of_getElem? hi)
  obtain ⟨evs, ht⟩ := ht
  cases h with
  | carry l => cases pc' <;> trivial
  | settle l => unfold afterWrite; split <;> trivial
  | flushSync mark k hm => rw [hw.mode] at hm; cases hm
  | flushPasses mark k _ hpc hp =>
    intro ho
    have hb : mark ≤ s.trace.length := by
      rcases hpc with rfl | rfl <;> exact (hmark mark k rfl).bound
    exact ht ▸ (delivered_passes hw hi hpc hp (hold mark k hpc) ho).append hb evs
  | flushWaits mark k _ _ hr => exact fun _ => Or.inl hr
  | flushed mark k => cases k <;> trivial
  | reconfigure => cases pc' <;> trivial
  | _ => trivial

theorem Window.step {opened : Nat} {s s' : State} {a : Act} (hw : Window opened s) (hok : barrierOk s a = true)
    (h : step s a = some s') : Window opened s' := by
  obtain ⟨ha, hno, hpcs⟩ := barrierOk_spec hok
  have he := step_effect hw.ready.control ha h
  have hready := hw.ready.step ha hno h
  have hquiet : ¬ ∃ (i : Nat) (cfg : AsyncConfig), s.threads[i]? = some (Pc.start cfg) := by
    rintro ⟨i, cfg, hi⟩
    cases hw.phase_none hi
  have hreq : s.eng.flushRequest = true → s'.eng.flushRequest = true ∨ ∀ mark, Delivered s.trace mark := by
    intro hr
    rcases he.request hr with h' | ⟨h0, hh⟩ | h'
    · exact Or.inl h'
    · exact Or.inr fun mark => delivered_of_empty hw.ready.conserved (queued_of_count h0)
        (holdsBefore_of_hand hw.ready.conserved hh mark)
    · exact absurd h' hquiet
  have hstay : ∀ pc ∈ s.threads, pc.Meets opened s' := fun pc hpc =>
    meets_stay (hw.ready.marked pc hpc) (hw.meets pc hpc) he.extends hreq
  have hwake : ∀ pc : Pc, pc.wake.Meets opened s' ↔ pc.Meets opened s' := fun pc => by cases pc <;> exact Iff.rfl
  have hflushes : ∀ (j mark : Nat) (k : Caller), s'.trace[j]? = some (.flush mark k) → opened < mark →
      Barrier (s'.trace.take j) mark k := by
    intro j mark k hj ho
    rcases he.recorded with ⟨evs, r⟩ | ⟨hs, _⟩
    · rw [r.trace] at hj ⊢
      rcases Nat.lt_or_ge j s.trace.length with hlt | hge
      · rw [List.getElem?_append_left hlt] at hj
        rw [List.take_append_of_le_length (Nat.le_of_lt hlt)]
        exact hw.flushes j mark k hj ho
      · rw [List.getElem?_append_right hge] at hj
        obtain ⟨rfl, i, hi⟩ := r.flushes mark k (List.mem_of_getElem? hj)
        have hj0 : j = s.trace.length := by
          have := (List.getElem?_eq_some_iff.mp hj).1
          rw [List.length_singleton] at this
          omega
        rw [hj0, List.take_left]
        have hm := List.mem_of_getElem? hi
        exact Delivered.barrier hw.ready.conserved (hw.meets _ hm ho) (hw.ready.marked _ hm mark k rfl).settled
    · exact absurd hs hquiet
  rcases step_threads h with ⟨_, hth, hmode⟩ | ⟨i, pc, pc', hact, hi, hst⟩
  · refine ⟨hready, hmode.trans hw.mode, ?_, hth.forall hwake hstay, hflushes⟩
    exact (hth _ Pc.phase? wake_phase).trans hw.alone
  · obtain ⟨hl, hold⟩ := hpcs i pc hact hi
    obtain ⟨hp, hout⟩ := phase_moves hst.step (hw.phase_none hi) hl
    refine ⟨hready, (hst.mode hout).trans hw.mode, ?_, ?_, hflushes⟩
    · have hset := Pool.filterMap_set_same (f := Pc.phase?) hi (b := pc') (hp.trans (hw.phase_none hi).symm)
      exact (hst.threads _ Pc.phase? wake_phase).trans (hset.trans hw.alone)
    · exact hst.threads.forall hwake (Pool.forall_set hstay (meets_moves hw hi hst.step he.extends hold))

theorem window_open {s : State} (hr : Ready s) (hmode : s.mode = .async) (hlock : s.initLock = false) :
    Window s.trace.length s := by
  refine ⟨hr, hmode, ?_, fun pc hpc => ?_, fun j mark k hj ho => ?_⟩
  · rcases hr.control.phase with ⟨hp, _⟩ | ⟨_, _, hl, _⟩
    · exact hp
    · rw [hlock] at hl; cases hl
  · cases pc with
    | flushWait mark k => exact fun ho => absurd ((hr.marked _ hpc mark k rfl).bound) (Nat.not_le_of_lt ho)
    | flushSinks mark k => exact fun ho => absurd ((hr.marked _ hpc mark k rfl).bound) (Nat.not_le_of_lt ho)
    | _ => trivial
  · exact absurd (hr.logged mark k (List.mem_of_getElem? hj)) (Nat.not_le_of_lt ho)

/-- A flush called while the library is in ASYNC mode and nobody reconfigures is
a barrier, in every run that keeps to `barrierOk`. -/
theorem flush_is_barrier {n : Nat} {cfg : AsyncConfig} {as₀ as : List Act} {s₀ s : State}
    (h₀ : execute (fun a => a.startsOk && a.noSkip) n cfg as₀ = some s₀) (hmode : s₀.mode = .async)
    (hlock : s₀.initLock = false) (h : Transition.run (Transition.restrict barrierOk step) s₀ as = some s) :
    ∀ (j mark : Nat) (k : Caller), s.trace[j]? = some (.flush mark k) → s₀.trace.length < mark →
      Barrier (s.trace.take j) mark k := by
  have hr : Ready s₀ := execute_invariant (ready_init n cfg) (fun s a t hs ha hst => by
    rw [Bool.and_eq_true] at ha
    exact hs.step ha.1 ha.2 hst) h₀
  refine (Transition.run_invariant (I := Window s₀.trace.length) (fun s a t hs hst => ?_) as _ s
    (window_open hr hmode hlock) h).flushes
  obtain ⟨hok, hstep⟩ := Transition.restrict_some hst
  exact hs.step hok hstep

def fatalLine : Line := ⟨5, [97], 0, true⟩

/-- A FATAL record is queued and flushed; the worker emits it before the flush looks, or not. -/
def fatalRun (between : List Act) : List Act :=
  [.call 0 fatalLine, .thread 0 {}, .thread 0 {}, .worker {}, .worker {}] ++ between ++
    [.thread 0 {}, .thread 0 {}, .thread 0 {}]

theorem flush_is_barrier_fatal : ∃ s,
    Transition.run (Transition.restrict barrierOk step) (initState 1 ⟨.async, 4, 1, 0, .block⟩)
      (fatalRun [.worker {}]) = some s ∧
    s.trace[4]? = some (.flush 2 (.fatal fatalLine)) ∧ Barrier (s.trace.take 4) 2 (.fatal fatalLine) :=
  ⟨_, rfl, rfl, @flush_is_barrier 1 ⟨.async, 4, 1, 0, .block⟩ [] (fatalRun [.worker {}]) _ _
    rfl rfl rfl rfl 4 2 (.fatal fatalLine) rfl (by decide)⟩

/-- The write of a FATAL record returns while the record is in the worker's hand. -/
theorem fatal_flush_too_early : ∃ s,
    execute (fun a => a.startsOk && a.noSkip) 1 ⟨.async, 4, 1, 0, .block⟩ (fatalRun []) = some s ∧
    s.mode = .async ∧ s.initLock = false ∧ s.threads = [.idle] ∧
    s.trace[3]? = some (.flush 2 (.fatal fatalLine)) ∧
    acceptedBefore s.trace 2 = [fatalLine] ∧ evictedLines s.trace = [] ∧ emittedLines s.trace = [] ∧
    s.hand = [fatalLine] :=
  ⟨_, rfl, rfl, rfl, rfl, rfl, rfl, rfl, rfl, rfl⟩

end HxClog
