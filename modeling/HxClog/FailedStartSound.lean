import HxClog.FailedStart

/-!
# What a failed start leaves behind

As long as the failure is not known, the invariants of the runs in which every start
succeeds hold of what the other threads see. Taking the start back keeps them if the
queue is empty and nobody sleeps; otherwise it breaks them, and for good.
-/

namespace HxClog

/-- The invariants of a run without failures. -/
structure Healthy (s : State) : Prop where
  control : Control s
  quiet : Quiet s.eng s.threads
  refines : Refines s
  stored : StoredStays s
  taken : TakenStays s

theorem healthy_step {s s' : State} {a : Act} (h : Healthy s) (ha : a.startsOk = true) (hst : step s a = some s') :
    Healthy s' := by
  have heff := step_effect h.control ha hst
  exact ⟨control_step h.control ha hst, quiet_turn h.quiet (step_turn h.control hst), h.refines.step heff,
    storedStays_step h.control h.stored heff, takenStays_step h.taken heff⟩

section
variable {s s' : State} {a : Act} {i : Nat} {c : Choice} {pc : Pc}

/-! ## Steps -/

theorem untried_get (hi : s.threads[i]? = some pc) : s.untried.threads[i]? = some pc.untried := by
  unfold State.untried
  rw [List.getElem?_map, hi]
  rfl

/-- The step is one of the run without failures. -/
theorem step_untried (hundo : s.undoes a = false) (hfail : s.fails a = false) (h : step s a = some s') :
    step s.untried a.created = some s'.untried := by
  cases a with
  | call i l =>
    simp only [step] at h
    split at h
    · rename_i hi
      cases h
      exact (if_pos (untried_get hi)).trans (congrArg some (untried_goto (s.log [.given i l]) i (.dispatch l) rfl))
    · cases h
  | callFlush i =>
    simp only [step] at h
    split at h
    · rename_i hi
      cases h
      exact (if_pos (untried_get hi)).trans (congrArg some
        (untried_goto (s.log [.flushCalled i]) i (.flush (s.trace.length + 1) .user) rfl))
    · cases h
  | callReconfigure i cfg =>
    simp only [step] at h
    split at h
    · rename_i hi
      cases h
      exact (if_pos (untried_get hi)).trans (congrArg some (untried_goto s i (.initLock cfg) rfl))
    · cases h
  | thread i c =>
    obtain ⟨pc, hi, h⟩ := Option.bind_eq_some_iff.mp h
    have hpc : pc ≠ .abortStart := by
      intro heq
      simp [State.undoes, hi, heq] at hundo
    refine Option.bind_eq_some_iff.mpr ⟨pc, ?_, threadMove_untried hpc (fun heq => ?_) h⟩
    · rw [untried_get hi, untried_self hpc]
    · simpa [State.fails, hi, heq] using hfail
  | spurious i =>
    obtain ⟨pc, hi, h⟩ := Option.bind_eq_some_iff.mp h
    split at h
    · rename_i hp
      have hpc : pc.untried = pc := by cases pc <;> first | rfl | cases hp
      cases h
      refine Option.bind_eq_some_iff.mpr ⟨pc, by rw [untried_get hi, hpc], (if_pos hp).trans ?_⟩
      exact congrArg some (untried_goto s i pc.wake (by rw [untried_wake, hpc]))
    · cases h
  | worker c => exact workerMove_untried h

theorem fails_untried (hfail : s.fails a = true) (h : step s a = some s') : s'.untried = s.untried := by
  cases a with
  | thread i c =>
    obtain ⟨pc, hi, h⟩ := Option.bind_eq_some_iff.mp h
    simp only [State.fails, hi, Option.some.injEq, Bool.and_eq_true, decide_eq_true_eq, Bool.not_eq_true'] at hfail
    obtain ⟨rfl, hno⟩ := hfail
    simp only [threadMove, hno, Bool.false_eq_true, if_false, Option.some.injEq] at h
    subst h
    obtain ⟨hlt, hget⟩ := List.getElem?_eq_some_iff.mp hi
    have hset : (s.threads.set i .abortStart).map Pc.untried = s.threads.map Pc.untried := by
      refine List.ext_getElem? fun j => ?_
      rw [List.map_set, List.getElem?_set]
      split
      · rename_i hj
        subst hj
        simp [hlt, hget, Pc.untried]
      · rfl
    unfold State.untried State.goto
    simp only [hset]
  | _ => cases hfail

/-- A thread that takes a start back is alone in the reconfiguration, and there is no worker. -/
theorem undoes_spec (hu : Healthy s.untried) (hundo : s.undoes a = true) :
    ∃ i, s.threads[i]? = some .abortStart ∧ s.eng.running = true ∧
      step s a = some ({ s with eng := asyncStartFailed s.eng }.goto i .unlock) := by
  cases a with
  | thread i c =>
    have hi : s.threads[i]? = some .abortStart := by simpa [State.undoes] using hundo
    obtain ⟨_, ⟨_, hr, _, hw⟩, _⟩ := phase_of_thread (untried_get hi) hu.control rfl
    have hfree : s.lockFree = true := by
      unfold State.lockFree
      rw [show s.worker = .none from hw]
    refine ⟨i, hi, hr, ?_⟩
    simp [step, hi, threadMove, hfree]
  | _ => cases hundo

theorem parked_untried (s : State) : Parked s.untried.threads ↔ Parked s.threads := by
  unfold Parked State.untried
  simp

/-- With nothing stored and nobody asleep, taking the start back is like never having started. -/
theorem healthy_undo {i : Nat} (hu : Healthy s) (hi : s.threads[i]? = some .create) (hcount : s.eng.count = 0)
    (hpark : ¬Parked s.threads) : Healthy ({ s with eng := asyncStartFailed s.eng }.goto i .unlock) := by
  obtain ⟨_, ⟨hm, hr, _, hw⟩, _⟩ := phase_of_thread hi hu.control rfl
  have hempty : s.eng.queued = [] := queued_of_count hcount
  have hgone : (asyncStartFailed s.eng).queued = [] := queued_of_count hcount
  have hpos := (hu.control.wf hr).pos
  refine ⟨⟨fun h => ?_, fun _ => hgone, fun h => ?_, fun h => ?_, ?_⟩, ⟨fun _ hp => ?_, fun _ _ => ?_⟩, ?_, ?_, ?_⟩
  · cases h
  · cases h
  · have hl : s.worker.leaving = true := h
    rw [hw] at hl
    cases hl
  · exact PhaseInv.next hi hu.control .unlock .settled rfl rfl rfl rfl (Or.inr ⟨hm, rfl, hw⟩)
  · exact hpark (parked_set hp rfl)
  · have hroom : s.eng.count < s.eng.capacity := by omega
    exact .inr hroom
  · obtain ⟨⟨q, hrun, hq⟩, hhand, hdropped⟩ := hu.refines
    exact ⟨⟨q, hrun, hq.trans (hempty.trans hgone.symm)⟩, hhand, hdropped⟩
  · have hst := hu.stored
    unfold StoredStays at hst ⊢
    rw [hempty, ← hgone] at hst
    exact hst
  · exact hu.taken

theorem healthy_untried_step (hu : Healthy s.untried) (h : step s a = some s')
    (hok : s.undoes a = true → s.eng.count = 0 ∧ ¬Parked s.threads) : Healthy s'.untried := by
  cases hundo : s.undoes a with
  | true =>
    obtain ⟨hcount, hpark⟩ := hok hundo
    obtain ⟨i, hi, _, hst⟩ := undoes_spec hu hundo
    rw [hst] at h
    cases h
    rw [← untried_goto _ i .unlock rfl]
    exact healthy_undo hu (untried_get hi) hcount fun hp => hpark ((parked_untried s).mp hp)
  | false =>
    cases hfail : s.fails a with
    | true => rwa [fails_untried hfail h]
    | false => exact healthy_step hu (created_startsOk a) (step_untried hundo hfail h)

/-! ## Nothing is stranded -/

theorem healthy_falls {l : Line} (hu : Healthy s.untried) (hr : s.eng.running = false)
    (hi : s.threads[i]? = some (.enqueue l) ∨ s.threads[i]? = some (.woken l)) (h : step s (.thread i c) = some s') :
    s' = s.goto i (.emit l) := by
  rcases hi with hi | hi
  · simp only [step, hi, Option.bind_some, threadMove] at h
    split at h
    · cases h
      rfl
    · split at h
      · have hoff : hxAsyncEnqueue s.eng l c.alloc = some .unavailable := by simp [hxAsyncEnqueue, hr]
        rw [hoff] at h
        cases h
        rfl
      · cases h
  · have hroom : ¬(s.eng.capacity ≤ s.eng.count ∧ s.eng.stop = false) := by
      rintro ⟨hfull, hs⟩
      rcases hu.quiet.settled hr hs with hnone | hlt
      · exact absurd rfl (List.countP_eq_zero.mp hnone _ (List.mem_of_getElem? (untried_get hi)))
      · exact absurd hlt (Nat.not_lt.mpr hfull)
    simp only [step, hi, Option.bind_some, threadMove] at h
    split at h
    · have hoff : asyncEnqueueBlock s.eng l c.alloc = some .unavailable := by
        unfold asyncEnqueueBlock
        rw [if_neg hroom]
        simp [hr]
      rw [hoff] at h
      cases h
      rfl
    · cases h

theorem nothing_stranded (hu : Healthy s.untried) : NothingStranded s :=
  ⟨hu.stored, hu.taken, hu.refines.dropped.trans (losses_fifoOps _),
    fun hr hp => hu.quiet.quiet (.inl hr) ((parked_untried s).mpr hp), fun hr _ _ _ _ hi h => healthy_falls hu hr hi h⟩

/-- If nothing is stranded afterwards, nothing was there to be stranded. -/
theorem undo_unnoticed (hu : Healthy s.untried) (hundo : s.undoes a = true) (h : step s a = some s')
    (hn : NothingStranded s') : s.eng.count = 0 ∧ ¬Parked s.threads := by
  obtain ⟨i, hi, hr, hst⟩ := undoes_spec hu hundo
  rw [hst] at h
  cases h
  refine ⟨?_, fun hp => ?_⟩
  · have hgone : (asyncStartFailed s.eng).queued = [] := by simp [asyncStartFailed, AsyncEngine.queued, Ring.contents]
    have hbefore := hu.stored
    have hafter := hn.stored
    unfold StoredStays at hbefore hafter
    have hq : s.eng.queued = [] := by
      refine (List.append_cancel_left (hbefore.symm.trans hafter)).trans ?_
      exact hgone
    exact (AsyncEngine.queued_length (hu.control.wf hr)).symm.trans (congrArg List.length hq)
  · obtain ⟨pc, hm, hpark⟩ := hp
    obtain ⟨j, hj⟩ := List.mem_iff_getElem?.mp hm
    have hne : i ≠ j := by
      rintro rfl
      cases hi.symm.trans hj
      cases hpark
    refine hn.awake rfl ⟨pc, List.mem_of_getElem? (i := j) ?_, hpark⟩
    exact (List.getElem?_set_ne hne).trans hj

end

/-! ## Every run -/

theorem healthy_init (n : Nat) (cfg : AsyncConfig) : Healthy (initState n cfg) := by
  refine ⟨control_init n cfg, (awake_init n cfg).toQuiet, refines_init n cfg, ?_, ?_⟩
  · unfold StoredStays initState
    cases cfg.mode <;> rfl
  · unfold TakenStays initState
    cases cfg.mode <;> rfl

theorem init_untried (n : Nat) (cfg : AsyncConfig) : (initState n cfg).untried = initState n cfg := by
  unfold State.untried initState
  simp [Pc.untried]

theorem FailsUnnoticed.tail {s t : State} {a : Act} {as : List Act} (hf : FailsUnnoticed s (a :: as))
    (h : step s a = some t) : FailsUnnoticed t as := by
  intro pre b post u has hu
  refine hf (a :: pre) b post u (by rw [has]; rfl) ?_
  rw [Transition.run_cons, h]
  exact hu

theorem healthy_untried_run : ∀ {as : List Act} {s t : State}, Healthy s.untried → FailsUnnoticed s as →
    Transition.run step s as = some t → Healthy t.untried
  | [], s, t, hu, _, hr => by
    cases hr
    exact hu
  | a :: as, s, t, hu, hf, hr => by
    rw [Transition.run_cons] at hr
    obtain ⟨s', hst, hr⟩ := Option.bind_eq_some_iff.mp hr
    exact healthy_untried_run (healthy_untried_step hu hst (hf [] a as s rfl rfl)) (hf.tail hst) hr

theorem unnoticed_run : ∀ {as : List Act} {s : State}, Healthy s.untried →
    (∀ pre post t, as = pre ++ post → Transition.run step s pre = some t → NothingStranded t) → FailsUnnoticed s as
  | [], s, _, _ => by
    intro pre a post t has
    cases pre <;> cases has
  | a :: as, s, hu, hall => by
    have hhere : s.undoes a = true → s.eng.count = 0 ∧ ¬Parked s.threads := by
      intro hundo
      obtain ⟨i, _, _, hst⟩ := undoes_spec hu hundo
      refine undo_unnoticed hu hundo hst (hall [a] as _ rfl ?_)
      rw [Transition.run_cons, hst]
      rfl
    intro pre b post t has ht hundo
    cases pre with
    | nil =>
      cases has
      cases ht
      exact hhere hundo
    | cons b' pre =>
      obtain ⟨rfl, htail⟩ := List.cons.inj has
      rw [Transition.run_cons] at ht
      obtain ⟨s', hst, ht⟩ := Option.bind_eq_some_iff.mp ht
      refine unnoticed_run (healthy_untried_step hu hst hhere) (fun pre' post' t' hsplit ht' => ?_) pre b post t htail ht hundo
      refine hall (a :: pre') post' t' (by rw [hsplit]; rfl) ?_
      rw [Transition.run_cons, hst]
      exact ht'

/-- Whoever starts what and whichever threads are created: nothing is stranded at any
moment of the run if and only if every start that fails is taken back unnoticed. -/
theorem failed_start_strands_iff (n : Nat) (cfg : AsyncConfig) (as : List Act) :
    (∀ pre post s, as = pre ++ post → Transition.run step (initState n cfg) pre = some s → NothingStranded s) ↔
      FailsUnnoticed (initState n cfg) as := by
  have hinit : Healthy (initState n cfg).untried := by
    rw [init_untried]
    exact healthy_init n cfg
  refine ⟨unnoticed_run hinit, fun hf pre post s has hr => nothing_stranded (healthy_untried_run hinit ?_ hr)⟩
  intro pre' a post' t hpre
  exact hf pre' a (post' ++ post) t (by rw [has, hpre, List.append_assoc]; rfl)

/-- Threads 0 and 1 have seen ASYNC when thread 2 restarts the engine. One stores its line and the
other goes to sleep on the full queue of one; then the worker cannot be created. -/
def strandingRun (l l' : Line) (cfg : AsyncConfig) : List Act :=
  [.call 0 l, .thread 0 {}, .call 1 l', .thread 1 {}, .callReconfigure 2 cfg] ++ List.replicate 6 (.thread 2 {}) ++
    [.worker {}, .worker {}] ++ List.replicate 4 (.thread 2 {}) ++
    [.thread 0 {}, .thread 1 {}, .thread 2 { created := false }, .thread 2 {}, .thread 2 {}]

/-- The stored line is gone without being counted, and the sleeper is left alone. -/
theorem failed_start_strands : ∃ s,
    Transition.run step (initState 3 ⟨.async, 1, 1, 0, .block⟩)
      (strandingRun shortLine shortLine ⟨.async, 1, 1, 0, .block⟩) = some s ∧
    s.threads = [.idle, .parked shortLine, .idle] ∧ s.eng.running = false ∧ s.worker = .none ∧
    storedLines s.trace = [shortLine] ∧ emittedLines s.trace = [] ∧ s.eng.queued = [] ∧ s.eng.dropped = 0 ∧
    ¬NothingStranded s := by
  refine ⟨_, rfl, rfl, rfl, rfl, rfl, rfl, rfl, rfl, fun h => ?_⟩
  exact h.awake rfl ⟨.parked shortLine, by decide, rfl⟩

end HxClog
