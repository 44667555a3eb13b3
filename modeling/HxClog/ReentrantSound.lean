import HxClog.ReentrantMoves

/-!
# When callbacks cannot deadlock

A run is without deadlock as long as no callback waits for the queue, no callback asks for
the configuration while a reconfiguration still has sinks to swap, and no producer is left
waiting on an engine whose worker could not be started. What a thread waits for then ranks
above whatever the thread waits for that can release it.
-/

namespace HxClog

namespace Reentrant

/-! ## Steps that keep clear -/

/-- The sinks have been swapped: what is left needs no other lock than the queue's. -/
def Thread.swapped (th : Thread) : Bool := th.outer.isEmpty && th.tasks.all Task.late

/-- A callback of the thread waits for `init_lock`. -/
def Thread.asksConfig (th : Thread) : Bool := th.inCallback && th.tasks.head? == some .getConfig

def Thread.aborts (th : Thread) : Bool := th.tasks.head? == some .abortStart

namespace State

/-- The next section of the thread ends in a wait for room in the queue. -/
def parks (s : State) (i : Nat) : Bool :=
  s.atTask i fun
    | .enqueue _ => s.primsReady && s.eng.running && !s.eng.stop && s.eng.overflow == .block &&
        decide (s.eng.capacity ≤ s.eng.count)
    | .woken _ => !s.eng.stop && decide (s.eng.capacity ≤ s.eng.count)
    | _ => false

/-- The next section of the thread ends in a wait for an empty queue. -/
def drains (s : State) (i : Nat) : Bool :=
  s.atTask i fun
    | .asyncFlush => s.primsReady && s.eng.running && !s.eng.stop && s.eng.count != 0
    | _ => false

end State

/-- No callback waits for the queue; nobody waits for room on an engine without a worker; a
callback asks for the configuration only where it does not meet a reconfiguration before its swap. -/
def clear (s : State) : Act → Bool
  | .call i .getConfig => !(s.thread i).inCallback || s.threads.all fun th => !th.holdsInit || th.swapped
  | .call _ _ => true
  | .spurious _ => true
  | .run i c =>
    (!(s.parks i || s.drains i) || !(s.thread i).inCallback) &&
    (!s.parks i || (s.eng.running && !s.threads.any Thread.aborts)) &&
    match (s.thread i).tasks with
    | .create :: _ => c.created || !s.threads.any Thread.isParked
    | .initLock _ :: _ => !s.threads.any Thread.asksConfig
    | _ => true

theorem Near.swapped {th th' : Thread} (h : Near th th') (hs : th.swapped = true) : th' = th := by
  obtain rfl | ⟨l, rest, ht, rfl⟩ := h
  · rfl
  · simp [Thread.swapped, ht, Task.late] at hs

/-! ## The invariant -/

def Task.starts : Task → Bool
  | .create => true
  | .abortStart => true
  | _ => false

/-- A wait for the queue that a thread cannot end by itself. -/
def Task.waitsQueue : Task → Bool
  | .parked _ => true
  | .flushWait => true
  | _ => false

structure Invariant (s : State) : Prop where
  proper : ∀ i, Proper (roleOf i) (s.thread i)
  alone : ∀ i j, (s.thread i).inCallback = true → (s.thread j).inCallback = true → i = j
  /-- no callback waits for the queue -/
  quiet : ∀ i, (s.thread i).inCallback = true → ∀ u us, (s.thread i).tasks = u :: us → u.waitsQueue = false
  /-- where a callback asks for the configuration, the sinks have been swapped -/
  asks : ∀ i us, (s.thread i).inCallback = true → (s.thread i).tasks = .getConfig :: us →
    ∀ j, (s.thread j).holdsInit = true → (s.thread j).swapped = true
  /-- an engine that is on has a worker, or is about to get one or to be given up -/
  served : s.eng.running = true → s.eng.stop = false →
    (s.thread 0).has Task.stays = true ∨ ∃ j u us, (s.thread j).tasks = u :: us ∧ u.starts = true
  /-- a producer waits for room where a worker will make it -/
  parked : ∀ i l rest, (s.thread i).tasks = .parked l :: rest → s.eng.stop = false ∧
    ((s.thread 0).has Task.stays = true ∨ ∃ j us, (s.thread j).tasks = .create :: us)

theorem ordinary_rests {t : Task} {r : Role} (h : t.ordinary r = true) :
    t.waitsQueue = false ∧ t ≠ .getConfig ∧ ∀ l, t ≠ .parked l := by
  cases t with
  | parked l => cases r <;> cases h
  | flushWait => cases r <;> cases h
  | getConfig => cases r <;> cases h
  | _ => exact ⟨rfl, nofun, nofun⟩

theorem entry_parked (l : Line) (r : Role) : (Task.parked l).entry r = false := by cases r <;> rfl

/-! ## Waits that begin -/

section
variable {s s₁ : State} {i : Nat} {c : Choice} {t u : Task} {rest next : List Task}

theorem block_waits {e : AsyncEngine} {l : Line} {alloc : Bool} (h : asyncEnqueueBlock e l alloc = some .wait) :
    e.capacity ≤ e.count ∧ e.stop = false := by
  unfold asyncEnqueueBlock at h
  split at h
  · assumption
  · split at h
    · cases h
    · obtain ⟨⟨e', stored, report⟩, -, h⟩ := Option.map_eq_some_iff.mp h
      cases h

theorem enqueue_waits {e : AsyncEngine} {l : Line} {alloc : Bool} (h : hxAsyncEnqueue e l alloc = some .wait) :
    e.running = true ∧ e.stop = false ∧ e.overflow = .block ∧ e.capacity ≤ e.count := by
  unfold hxAsyncEnqueue at h
  split at h
  · cases h
  · rename_i hup
    split at h
    · split at h
      · cases h
      · obtain ⟨⟨e', stored, report⟩, -, h⟩ := Option.map_eq_some_iff.mp h
        cases h
      · rename_i hpolicy
        obtain ⟨hfull, hstop⟩ := block_waits h
        refine ⟨?_, hstop, hpolicy, hfull⟩
        simpa [hstop] using hup
    · obtain ⟨⟨e', stored, report⟩, -, h⟩ := Option.map_eq_some_iff.mp h
      cases h

theorem ordinary_head {r : Role} (h : ∀ t ∈ next, t.ordinary r = true) (hu : next.head? = some u) : u.waitsQueue = false :=
  (ordinary_rests (h u (List.mem_of_mem_head? hu))).1

theorem settled_waits {l : Line} {q : Option Enqueue} (h : q.map (settle s l) = some (s₁, next))
    (hu : next.head? = some u) (hw : u.waitsQueue = true) : q = some .wait ∧ s = s₁ := by
  obtain ⟨q, rfl, heq⟩ := Option.map_eq_some_iff.mp h
  have hnext := settle_next s l q
  rw [heq] at hnext
  obtain rfl | rfl | ⟨rfl, -⟩ := hnext
  · cases hu
  · cases hu
    cases hw
  · cases heq
    exact ⟨rfl, rfl⟩

/-- A thread begins to wait for the queue only where `parks` and `drains` say so. -/
theorem perform_waits (ht : (s.thread i).tasks = t :: rest) (h : perform s i c t = some (s₁, next))
    (hu : next.head? = some u) (hw : u.waitsQueue = true) : s.parks i = true ∧ s = s₁ ∨ s.drains i = true ∧ u = .flushWait := by
  have hplain : ∀ r : Role, (∀ t ∈ next, t.ordinary r = true) → s.parks i = true ∧ s = s₁ ∨ s.drains i = true ∧ u = .flushWait := by
    intro r hall
    rw [ordinary_head hall hu] at hw
    cases hw
  cases t with
  | sinkSection => exact hplain .worker (lock_nil h)
  | dispatch l => exact hplain .callback (perform_common h (.inr (.inr ⟨l, rfl⟩)))
  | enqueue l =>
    simp only [perform] at h
    split at h
    · cases h
      cases hu
      cases hw
    · rename_i hprims
      split at h
      · obtain ⟨hwait, hs⟩ := settled_waits h hu hw
        obtain ⟨hrun, hstop, hpolicy, hfull⟩ := enqueue_waits hwait
        refine .inl ⟨atTask_iff.mpr ⟨_, rest, ht, ?_⟩, hs⟩
        simpa [hrun, hstop, hpolicy, hfull] using hprims
      · cases h
  | parked l => cases h
  | woken l =>
    simp only [perform] at h
    split at h
    · obtain ⟨hwait, hs⟩ := settled_waits h hu hw
      obtain ⟨hfull, hstop⟩ := block_waits hwait
      refine .inl ⟨atTask_iff.mpr ⟨_, rest, ht, ?_⟩, hs⟩
      simp [hstop, hfull]
    · cases h
  | emit l => cases h
  | flush => exact hplain .callback (perform_common h (.inl rfl))
  | flushMode => exact hplain .callback (perform_common h (.inr (.inl rfl)))
  | asyncFlush =>
    simp only [perform] at h
    split at h
    · cases h
      cases hu
    · rename_i hprims
      split at h
      · unfold asyncFlushEnter at h
        split at h
        · cases h
          cases hu
        · rename_i hbusy
          cases h
          split at hu
          · cases hu
          · rename_i hstop
            cases hu
            refine .inr ⟨atTask_iff.mpr ⟨_, rest, ht, ?_⟩, rfl⟩
            simp only [Bool.not_eq_true, Bool.not_eq_false', Bool.or_eq_false_iff, beq_eq_false_iff_ne, ne_eq] at hprims hbusy hstop
            simp [hprims, hbusy.1, hbusy.2, hstop]
      · cases h
  | flushWait => exact hplain .worker (lock_nil h)
  | getConfig => exact hplain .worker (lock_nil h)
  | initLock cfg => exact hplain .app (perform_locks h)
  | workerTop => exact hplain .worker (perform_works h rfl)
  | waiting => exact hplain .worker (perform_works h rfl)
  | notify => exact hplain .worker (perform_works h rfl)
  | batch written => exact hplain .worker (perform_works h rfl)
  | relock written => exact hplain .worker (perform_works h rfl)
  | _ => exact hplain .app fun u hu => reconfiguring_ordinary (perform_reconfigures h rfl u hu).1

end

/-! ## What a move keeps -/

section
variable {s s₁ : State} {i j : Nat} {a : Act} {th : Thread}

theorem Near.proper {th th' : Thread} {r : Role} (h : Near th th') (hp : Proper r th) : Proper r th' := by
  obtain rfl | ⟨l, rest, ht, rfl⟩ := h
  · exact hp
  · obtain ⟨hfits, hlayered⟩ := hp
    refine ⟨.inl ?_, hlayered⟩
    rw [ht] at hfits
    obtain hruns | ⟨u, hu, heq⟩ := hfits
    · refine ⟨fun t ht => ?_, hruns.2⟩
      cases ht
      obtain ho | ⟨-, hr⟩ := hruns.1 (.parked l) rfl
      · exact absurd rfl ((ordinary_rests ho).2.2 l)
      · exact .inr ⟨rfl, hr⟩
    · cases heq
      rw [entry_parked] at hu
      cases hu

theorem Moves.proper (h : Moves s i a s₁ th) (hi : i < s.threads.length) (hs : Invariant s) :
    ∀ j, Proper (roleOf j) ((s₁.put i th).thread j) := by
  refine put_threads (h.length ▸ hi) ?_ fun j _ => ?_
  · have hp := hs.proper i
    cases h with
    | call rq hmay => exact ⟨request_fits (mayCall_role hmay), hp.layered⟩
    | enter c l rest ht hfree =>
      have hrest := Fits.behind (ht ▸ hp.fits)
      exact ⟨.inl ⟨nofun, nofun⟩, hrest, hp.layered⟩
    | goes c t rest next _ ht hperform =>
      have hfits := hp.fits
      rw [ht] at hfits
      exact ⟨.inl ((perform_runs hperform hfits).append hfits.behind), hp.layered⟩
    | leave c rest outer ht ho =>
      have hl := hp.layered
      rw [ho] at hl
      exact ⟨.inl (runs_of_ordinary hl.1), hl.2⟩
    | spurious l rest ht =>
      have hwoken : Near (s.thread i) ⟨.woken l :: rest, (s.thread i).outer⟩ := .inr ⟨l, rest, ht, rfl⟩
      exact hwoken.proper hp
  · rcases h.others j with hn | ⟨rfl, hth, -⟩
    · exact hn.proper (hs.proper j)
    · rw [hth]
      exact ⟨.inl ⟨fun t ht => by cases ht; exact .inl rfl, nofun⟩, trivial⟩

theorem inCallback_iff {th : Thread} : th.inCallback = true ↔ th.outer ≠ [] := by
  unfold Thread.inCallback
  cases th.outer with
  | nil => simp
  | cons ts outer => simp

/-- A thread comes into a callback only where no other is in one. -/
theorem Moves.inCallback (h : Moves s i a s₁ th) (hc : th.inCallback = true) :
    (s.thread i).inCallback = true ∨ ∀ j, j ≠ i → (s.thread j).inCallback = false := by
  cases h with
  | enter c l rest ht hfree => exact .inr (sinkFree_iff.mp hfree)
  | leave c rest outer ht ho => exact .inl (inCallback_iff.mpr (by rw [ho]; simp))
  | _ => exact .inl hc

theorem Moves.stillCallback (h : Moves s i a s₁ th) (hj : (s₁.thread j).inCallback = true) : (s.thread j).inCallback = true := by
  rcases h.others j with hn | ⟨-, hth, -⟩
  · rw [← hn.inCallback]
    exact hj
  · rw [hth] at hj
    cases hj

theorem Moves.alone (h : Moves s i a s₁ th) (hi : i < s.threads.length) (hs : Invariant s) (j k : Nat)
    (hj : ((s₁.put i th).thread j).inCallback = true) (hk : ((s₁.put i th).thread k).inCallback = true) : j = k := by
  have hi₁ : i < s₁.threads.length := h.length ▸ hi
  -- the thread that moved, or a thread that was in a callback before
  have hbefore : ∀ j, ((s₁.put i th).thread j).inCallback = true → j ≠ i → (s.thread j).inCallback = true := by
    intro j hj hne
    rw [put_other (Ne.symm hne)] at hj
    exact h.stillCallback hj
  have hself : ∀ j, ((s₁.put i th).thread j).inCallback = true → j ≠ i → ((s₁.put i th).thread i).inCallback = true → False := by
    intro j hj hne hth
    rw [put_self hi₁] at hth
    rcases h.inCallback hth with hin | hothers
    · exact hne (hs.alone j i (hbefore j hj hne) hin)
    · have hin := hbefore j hj hne
      rw [hothers j hne] at hin
      cases hin
  by_cases hji : j = i
  · by_cases hki : k = i
    · rw [hji, hki]
    · exact (hself k hk hki (hji ▸ hj)).elim
  · by_cases hki : k = i
    · exact (hself j hj hji (hki ▸ hk)).elim
    · exact hs.alone j k (hbefore j hj hji) (hbefore k hk hki)

/-- A thread comes to a wait for the queue only where `parks` and `drains` say so. -/
theorem Moves.waits (h : Moves s i a s₁ th) (hs : Invariant s) {u : Task} {us : List Task} (hu : th.tasks = u :: us)
    (hw : u.waitsQueue = true) :
    th.outer = (s.thread i).outer ∧ (s.parks i = true ∧ s = s₁ ∨ s.drains i = true ∧ u = .flushWait) ∧ ∃ c, a = .run i c := by
  have hordinary : ∀ {r : Role} {ts : List Task}, (∀ t ∈ ts, t.ordinary r = true) → ts = u :: us → False := by
    intro r ts hts heq
    have := (ordinary_rests (hts u (heq ▸ List.mem_cons_self))).1
    rw [hw] at this
    cases this
  have hp := hs.proper i
  cases h with
  | call rq hmay =>
    have hlacks : rq.tasks.any Task.waitsQueue = false :=
      request_lacks rq (fun t ht => (ordinary_rests (r := .callback) ht).1) rfl fun _ => rfl
    rw [show rq.tasks = u :: us from hu, List.any_cons, hw] at hlacks
    cases hlacks
  | enter c l rest ht hfree => cases hu
  | goes c t rest next _ ht hperform =>
    refine ⟨rfl, ?_, c, rfl⟩
    cases next with
    | nil => exact (hordinary (Fits.behind (ht ▸ hp.fits)) hu).elim
    | cons v next =>
      cases hu
      exact perform_waits ht hperform rfl hw
  | leave c rest outer ht ho =>
    have hl := hp.layered
    rw [ho] at hl
    exact (hordinary hl.1 hu).elim
  | spurious l rest ht =>
    cases hu
    cases hw

/-- A thread comes to ask for the configuration by its call only. -/
theorem Moves.getConfig (h : Moves s i a s₁ th) (hs : Invariant s) {us : List Task} (hu : th.tasks = .getConfig :: us) :
    a = .call i .getConfig ∧ s = s₁ ∧ (s.thread i).tasks = [] ∧ th = ⟨[.getConfig], (s.thread i).outer⟩ := by
  have hordinary : ∀ {r : Role} {ts : List Task}, (∀ t ∈ ts, t.ordinary r = true) → ts = .getConfig :: us → False := by
    intro r ts hts heq
    exact (ordinary_rests (hts .getConfig (heq ▸ List.mem_cons_self))).2.1 rfl
  have hp := hs.proper i
  cases h with
  | call rq hmay =>
    cases rq with
    | getConfig => exact ⟨rfl, rfl, mayCall_idle hmay, rfl⟩
    | write records =>
      refine (hordinary (r := .callback) (fun t ht => ?_) hu).elim
      obtain ⟨rec, -, ht⟩ := List.mem_flatMap.mp ht
      exact record_common rec t ht
    | flush => cases hu
    | getSinkCount => cases hu
    | reconfigure cfg => cases hu
  | enter c l rest ht hfree => cases hu
  | goes c t rest next _ ht hperform =>
    have hfits := hp.fits
    rw [ht] at hfits
    cases next with
    | nil => exact (hordinary hfits.behind hu).elim
    | cons v next =>
      cases hu
      rcases (perform_runs hperform hfits).1 .getConfig rfl with ho | ⟨hr, -⟩
      · exact absurd rfl (ordinary_rests ho).2.1
      · cases hr
  | leave c rest outer ht ho =>
    have hl := hp.layered
    rw [ho] at hl
    exact (hordinary hl.1 hu).elim
  | spurious l rest ht => cases hu

theorem clear_run {c : Choice} (h : clear s (.run i c) = true) :
    (s.parks i = true ∨ s.drains i = true → (s.thread i).inCallback = false) ∧
      (s.parks i = true → s.threads.any Thread.aborts = false ∧ s.eng.running = true) ∧
      (∀ rest, (s.thread i).tasks = .create :: rest → c.created = false → s.threads.any Thread.isParked = false) ∧
      ∀ cfg rest, (s.thread i).tasks = .initLock cfg :: rest → s.threads.any Thread.asksConfig = false := by
  simp only [clear, Bool.and_eq_true, Bool.or_eq_true, Bool.not_eq_true', Bool.or_eq_false_iff] at h
  obtain ⟨⟨hqueue, hparks⟩, hend⟩ := h
  refine ⟨fun hw => ?_, fun hp => ?_, fun rest ht hfail => ?_, fun cfg rest ht => ?_⟩
  · rcases hqueue with ⟨hnp, hnd⟩ | hout
    · rw [hnp, hnd] at hw
      simp at hw
    · exact hout
  · rw [hp] at hparks
    simpa [and_comm] using hparks
  · rw [ht] at hend
    simpa [hfail] using hend
  · rw [ht] at hend
    simpa using hend

theorem Moves.quiet (h : Moves s i a s₁ th) (hi : i < s.threads.length) (hs : Invariant s) (hc : clear s a = true) :
    ∀ j, ((s₁.put i th).thread j).inCallback = true →
      ∀ u us, ((s₁.put i th).thread j).tasks = u :: us → u.waitsQueue = false := by
  refine put_threads (P := fun _ th => th.inCallback = true → ∀ u us, th.tasks = u :: us → u.waitsQueue = false)
    (h.length ▸ hi) ?_ fun j _ hj u us hu => ?_
  · intro hin u us hu
    by_contra hw
    rw [Bool.not_eq_false] at hw
    obtain ⟨houter, hwait, c, rfl⟩ := h.waits hs hu hw
    have hinside : (s.thread i).inCallback = true := by
      rw [inCallback_iff, ← houter]
      exact inCallback_iff.mp hin
    have hout : (s.thread i).inCallback = false := (clear_run hc).1 (hwait.imp And.left And.left)
    rw [hinside] at hout
    cases hout
  · rcases h.others j with hn | ⟨-, hth, -⟩
    · by_contra hw
      rw [Bool.not_eq_false] at hw
      have hbefore := hn.head hu fun l hl => by rw [hl] at hw; cases hw
      have := hs.quiet j (h.stillCallback hj) u us hbefore
      rw [hw] at this
      cases this
    · rw [hth] at hj
      cases hj

theorem calls_unlock {ts : List Task} (h : Calls ts) : ∀ u ∈ ts, u ≠ .initUnlock := by
  rintro u hu rfl
  cases ts with
  | nil => cases hu
  | cons t ts =>
    rcases List.mem_cons.mp hu with rfl | hu
    · rcases h.1 _ rfl with hc | hr
      · cases hc
      · cases hr
    · cases h.2 _ hu

/-- Only the beginning of a reconfiguration leads to its end. -/
theorem perform_unlock {c : Choice} {t : Task} {next : List Task} (h : perform s i c t = some (s₁, next))
    (hlock : ∀ cfg, t ≠ .initLock cfg) : ∀ u ∈ next, u ≠ .initUnlock := by
  by_cases hc : t.common = true ∨ t.resting = true ∨ t = .getConfig
  · exact calls_unlock (perform_calls h hc)
  · by_cases hrec : t.reconfiguring = true
    · exact fun u hu => (perform_reconfigures h hrec u hu).2.1
    · by_cases hw : t.ofWorker = true
      · rintro u hu rfl
        cases perform_works h hw _ hu
      · cases t with
        | initLock cfg => exact absurd rfl (hlock cfg)
        | _ => simp [Task.common, Task.resting, Task.reconfiguring, Task.ofWorker] at hc hrec hw

/-- A thread comes to hold `init_lock` only at the beginning of a reconfiguration. -/
theorem Moves.holdsInit (h : Moves s i a s₁ th) (hold : th.holdsInit = true) :
    (s.thread i).holdsInit = true ∨ ∃ c cfg rest, a = .run i c ∧ (s.thread i).tasks = .initLock cfg :: rest := by
  have hth : s.thread i = ⟨(s.thread i).tasks, (s.thread i).outer⟩ := rfl
  cases h with
  | call rq hmay =>
    left
    have hlacks : rq.tasks.any (· == .initUnlock) = false :=
      request_lacks rq (fun t ht => by cases t <;> first | rfl | cases ht) rfl fun _ => rfl
    rw [hth, mayCall_idle hmay]
    unfold Thread.holdsInit at hold ⊢
    rw [has_nil]
    simpa [Thread.has, hlacks] using hold
  | enter c l rest ht hfree =>
    left
    unfold Thread.holdsInit at hold ⊢
    rw [has_enter] at hold
    rw [has_tasks ht, hold, Bool.or_true]
  | goes c t rest next _ ht hperform =>
    by_cases hlock : ∃ cfg, t = .initLock cfg
    · obtain ⟨cfg, rfl⟩ := hlock
      exact .inr ⟨c, cfg, rest, rfl, ht⟩
    · left
      have hnext : next.any (· == .initUnlock) = false := by
        rw [List.any_eq_false]
        intro u hu
        simpa using perform_unlock hperform (fun cfg heq => hlock ⟨cfg, heq⟩) u hu
      unfold Thread.holdsInit at hold ⊢
      rw [has_append, hnext, Bool.false_or] at hold
      rw [has_tasks ht, hold, Bool.or_true]
  | leave c rest outer ht ho =>
    left
    unfold Thread.holdsInit at hold ⊢
    rw [hth, ht, ho, has_enter]
    exact hold
  | spurious l rest ht =>
    left
    unfold Thread.holdsInit at hold ⊢
    rw [has_cons] at hold
    rw [has_tasks ht]
    exact hold

theorem swapped_iff {th : Thread} : th.swapped = true ↔ th.outer = [] ∧ ∀ t ∈ th.tasks, t.late = true := by
  simp [Thread.swapped]

/-- Behind the swap a reconfiguration stays behind it. -/
theorem Moves.swapped (h : Moves s i a s₁ th) (hsw : (s.thread i).swapped = true) (hold : (s.thread i).holdsInit = true) :
    th.swapped = true := by
  obtain ⟨houter, hlate⟩ := swapped_iff.mp hsw
  cases h with
  | call rq hmay =>
    unfold Thread.holdsInit Thread.has at hold
    rw [mayCall_idle hmay, houter] at hold
    cases hold
  | enter c l rest ht hfree => cases hlate (.emit l) (by rw [ht]; exact List.mem_cons_self)
  | goes c t rest next _ ht hperform =>
    rw [ht] at hlate
    have htlate := hlate t List.mem_cons_self
    have hrec : t.reconfiguring = true := by cases t <;> first | rfl | cases htlate
    refine swapped_iff.mpr ⟨houter, fun u hu => ?_⟩
    rcases List.mem_append.mp hu with hu | hu
    · exact (perform_reconfigures hperform hrec u hu).2.2 htlate
    · exact hlate u (List.mem_cons_of_mem _ hu)
  | leave c rest outer ht ho =>
    rw [houter] at ho
    cases ho
  | spurious l rest ht => cases hlate (.parked l) (by rw [ht]; exact List.mem_cons_self)

theorem Moves.asks (h : Moves s i a s₁ th) (hi : i < s.threads.length) (hs : Invariant s) (hc : clear s a = true)
    (j : Nat) (us : List Task) (hj : ((s₁.put i th).thread j).inCallback = true)
    (hus : ((s₁.put i th).thread j).tasks = .getConfig :: us) :
    ∀ k, ((s₁.put i th).thread k).holdsInit = true → ((s₁.put i th).thread k).swapped = true := by
  have hi₁ : i < s₁.threads.length := h.length ▸ hi
  by_cases hij : i = j
  · -- the call itself: it meets no reconfiguration before its swap
    subst hij
    rw [put_self hi₁] at hj hus
    obtain ⟨rfl, rfl, hidle, rfl⟩ := h.getConfig hs hus
    have hin : (s.thread i).inCallback = true := hj
    simp only [clear, hin, Bool.not_true, Bool.false_or, List.all_eq_true] at hc
    have hbefore : ∀ k, (s.thread k).holdsInit = true → (s.thread k).swapped = true := by
      intro k hold
      by_cases hk : k < s.threads.length
      · have := hc _ (thread_mem hk)
        rw [hold] at this
        exact this
      · rw [thread_absent (Nat.le_of_not_lt hk)] at hold
        cases hold
    refine put_threads (P := fun _ th => th.holdsInit = true → th.swapped = true) hi₁ (fun hold => ?_) fun k _ => hbefore k
    -- the callback's own calls do not hold the lock
    rcases h.holdsInit hold with hold | ⟨c, cfg, rest, heq, -⟩
    · have hout := (swapped_iff.mp (hbefore i hold)).1
      exact absurd hout (inCallback_iff.mp hin)
    · cases heq
  · rw [put_other hij] at hj hus
    have hbefore : (s.thread j).tasks = .getConfig :: us ∧ (s.thread j).inCallback = true := by
      rcases h.others j with hn | ⟨-, hth, -⟩
      · exact ⟨hn.head hus nofun, h.stillCallback hj⟩
      · rw [hth] at hj
        cases hj
    have hswapped := hs.asks j us hbefore.2 hbefore.1
    refine put_threads (P := fun _ th => th.holdsInit = true → th.swapped = true) hi₁ (fun hold => ?_) fun k _ hold => ?_
    · rcases h.holdsInit hold with hold | ⟨c, cfg, rest, rfl, ht⟩
      · exact h.swapped (hswapped i hold) hold
      · -- no callback waits while a reconfiguration begins
        have hnone := (clear_run hc).2.2.2 cfg rest ht
        have hasks : (s.thread j).asksConfig = true := by
          unfold Thread.asksConfig
          rw [hbefore.1, hbefore.2]
          rfl
        have hany := (any_threads (s := s) (p := Thread.asksConfig) rfl).mpr ⟨j, hasks⟩
        rw [hnone] at hany
        cases hany
    · rcases h.others k with hn | ⟨-, hth, -⟩
      · have hhas : (s.thread k).holdsInit = true := by
          rw [← hold]
          exact (hn.has fun l => rfl).symm
        have hsw := hswapped k hhas
        rw [hn.swapped hsw]
        exact hsw
      · rw [hth] at hold
        cases hold

/-- The worker goes on unless it is told to stop. -/
theorem Moves.stays (h : Moves s i a s₁ th) (hi : i < s.threads.length) (hstop : s.eng.stop = false)
    (hstays : (s.thread 0).has Task.stays = true) : ((s₁.put i th).thread 0).has Task.stays = true := by
  have hth : s.thread i = ⟨(s.thread i).tasks, (s.thread i).outer⟩ := rfl
  by_cases h0 : i = 0
  · subst h0
    rw [put_self (h.length ▸ hi)]
    cases h with
    | call rq hmay =>
      rw [hth, mayCall_idle hmay, has_nil] at hstays
      unfold Thread.has
      rw [List.any_cons, hstays, Bool.or_true]
    | enter c l rest ht hfree =>
      rw [has_enter]
      rw [has_tasks ht] at hstays
      exact hstays
    | goes c t rest next _ ht hperform =>
      rw [has_tasks ht] at hstays
      rw [has_append]
      rcases Bool.or_eq_true_iff.mp hstays with ht | hrest
      · rcases (perform_performed hperform).stays ht with hn | hs
        · rw [hn, Bool.true_or]
        · rw [hstop] at hs
          cases hs
      · rw [hrest, Bool.or_true]
    | leave c rest outer ht ho =>
      rw [hth, ht, ho, has_enter] at hstays
      exact hstays
    | spurious l rest ht =>
      rw [has_tasks ht] at hstays
      rw [has_cons]
      exact hstays
  · rw [put_other h0]
    rcases h.others 0 with hn | ⟨-, hfresh, -⟩
    · rw [hn.has fun l => rfl]
      exact hstays
    · rw [hfresh]
      rfl

/-- A thread that does not move stays at its section. -/
theorem Moves.keeps (h : Moves s i a s₁ th) {k : Nat} (hk : k ≠ i) {u : Task} {us : List Task}
    (hu : (s.thread k).tasks = u :: us) (hp : ∀ l, u ≠ .parked l) :
    ((s₁.put i th).thread k).tasks = u :: us ∨ ((s₁.put i th).thread 0).has Task.stays = true := by
  rcases h.others k with hn | ⟨rfl, hfresh, -⟩
  · left
    rw [put_other (Ne.symm hk)]
    obtain heq | ⟨l, rest, ht, -⟩ := hn
    · rw [heq]
      exact hu
    · rw [hu] at ht
      cases ht
      exact absurd rfl (hp l)
  · right
    rw [put_other (Ne.symm hk), hfresh]
    rfl

/-- The start of a worker ends with the worker, or with the engine given up. -/
theorem create_ends (hs : Invariant s) (hi : i < s.threads.length) {c : Choice} {rest next : List Task}
    (ht : (s.thread i).tasks = .create :: rest) (h : perform s i c .create = some (s₁, next)) :
    c.created = true ∧ ((s₁.put i th).thread 0).has Task.stays = true ∨ c.created = false ∧ next = [.abortStart] := by
  have hne : i ≠ 0 := by
    rintro rfl
    have hfits := (hs.proper 0).fits
    rw [ht] at hfits
    obtain hruns | ⟨u, hu, heq⟩ := hfits
    · rcases hruns.1 .create rfl with ho | ⟨hr, -⟩
      · unfold layer at ho
        split at ho
        · cases ho
        · cases ho
      · cases hr
    · cases heq
      unfold layer at hu
      split at hu
      · cases hu
      · cases hu
  simp only [perform] at h
  split at h
  · rename_i hcreated
    cases h
    refine .inl ⟨hcreated, ?_⟩
    rw [put_other hne, put_self (Nat.zero_lt_of_lt hi)]
    rfl
  · rename_i hcreated
    cases h
    exact .inr ⟨by simpa using hcreated, rfl⟩

/-- Threads that do not move see to it that an engine which is on is served. -/
theorem Moves.stillServed (h : Moves s i a s₁ th) (hi : i < s.threads.length) (hs : Invariant s)
    (hrun : s.eng.running = true) (hstop : s.eng.stop = false)
    (hself : ∀ u us, (s.thread i).tasks = u :: us → u.starts = false) :
    ((s₁.put i th).thread 0).has Task.stays = true ∨
      ∃ j u us, ((s₁.put i th).thread j).tasks = u :: us ∧ u.starts = true := by
  rcases hs.served hrun hstop with hstays | ⟨j, u, us, hu, hstart⟩
  · exact .inl (h.stays hi hstop hstays)
  · have hj : j ≠ i := by
      rintro rfl
      rw [hself u us hu] at hstart
      cases hstart
    rcases h.keeps hj hu (fun l hl => by rw [hl] at hstart; cases hstart) with hkept | hstays
    · exact .inr ⟨j, u, us, hkept, hstart⟩
    · exact .inl hstays

theorem Moves.served (h : Moves s i a s₁ th) (hi : i < s.threads.length) (hs : Invariant s)
    (hrun : s₁.eng.running = true) (hstop : s₁.eng.stop = false) :
    ((s₁.put i th).thread 0).has Task.stays = true ∨
      ∃ j u us, ((s₁.put i th).thread j).tasks = u :: us ∧ u.starts = true := by
  have hi₁ : i < s₁.threads.length := h.length ▸ hi
  cases h with
  | call rq hmay =>
    refine (Moves.call rq hmay).stillServed hi hs hrun hstop fun u us hu => ?_
    rw [mayCall_idle hmay] at hu
    cases hu
  | enter c l rest ht hfree =>
    refine (Moves.enter c l rest ht hfree).stillServed hi hs hrun hstop fun u us hu => ?_
    rw [ht] at hu
    cases hu
    rfl
  | goes c t rest next _ ht hp =>
    rcases (perform_performed hp).on hrun hstop with ⟨hr, hst⟩ | rfl
    · cases hstarts : t.starts with
      | false =>
        refine (Moves.goes c t rest next s₁ ht hp).stillServed hi hs hr hst fun u us hu => ?_
        rw [ht] at hu
        cases hu
        exact hstarts
      | true =>
        cases t with
        | create =>
          rcases create_ends hs hi ht hp with ⟨-, hstays⟩ | ⟨-, rfl⟩
          · exact .inl hstays
          · exact .inr ⟨i, .abortStart, rest, by rw [put_self hi₁]; rfl, rfl⟩
        | abortStart =>
          simp only [perform] at hp
          split at hp
          · cases hp
            cases hrun
          · cases hp
        | _ => cases hstarts
    · exact .inr ⟨i, .create, rest, by rw [put_self hi₁]; rfl, rfl⟩
  | leave c rest outer ht ho =>
    refine (Moves.leave c rest outer ht ho).stillServed hi hs hrun hstop fun u us hu => ?_
    rw [ht] at hu
    cases hu
  | spurious l rest ht =>
    refine (Moves.spurious l rest ht).stillServed hi hs hrun hstop fun u us hu => ?_
    rw [ht] at hu
    cases hu
    rfl

theorem parks_stop (h : s.parks i = true) : s.eng.stop = false := by
  obtain ⟨t, rest, -, ht⟩ := atTask_iff.mp h
  cases t with
  | enqueue l =>
    simp only [Bool.and_eq_true, Bool.not_eq_true'] at ht
    exact ht.1.1.2
  | woken l =>
    simp only [Bool.and_eq_true, Bool.not_eq_true'] at ht
    exact ht.1
  | _ => cases ht

theorem parks_starts (h : s.parks i = true) {u : Task} {us : List Task} (hu : (s.thread i).tasks = u :: us) :
    u.starts = false := by
  obtain ⟨t, rest, ht, hp⟩ := atTask_iff.mp h
  rw [ht] at hu
  cases hu
  cases u with
  | enqueue l => rfl
  | woken l => rfl
  | _ => cases hp

theorem Moves.off (h : Moves s i a s₁ th) (hstop : s.eng.stop = false) :
    s₁.eng.stop = false ∨ ∀ j, (s₁.thread j).isParked = false := by
  cases h with
  | goes c t rest next _ ht hp => exact (perform_performed hp).off hstop
  | _ => exact .inl hstop

theorem isParked_of {th : Thread} {l : Line} {rest : List Task} (h : th.tasks = .parked l :: rest) : th.isParked = true := by
  unfold Thread.isParked
  rw [h]

/-- Where the start of a worker is the move, nobody was parked or the worker has begun. -/
theorem Moves.creates (h : Moves s i a s₁ th) (hi : i < s.threads.length) (hs : Invariant s) (hc : clear s a = true)
    {us : List Task} (hu : (s.thread i).tasks = .create :: us) :
    ((s₁.put i th).thread 0).has Task.stays = true ∨ ∀ j, (s.thread j).isParked = false := by
  cases h with
  | call rq hmay =>
    rw [mayCall_idle hmay] at hu
    cases hu
  | enter c l rest ht hfree =>
    rw [ht] at hu
    cases hu
  | goes c t rest next _ ht hp =>
    rw [ht] at hu
    cases hu
    rcases create_ends hs hi ht hp with ⟨-, hstays⟩ | ⟨hfail, -⟩
    · exact .inl hstays
    · right
      intro j
      have hnone := (clear_run hc).2.2.1 us ht hfail
      by_contra hj
      have hany := (any_threads (s := s) (p := Thread.isParked) rfl).mpr ⟨j, by simpa using hj⟩
      rw [hnone] at hany
      cases hany
  | leave c rest outer ht ho =>
    rw [ht] at hu
    cases hu
  | spurious l rest ht =>
    rw [ht] at hu
    cases hu

/-- Nobody is left parked on an engine without a worker. -/
theorem Moves.parked (h : Moves s i a s₁ th) (hi : i < s.threads.length) (hs : Invariant s) (hc : clear s a = true)
    (j : Nat) (l : Line) (rest : List Task) (hj : ((s₁.put i th).thread j).tasks = .parked l :: rest) :
    s₁.eng.stop = false ∧ (((s₁.put i th).thread 0).has Task.stays = true ∨
      ∃ k us, ((s₁.put i th).thread k).tasks = .create :: us) := by
  have hi₁ : i < s₁.threads.length := h.length ▸ hi
  by_cases hij : i = j
  · -- the thread parks now
    subst hij
    rw [put_self hi₁] at hj
    obtain ⟨-, hwait | ⟨-, hflush⟩, c, rfl⟩ := h.waits hs hj rfl
    · obtain ⟨hparks, rfl⟩ := hwait
      obtain ⟨haborts, hrun⟩ := (clear_run hc).2.1 hparks
      have hstop := parks_stop hparks
      refine ⟨hstop, ?_⟩
      rcases h.stillServed hi hs hrun hstop (fun u us hu => parks_starts hparks hu) with hstays | ⟨k, u, us, hu, hstart⟩
      · exact .inl hstays
      · refine .inr ⟨k, us, ?_⟩
        cases u with
        | create => exact hu
        | abortStart =>
          by_cases hik : i = k
          · subst hik
            rw [put_self hi₁, hj] at hu
            cases hu
          · rw [put_other hik] at hu
            have hab : (s.thread k).aborts = true := by
              unfold Thread.aborts
              rw [hu]
              rfl
            have hany := (any_threads (s := s) (p := Thread.aborts) rfl).mpr ⟨k, hab⟩
            rw [haborts] at hany
            cases hany
        | _ => cases hstart
    · cases hflush
  · rw [put_other hij] at hj
    have hbefore : (s.thread j).tasks = .parked l :: rest := by
      rcases h.others j with hn | ⟨-, hth, -⟩
      · exact hn.head hj nofun
      · rw [hth] at hj
        cases hj
    obtain ⟨hstop, hor⟩ := hs.parked j l rest hbefore
    refine ⟨?_, ?_⟩
    · rcases h.off hstop with hoff | hnone
      · exact hoff
      · have := hnone j
        rw [isParked_of hj] at this
        cases this
    · rcases hor with hstays | ⟨k, us, hu⟩
      · exact .inl (h.stays hi hstop hstays)
      · by_cases hk : k = i
        · rcases h.creates hi hs hc (hk ▸ hu) with hstays | hnone
          · exact .inl hstays
          · have := hnone j
            rw [isParked_of hbefore] at this
            cases this
        · rcases h.keeps hk hu nofun with hkept | hstays
          · exact .inr ⟨k, us, hkept⟩
          · exact .inl hstays

end

section
variable {s : State} {i j : Nat} {w : Wait}

/-- What a wait says of the state. -/
def Wait.holds (s : State) (i : Nat) (t : Task) : Wait → Prop
  | .queueLock => s.queueFree = false
  | .sinkLock => s.sinkFree i = false
  | .initLock => s.initFree = false
  | .notFull => ∃ l, t = .parked l
  | .drained => s.undrained = true
  | .exited => (s.thread 0).idle = false

end

def writeTwice : List Act :=
  [.call 1 (.write [⟨2, 0, [⟨2, [97], 0, true⟩]⟩]), .run 1 {}, .run 1 {}, .run 0 {}, .run 0 {},
    .call 1 (.write [⟨2, 0, [⟨2, [97], 0, true⟩]⟩]), .run 1 {}, .run 1 {}, .run 0 {}]

/-- Each of the conditions is needed: the worker's callback writes to a full queue, or flushes
one that is not empty; a callback asks for the configuration while another thread
reconfigures, or while its own thread does. -/
theorem unclear_deadlocks :
    ((Transition.run step (initState 1 ⟨.async, 1, 1, 0, .block⟩)
      (writeTwice ++ [.call 0 (.write [⟨2, 0, [⟨2, [97], 0, true⟩]⟩]), .run 0 {}, .run 0 {}])).map
        fun s => decide (s.Deadlocked {0})) = some true ∧
    ((Transition.run step (initState 1 ⟨.async, 1, 1, 0, .block⟩)
      (writeTwice ++ [.call 0 .flush, .run 0 {}, .run 0 {}, .run 0 {}])).map
        fun s => decide (s.Deadlocked {0})) = some true ∧
    ((Transition.run step (initState 2 ⟨.sync, 1, 1, 0, .block⟩)
      [.call 1 (.write [⟨2, 0, [⟨2, [97], 0, true⟩]⟩]), .run 1 {}, .run 1 {}, .call 1 .getConfig,
        .call 2 (.reconfigure ⟨.sync, 1, 1, 0, .block⟩), .run 2 {}, .run 2 {}, .run 2 {}]).map
        fun s => decide (s.Deadlocked {1, 2})) = some true ∧
    ((Transition.run step (initState 1 ⟨.sync, 1, 1, 0, .block⟩)
      [.call 1 (.reconfigure ⟨.sync, 1, 1, 0, .block⟩), .run 1 {},
        .run 1 { summary := some ⟨2, 0, [⟨2, [97], 0, true⟩]⟩ }, .run 1 {}, .run 1 {}, .call 1 .getConfig]).map
        fun s => decide (s.Deadlocked {1})) = some true := by
  decide

end Reentrant

end HxClog
