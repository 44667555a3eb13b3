import HxClog.Reentrant

/-!
# How threads that call back move

A section changes the thread that is at it, wakes others or begins the worker, and leads to
sections of the same caller: what a callback may come to, what a reconfiguration may, what
the worker may.
-/

namespace HxClog

namespace Reentrant

/-! ## Threads -/

section
variable {s s' : State} {i j : Nat} {th : Thread}

theorem getD_set (threads : List Thread) (i j : Nat) (th : Thread) :
    (threads.set i th).getD j {} = if i = j ∧ i < threads.length then th else threads.getD j {} := by
  rw [List.getD_eq_getElem?_getD, List.getD_eq_getElem?_getD, List.getElem?_set]
  by_cases hij : i = j
  · subst hij
    by_cases hlt : i < threads.length
    · simp [hlt]
    · simp [hlt]
  · simp [hij]

@[simp] theorem put_length (s : State) (i : Nat) (th : Thread) : (s.put i th).threads.length = s.threads.length :=
  List.length_set

@[simp] theorem put_eng (s : State) (i : Nat) (th : Thread) : (s.put i th).eng = s.eng := rfl

theorem put_thread (s : State) (i j : Nat) (th : Thread) :
    (s.put i th).thread j = if i = j ∧ i < s.threads.length then th else s.thread j := getD_set s.threads i j th

theorem put_self (h : i < s.threads.length) (th : Thread) : (s.put i th).thread i = th := by
  rw [put_thread, if_pos ⟨rfl, h⟩]

theorem put_other (h : i ≠ j) (th : Thread) : (s.put i th).thread j = s.thread j := by
  rw [put_thread, if_neg fun hc => h hc.1]

theorem thread_absent (h : s.threads.length ≤ i) : s.thread i = {} := by
  unfold State.thread
  rw [List.getD_eq_getElem?_getD, List.getElem?_eq_none h]
  rfl

theorem thread_mem (h : i < s.threads.length) : s.thread i ∈ s.threads := by
  unfold State.thread
  rw [List.getD_eq_getElem?_getD, List.getElem?_eq_getElem h]
  exact List.getElem_mem h

theorem mem_thread (h : th ∈ s.threads) : ∃ i, i < s.threads.length ∧ s.thread i = th := by
  obtain ⟨i, hi, rfl⟩ := List.mem_iff_getElem.mp h
  refine ⟨i, hi, ?_⟩
  unfold State.thread
  rw [List.getD_eq_getElem?_getD, List.getElem?_eq_getElem hi]
  rfl

/-- A property that an idle thread lacks is one of some thread if it is one of some number. -/
theorem any_threads {p : Thread → Bool} (hidle : p {} = false) : s.threads.any p = true ↔ ∃ i, p (s.thread i) = true := by
  rw [List.any_eq_true]
  constructor
  · rintro ⟨th, hm, hp⟩
    obtain ⟨i, -, rfl⟩ := mem_thread hm
    exact ⟨i, hp⟩
  · rintro ⟨i, hp⟩
    by_cases hi : i < s.threads.length
    · exact ⟨_, thread_mem hi, hp⟩
    · rw [thread_absent (Nat.le_of_not_lt hi), hidle] at hp
      cases hp

theorem sinkFree_iff : s.sinkFree i = true ↔ ∀ j, j ≠ i → (s.thread j).inCallback = false := by
  unfold State.sinkFree
  rw [List.all_eq_true]
  constructor
  · intro h j hj
    by_cases hlt : j < s.threads.length
    · have := h j (List.mem_range.mpr hlt)
      simpa [hj] using this
    · rw [thread_absent (Nat.le_of_not_lt hlt)]
      rfl
  · intro h j hj
    by_cases hji : j = i
    · simp [hji]
    · simp [h j hji]

end

/-! ## Waking -/

/-- The same thread, or the parked thread woken. -/
def Near (th th' : Thread) : Prop :=
  th' = th ∨ ∃ l rest, th.tasks = .parked l :: rest ∧ th' = ⟨.woken l :: rest, th.outer⟩

theorem Near.refl (th : Thread) : Near th th := .inl rfl

theorem near_wake (th : Thread) : Near th th.wake := by
  obtain ⟨tasks, outer⟩ := th
  cases tasks with
  | nil => exact .inl rfl
  | cons t rest =>
    cases t with
    | parked l => exact .inr ⟨l, rest, rfl, rfl⟩
    | _ => exact .inl rfl

theorem wake_isParked (th : Thread) : th.wake.isParked = false := by
  obtain ⟨tasks, outer⟩ := th
  cases tasks with
  | nil => rfl
  | cons t rest => cases t <;> rfl

section
variable {th th' : Thread}

theorem Near.outer (h : Near th th') : th'.outer = th.outer := by
  obtain rfl | ⟨l, rest, -, rfl⟩ := h
  · rfl
  · rfl

theorem Near.inCallback (h : Near th th') : th'.inCallback = th.inCallback := by
  unfold Thread.inCallback
  rw [h.outer]

/-- Waking makes no thread parked, and no thread wait for anything else than before. -/
theorem Near.head {t : Task} {rest : List Task} (h : Near th th') (ht : th'.tasks = t :: rest)
    (hw : ∀ l, t ≠ .woken l) : th.tasks = t :: rest := by
  obtain rfl | ⟨l, rest', -, rfl⟩ := h
  · exact ht
  · cases ht
    exact absurd rfl (hw l)

theorem Near.has (h : Near th th') {p : Task → Bool} (hp : ∀ l, p (.woken l) = p (.parked l)) : th'.has p = th.has p := by
  obtain rfl | ⟨l, rest, ht, rfl⟩ := h
  · rfl
  · unfold Thread.has
    simp [ht, hp]

end

theorem wakeAll_getD (threads : List Thread) (j : Nat) : (wakeAll threads).getD j {} = (threads.getD j {}).wake := by
  unfold wakeAll
  rw [List.getD_eq_getElem?_getD, List.getD_eq_getElem?_getD, List.getElem?_map]
  cases threads[j]? with
  | none => rfl
  | some th => rfl

theorem signal_near {threads threads' : List Thread} {wake : List Nat} (h : signalNotFull threads wake = some threads') :
    threads'.length = threads.length ∧ ∀ j, Near (threads.getD j {}) (threads'.getD j {}) := by
  unfold signalNotFull at h
  split at h
  · cases h
  · split at h
    · cases h
      refine ⟨List.length_mapIdx, fun j => ?_⟩
      rw [List.getD_eq_getElem?_getD, List.getD_eq_getElem?_getD, List.getElem?_mapIdx]
      cases threads[j]? with
      | none => exact .refl _
      | some th =>
        simp only [Option.map_some, Option.getD_some]
        split
        · exact near_wake th
        · exact .refl th
    · cases h

/-! ## The flags of the engine -/

section
variable {e e' : AsyncEngine} {l : Line} {alloc : Bool}

def SameFlags (e e' : AsyncEngine) : Prop := e'.running = e.running ∧ e'.stop = e.stop

theorem SameFlags.refl (e : AsyncEngine) : SameFlags e e := ⟨rfl, rfl⟩

theorem storeLine_flags {stored report : Bool} (h : storeLine e l alloc = some (e', stored, report)) : SameFlags e e' := by
  unfold storeLine at h
  simp only [Option.bind_eq_bind, Option.bind_eq_some_iff] at h
  obtain ⟨slot, -, ⟨slot', ok⟩, -, h⟩ := h
  simp only at h
  split at h
  · obtain ⟨data, -, h⟩ := Option.bind_eq_some_iff.mp h
    cases h
    exact ⟨rfl, rfl⟩
  · cases h
    exact ⟨rfl, rfl⟩

/-- The engine behind a section of `hx_async_enqueue`. -/
def engineAfter (e : AsyncEngine) : Enqueue → AsyncEngine
  | .unavailable => e
  | .wait => e
  | .refused e' _ => e'
  | .settled e' _ _ _ => e'

theorem block_flags {r : Enqueue} (h : asyncEnqueueBlock e l alloc = some r) : SameFlags e (engineAfter e r) := by
  unfold asyncEnqueueBlock at h
  split at h
  · cases h
    exact .refl e
  · split at h
    · cases h
      exact .refl e
    · obtain ⟨⟨e', stored, report⟩, hst, rfl⟩ := Option.map_eq_some_iff.mp h
      exact storeLine_flags hst

theorem enqueue_flags {r : Enqueue} (h : hxAsyncEnqueue e l alloc = some r) : SameFlags e (engineAfter e r) := by
  unfold hxAsyncEnqueue at h
  split at h
  · cases h
    exact .refl e
  · split at h
    · split at h
      · cases h
        exact ⟨rfl, rfl⟩
      · obtain ⟨⟨e', stored, report⟩, hst, rfl⟩ := Option.map_eq_some_iff.mp h
        obtain ⟨hrun, hstop⟩ := storeLine_flags hst
        exact ⟨hrun, hstop⟩
      · exact block_flags h
    · obtain ⟨⟨e', stored, report⟩, hst, rfl⟩ := Option.map_eq_some_iff.mp h
      exact storeLine_flags hst

theorem scratchGrow_flags {len : Nat} {ok : Bool} (h : scratchGrow e len alloc = some (e', ok)) : SameFlags e e' := by
  unfold scratchGrow at h
  split at h
  · obtain ⟨nc, -, h⟩ := Option.map_eq_some_iff.mp h
    split at h
    · cases h
      exact ⟨rfl, rfl⟩
    · cases h
      exact .refl e
  · cases h
    exact .refl e

theorem pop_flags {r : Pop} (h : workerPop e alloc = some r) :
    (∀ e' l, r = .skipped e' l → SameFlags e e') ∧ ∀ e' p, r = .popped e' p → SameFlags e e' := by
  unfold workerPop at h
  simp only [Option.bind_eq_bind, Option.bind_eq_some_iff] at h
  obtain ⟨s, -, ⟨e₁, ok⟩, hg, h⟩ := h
  have hsame := scratchGrow_flags hg
  simp only at h
  split at h
  · obtain ⟨d, -, h⟩ := Option.bind_eq_some_iff.mp h
    cases h
    exact ⟨nofun, fun e' p hr => by cases hr; exact hsame⟩
  · cases h
    exact ⟨fun e' p hr => by cases hr; exact hsame, nofun⟩

end

/-! ## What a section does -/

/-- The worker goes on after such a section. -/
def Task.stays : Task → Bool
  | .workerTop => true
  | .waiting => true
  | .batch _ => true
  | .relock _ => true
  | _ => false

structure Performed (s : State) (c : Choice) (t : Task) (s₁ : State) (next : List Task) : Prop where
  length : s₁.threads.length = s.threads.length
  near : ∀ j, Near (s.thread j) (s₁.thread j) ∨ (t = .create ∧ c.created = true ∧ j = 0 ∧ s₁.thread j = ⟨[.workerTop], []⟩)
  on : s₁.eng.running = true → s₁.eng.stop = false → (s.eng.running = true ∧ s.eng.stop = false) ∨ next = [.create]
  off : s.eng.stop = false → s₁.eng.stop = false ∨ ∀ j, (s₁.thread j).isParked = false
  stays : t.stays = true → next.any Task.stays = true ∨ s.eng.stop = true

section
variable {s s₁ : State} {c : Choice} {t : Task} {next : List Task} {i : Nat}

theorem Performed.quiet (hth : s₁.threads = s.threads) (hfl : SameFlags s.eng s₁.eng)
    (hstays : t.stays = true → next.any Task.stays = true ∨ s.eng.stop = true) : Performed s c t s₁ next where
  length := by rw [hth]
  near j := by
    unfold State.thread
    rw [hth]
    exact .inl (.refl _)
  on hr hs := .inl ⟨hfl.1 ▸ hr, hfl.2 ▸ hs⟩
  off hs := .inl (hfl.2 ▸ hs)
  stays := hstays

theorem settle_spec (s : State) (l : Line) (r : Enqueue) : (settle s l r).1.threads = s.threads ∧
    (settle s l r).1.eng = engineAfter s.eng r := by
  cases r with
  | unavailable => exact ⟨rfl, rfl⟩
  | wait => exact ⟨rfl, rfl⟩
  | refused e report => exact ⟨rfl, rfl⟩
  | settled e evicted stored report => exact ⟨rfl, rfl⟩

theorem settled_performed {l : Line} {r : Option Enqueue} (h : r.map (settle s l) = some (s₁, next))
    (hfl : ∀ q, r = some q → SameFlags s.eng (engineAfter s.eng q)) (ht : t.stays = false) : Performed s c t s₁ next := by
  obtain ⟨q, hq, heq⟩ := Option.map_eq_some_iff.mp h
  obtain ⟨hth, heng⟩ := settle_spec s l q
  rw [heq] at hth heng
  refine .quiet hth ?_ fun hs => ?_
  · rw [heng]
    exact hfl q hq
  · rw [ht] at hs
    cases hs

theorem asyncFlush_performed (h : asyncFlushEnter s = (s₁, next)) : Performed s c .asyncFlush s₁ next := by
  unfold asyncFlushEnter at h
  split at h
  · cases h
    exact .quiet rfl (.refl _) nofun
  · cases h
    exact .quiet rfl ⟨rfl, rfl⟩ nofun

theorem stop_performed (h : asyncStopEnter s = (s₁, next)) : Performed s c .stop s₁ next := by
  unfold asyncStopEnter at h
  split at h
  · cases h
    exact .quiet rfl (.refl _) nofun
  · cases h
    have hwoken : ∀ j, (wakeAll s.threads).getD j {} = (s.thread j).wake := wakeAll_getD s.threads
    refine ⟨List.length_map _, fun j => .inl ?_, nofun, fun _ => .inr fun j => ?_, nofun⟩
    · show Near (s.thread j) ((wakeAll s.threads).getD j {})
      rw [hwoken]
      exact near_wake _
    · show ((wakeAll s.threads).getD j {}).isParked = false
      rw [hwoken]
      exact wake_isParked _

theorem afterWait_performed (h : workerAfterWait s = (s₁, next)) : Performed s c t s₁ next := by
  unfold workerAfterWait at h
  split at h
  · cases h
    refine .quiet rfl ⟨rfl, rfl⟩ fun _ => ?_
    cases hstop : s.eng.stop with
    | true => exact .inr rfl
    | false => exact .inl (by simp [Task.stays])
  · cases h
    exact .quiet rfl (.refl _) fun _ => .inl rfl

theorem workerTop_performed (h : workerTop s = (s₁, next)) : Performed s c t s₁ next := by
  unfold workerTop at h
  split at h
  · cases h
    exact .quiet rfl (.refl _) fun _ => .inl rfl
  · exact afterWait_performed h

theorem batch_performed {written : Nat} (h : workerBatch s c written = some (s₁, next)) :
    Performed s c (.batch written) s₁ next := by
  unfold workerBatch at h
  split at h
  · obtain ⟨r, hpop, h⟩ := Option.bind_eq_some_iff.mp h
    obtain ⟨threads, hsig, h⟩ := Option.map_eq_some_iff.mp h
    obtain ⟨hlen, hnear⟩ := signal_near hsig
    obtain ⟨hskip, hpopped⟩ := pop_flags hpop
    cases r with
    | skipped e l =>
      cases h
      have hfl := hskip e l rfl
      exact ⟨hlen, fun j => .inl (hnear j), fun hr hs => .inl ⟨hfl.1 ▸ hr, hfl.2 ▸ hs⟩, fun hs => .inl (hfl.2.trans hs),
        fun _ => .inl rfl⟩
    | popped e p =>
      cases h
      have hfl := hpopped e p rfl
      exact ⟨hlen, fun j => .inl (hnear j), fun hr hs => .inl ⟨hfl.1 ▸ hr, hfl.2 ▸ hs⟩, fun hs => .inl (hfl.2.trans hs),
        fun _ => .inl rfl⟩
  · cases h
    exact .quiet rfl ⟨rfl, rfl⟩ fun _ => .inl rfl

/-- A section that only leads to other sections. -/
theorem leads_performed {free : Bool} {ts : List Task} (h : (if free then some (s, ts) else none) = some (s₁, next))
    (ht : t.stays = false) : Performed s c t s₁ next := by
  split at h
  · cases h
    refine .quiet rfl (.refl _) fun hs => ?_
    rw [ht] at hs
    cases hs
  · cases h

theorem perform_performed (h : perform s i c t = some (s₁, next)) : Performed s c t s₁ next := by
  cases t with
  | sinkSection => exact leads_performed h rfl
  | dispatch l =>
    cases h
    exact .quiet rfl (.refl _) nofun
  | enqueue l =>
    simp only [perform] at h
    split at h
    · cases h
      exact .quiet rfl (.refl _) nofun
    · split at h
      · exact settled_performed h (fun q hq => enqueue_flags hq) rfl
      · cases h
  | parked l => cases h
  | woken l =>
    simp only [perform] at h
    split at h
    · exact settled_performed h (fun q hq => block_flags hq) rfl
    · cases h
  | emit l => cases h
  | flush =>
    cases h
    exact .quiet rfl (.refl _) nofun
  | flushMode =>
    cases h
    exact .quiet rfl (.refl _) nofun
  | asyncFlush =>
    simp only [perform] at h
    split at h
    · cases h
      exact .quiet rfl (.refl _) nofun
    · split at h
      · exact asyncFlush_performed (Option.some.inj h)
      · cases h
  | flushWait => exact leads_performed h rfl
  | getConfig => exact leads_performed h rfl
  | initLock cfg => exact leads_performed h rfl
  | checkMode =>
    simp only [perform] at h
    cases hm : s.mode with
    | async =>
      rw [hm] at h
      cases h
      exact .quiet rfl (.refl _) nofun
    | sync =>
      rw [hm] at h
      cases h
      exact .quiet rfl (.refl _) nofun
  | stop =>
    simp only [perform] at h
    split at h
    · cases h
      exact .quiet rfl (.refl _) nofun
    · split at h
      · exact stop_performed (Option.some.inj h)
      · cases h
  | join => exact leads_performed h rfl
  | detach =>
    simp only [perform] at h
    split at h
    · cases h
      exact ⟨rfl, fun j => .inl (.refl _), nofun, fun hs => .inl hs, nofun⟩
    · cases h
  | swap cfg =>
    simp only [perform] at h
    split at h
    · cases h
      exact .quiet rfl (.refl _) nofun
    · cases h
  | start cfg =>
    simp only [perform] at h
    split at h
    · cases h
      exact .quiet rfl (.refl _) nofun
    · split at h
      · cases h
        exact ⟨rfl, fun j => .inl (.refl _), fun _ _ => .inr rfl, fun _ => .inl rfl, nofun⟩
      · cases h
  | create =>
    simp only [perform] at h
    split at h
    · rename_i hcreated
      cases h
      refine ⟨put_length _ _ _, fun j => ?_, fun hr hs => .inl ⟨hr, hs⟩, fun hs => .inl hs, nofun⟩
      rw [put_thread]
      split
      · rename_i hj
        exact .inr ⟨rfl, hcreated, hj.1.symm, rfl⟩
      · exact .inl (.refl _)
    · cases h
      exact .quiet rfl (.refl _) nofun
  | abortStart =>
    simp only [perform] at h
    split at h
    · cases h
      exact ⟨rfl, fun j => .inl (.refl _), nofun, fun hs => .inl hs, nofun⟩
    · cases h
  | publish =>
    cases h
    exact .quiet rfl (.refl _) nofun
  | initUnlock =>
    cases h
    exact .quiet rfl (.refl _) nofun
  | workerTop => exact workerTop_performed (Option.some.inj h)
  | waiting =>
    simp only [perform] at h
    split at h
    · exact afterWait_performed (Option.some.inj h)
    · exact workerTop_performed (Option.some.inj h)
  | notify =>
    cases h
    exact .quiet rfl (.refl _) nofun
  | batch written => exact batch_performed h
  | relock written =>
    cases h
    exact .quiet rfl (.refl _) fun _ => .inl rfl

end

/-! ## Whose sections they are -/

/-- Sections that any caller may come to. -/
def Task.common : Task → Bool
  | .sinkSection => true
  | .dispatch _ => true
  | .enqueue _ => true
  | .emit _ => true
  | .flush => true
  | .flushMode => true
  | .asyncFlush => true
  | _ => false

def Task.reconfiguring : Task → Bool
  | .checkMode => true
  | .stop => true
  | .join => true
  | .detach => true
  | .swap _ => true
  | .start _ => true
  | .create => true
  | .abortStart => true
  | .publish => true
  | .initUnlock => true
  | _ => false

/-- What is left of a reconfiguration after the swap. -/
def Task.late : Task → Bool
  | .start _ => true
  | .create => true
  | .abortStart => true
  | .publish => true
  | .initUnlock => true
  | _ => false

def Task.ofWorker : Task → Bool
  | .sinkSection => true
  | .emit _ => true
  | .workerTop => true
  | .waiting => true
  | .notify => true
  | .batch _ => true
  | .relock _ => true
  | _ => false

/-- Where a caller waits for the queue. -/
def Task.resting : Task → Bool
  | .parked _ => true
  | .woken _ => true
  | .flushWait => true
  | _ => false

inductive Role where
  | worker
  | app
  | callback
  deriving DecidableEq

def Task.ordinary (t : Task) : Role → Bool
  | .worker => t.ofWorker
  | .app => t.common || t.reconfiguring
  | .callback => t.common

/-- The one section that a call begins with. -/
def Task.entry (t : Task) : Role → Bool
  | .worker => false
  | .app => match t with | .getConfig => true | .initLock _ => true | _ => false
  | .callback => t == .getConfig

/-- Only the section a thread is at can be a wait for the queue. -/
def Runs (r : Role) (ts : List Task) : Prop :=
  (∀ t ∈ ts.head?, t.ordinary r = true ∨ t.resting = true ∧ r ≠ .worker) ∧ ∀ t ∈ ts.tail, t.ordinary r = true

def Fits (r : Role) (ts : List Task) : Prop := Runs r ts ∨ ∃ t, t.entry r = true ∧ ts = [t]

def layer (r : Role) (outer : List (List Task)) : Role := if outer.isEmpty then r else .callback

def Layered (r : Role) : List (List Task) → Prop
  | [] => True
  | ts :: outer => (∀ t ∈ ts, t.ordinary (layer r outer) = true) ∧ Layered r outer

structure Proper (r : Role) (th : Thread) : Prop where
  fits : Fits (layer r th.outer) th.tasks
  layered : Layered r th.outer

def roleOf (i : Nat) : Role := if i = 0 then .worker else .app

section
variable {s s₁ : State} {c : Choice} {t : Task} {next rest ts : List Task} {i : Nat} {r : Role}

theorem runs_of_ordinary (h : ∀ t ∈ ts, t.ordinary r = true) : Runs r ts :=
  ⟨fun t ht => .inl (h t (List.mem_of_mem_head? ht)), fun t ht => h t (List.mem_of_mem_tail ht)⟩

theorem Runs.append (h : Runs r next) (hrest : ∀ t ∈ rest, t.ordinary r = true) : Runs r (next ++ rest) := by
  cases next with
  | nil => exact runs_of_ordinary hrest
  | cons t next =>
    refine ⟨h.1, fun u hu => ?_⟩
    rcases List.mem_append.mp hu with hu | hu
    · exact h.2 u hu
    · exact hrest u hu

theorem Fits.behind (h : Fits r (t :: rest)) : ∀ u ∈ rest, u.ordinary r = true := by
  obtain h | ⟨u, -, heq⟩ := h
  · exact h.2
  · cases heq
    exact nofun

theorem common_ordinary (h : t.common = true) (hr : r ≠ .worker) : t.ordinary r = true := by
  cases r with
  | worker => exact absurd rfl hr
  | app => simp [Task.ordinary, h]
  | callback => exact h

theorem record_common (rec : Record) : ∀ t ∈ rec.tasks, t.common = true := by
  intro t ht
  unfold Record.tasks at ht
  rw [List.mem_append, List.mem_append] at ht
  obtain (ht | ht) | ht := ht
  · rw [(List.mem_replicate.mp ht).2]
    rfl
  · obtain ⟨l, -, rfl⟩ := List.mem_map.mp ht
    rfl
  · split at ht
    · rw [List.mem_singleton.mp ht]
      rfl
    · cases ht

theorem request_fits {rq : Request} (h : r = .app ∨ r = .callback ∧ rq.fromCallback = true) : Fits r rq.tasks := by
  have hr : r ≠ .worker := by
    obtain rfl | ⟨rfl, -⟩ := h
    · decide
    · decide
  cases rq with
  | write records =>
    refine .inl (runs_of_ordinary fun t ht => ?_)
    obtain ⟨rec, -, ht⟩ := List.mem_flatMap.mp ht
    exact common_ordinary (record_common rec t ht) hr
  | flush => exact .inl (runs_of_ordinary fun t ht => common_ordinary (by rw [List.mem_singleton.mp ht]; rfl) hr)
  | getSinkCount => exact .inl (runs_of_ordinary fun t ht => common_ordinary (by rw [List.mem_singleton.mp ht]; rfl) hr)
  | getConfig =>
    refine .inr ⟨.getConfig, ?_, rfl⟩
    obtain rfl | ⟨rfl, -⟩ := h
    · rfl
    · rfl
  | reconfigure cfg =>
    obtain rfl | ⟨rfl, hfrom⟩ := h
    · exact .inr ⟨.initLock cfg, rfl, rfl⟩
    · cases hfrom

/-- A call from a thread's own code asks for sections of its own kind only. -/
theorem request_lacks (rq : Request) {p : Task → Bool} (hc : ∀ t, t.common = true → p t = false)
    (hg : p .getConfig = false) (hl : ∀ cfg, p (.initLock cfg) = false) : rq.tasks.any p = false := by
  rw [List.any_eq_false]
  intro t ht
  rw [Bool.not_eq_true]
  cases rq with
  | write records =>
    obtain ⟨rec, -, ht⟩ := List.mem_flatMap.mp ht
    exact hc t (record_common rec t ht)
  | flush => exact hc t (by rw [List.mem_singleton.mp ht]; rfl)
  | getSinkCount => exact hc t (by rw [List.mem_singleton.mp ht]; rfl)
  | getConfig => rw [List.mem_singleton.mp ht]; exact hg
  | reconfigure cfg => rw [List.mem_singleton.mp ht]; exact hl cfg

/-! ### What comes next -/

theorem settle_next (s : State) (l : Line) (q : Enqueue) : (settle s l q).2 = [] ∨ (settle s l q).2 = [.emit l] ∨
    q = .wait ∧ (settle s l q).2 = [.parked l] := by
  cases q with
  | unavailable => exact .inr (.inl rfl)
  | wait => exact .inr (.inr ⟨rfl, rfl⟩)
  | refused e report => exact .inl rfl
  | settled e evicted stored report => exact .inl rfl

/-- Sections of a caller, of which the first may be a wait for the queue. -/
def Calls (ts : List Task) : Prop :=
  (∀ t ∈ ts.head?, t.common = true ∨ t.resting = true) ∧ ∀ t ∈ ts.tail, t.common = true

theorem Calls.runs (h : Calls ts) (hr : r ≠ .worker) : Runs r ts := by
  refine ⟨fun t ht => ?_, fun t ht => common_ordinary (h.2 t ht) hr⟩
  rcases h.1 t ht with hc | hrest
  · exact .inl (common_ordinary hc hr)
  · exact .inr ⟨hrest, hr⟩

theorem calls_nil : Calls [] := ⟨nofun, nofun⟩

theorem calls_singleton (h : t.common = true ∨ t.resting = true) : Calls [t] :=
  ⟨fun u hu => by cases hu; exact h, nofun⟩

theorem calls_common (h : ∀ t ∈ ts, t.common = true) : Calls ts :=
  ⟨fun t ht => .inl (h t (List.mem_of_mem_head? ht)), fun t ht => h t (List.mem_of_mem_tail ht)⟩

theorem settled_calls {l : Line} {q : Option Enqueue} (h : q.map (settle s l) = some (s₁, next)) : Calls next := by
  obtain ⟨q, -, heq⟩ := Option.map_eq_some_iff.mp h
  have hnext := settle_next s l q
  rw [heq] at hnext
  obtain rfl | rfl | ⟨-, rfl⟩ := hnext
  · exact calls_nil
  · exact calls_singleton (.inl rfl)
  · exact calls_singleton (.inr rfl)

theorem lock_calls {free : Bool} (h : (if free then some (s, []) else none) = some (s₁, next)) : Calls next := by
  split at h
  · cases h
    exact calls_nil
  · cases h

/-- What `hx_clog_flush` and `core_dispatch_line` begin with. -/
theorem perform_common (h : perform s i c t = some (s₁, next)) (ht : t = .flush ∨ t = .flushMode ∨ ∃ l, t = .dispatch l) :
    ∀ u ∈ next, u.common = true := by
  obtain rfl | rfl | ⟨l, rfl⟩ := ht
  · cases h
    intro u hu
    rcases List.mem_append.mp hu with hu | hu
    · cases hsum : c.summary with
      | none =>
        rw [hsum] at hu
        cases hu
      | some rec =>
        rw [hsum] at hu
        exact record_common rec u hu
    · rw [List.mem_singleton.mp hu]
      rfl
  · cases h
    cases s.mode <;> simp [Task.common]
  · cases h
    cases s.mode <;> simp [Task.common]

theorem perform_calls (h : perform s i c t = some (s₁, next))
    (ht : t.common = true ∨ t.resting = true ∨ t = .getConfig) : Calls next := by
  cases t with
  | sinkSection => exact lock_calls h
  | dispatch l => exact calls_common (perform_common h (.inr (.inr ⟨l, rfl⟩)))
  | enqueue l =>
    simp only [perform] at h
    split at h
    · cases h
      exact calls_singleton (.inl rfl)
    · split at h
      · exact settled_calls h
      · cases h
  | parked l => cases h
  | woken l =>
    simp only [perform] at h
    split at h
    · exact settled_calls h
    · cases h
  | emit l => cases h
  | flush => exact calls_common (perform_common h (.inl rfl))
  | flushMode => exact calls_common (perform_common h (.inr (.inl rfl)))
  | asyncFlush =>
    simp only [perform] at h
    split at h
    · cases h
      exact calls_nil
    · split at h
      · unfold asyncFlushEnter at h
        split at h
        · cases h
          exact calls_nil
        · cases h
          split
          · exact calls_nil
          · exact calls_singleton (.inr rfl)
      · cases h
  | flushWait => exact lock_calls h
  | getConfig => exact lock_calls h
  | _ => simp [Task.common, Task.resting] at ht

theorem lock_nil {p : Task → Prop} {free : Bool} (h : (if free then some (s, []) else none) = some (s₁, next)) :
    ∀ u ∈ next, p u := by
  split at h
  · cases h
    exact nofun
  · cases h

theorem perform_reconfigures (h : perform s i c t = some (s₁, next))
    (ht : t.reconfiguring = true) :
    ∀ u ∈ next, u.reconfiguring = true ∧ u ≠ .initUnlock ∧ (t.late = true → u.late = true) := by
  cases t with
  | checkMode =>
    simp only [perform] at h
    cases hm : s.mode with
    | async =>
      rw [hm] at h
      cases h
      simp [Task.reconfiguring, Task.late]
    | sync =>
      rw [hm] at h
      cases h
      simp
  | stop =>
    simp only [perform] at h
    split at h
    · cases h
      simp
    · split at h
      · unfold asyncStopEnter at h
        split at h
        · cases h
          simp
        · cases h
          simp [Task.reconfiguring, Task.late]
      · cases h
  | join => exact lock_nil h
  | detach =>
    simp only [perform] at h
    split at h
    · cases h
      simp
    · cases h
  | swap cfg =>
    simp only [perform] at h
    split at h
    · cases h
      cases cfg.mode with
      | async => simp [Task.reconfiguring, Task.late]
      | sync => simp
    · cases h
  | start cfg =>
    simp only [perform] at h
    split at h
    · cases h
      simp
    · split at h
      · cases h
        simp [Task.reconfiguring, Task.late]
      · cases h
  | create =>
    simp only [perform] at h
    split at h
    · cases h
      simp [Task.reconfiguring, Task.late]
    · cases h
      simp [Task.reconfiguring, Task.late]
  | abortStart =>
    simp only [perform] at h
    split at h
    · cases h
      simp
    · cases h
  | publish =>
    cases h
    simp
  | initUnlock =>
    cases h
    simp
  | _ => cases ht

theorem perform_locks {cfg : AsyncConfig} (h : perform s i c (.initLock cfg) = some (s₁, next)) :
    ∀ u ∈ next, u.ordinary .app = true := by
  simp only [perform] at h
  split at h
  · cases h
    cases c.accepted with
    | true => simp [Task.ordinary, Task.common, Task.reconfiguring]
    | false => simp
  · cases h

theorem reconfiguring_ordinary (h : t.reconfiguring = true) : t.ordinary .app = true := by simp [Task.ordinary, h]

theorem afterWait_worker (h : workerAfterWait s = (s₁, next)) : ∀ u ∈ next, u.ofWorker = true := by
  unfold workerAfterWait at h
  split at h
  · cases h
    cases s.eng.flushRequest <;> cases s.eng.stop <;> simp [Task.ofWorker]
  · cases h
    simp [Task.ofWorker]

theorem workerTop_worker (h : workerTop s = (s₁, next)) : ∀ u ∈ next, u.ofWorker = true := by
  unfold workerTop at h
  split at h
  · cases h
    simp [Task.ofWorker]
  · exact afterWait_worker h

theorem perform_works (h : perform s i c t = some (s₁, next)) (ht : t.ofWorker = true) : ∀ u ∈ next, u.ofWorker = true := by
  cases t with
  | sinkSection => exact lock_nil h
  | emit l => cases h
  | workerTop => exact workerTop_worker (Option.some.inj h)
  | waiting =>
    simp only [perform] at h
    split at h
    · exact afterWait_worker (Option.some.inj h)
    · exact workerTop_worker (Option.some.inj h)
  | notify =>
    cases h
    simp
  | batch written =>
    simp only [perform, workerBatch] at h
    split at h
    · obtain ⟨r, -, h⟩ := Option.bind_eq_some_iff.mp h
      obtain ⟨threads, -, h⟩ := Option.map_eq_some_iff.mp h
      cases r with
      | skipped e l =>
        cases h
        simp [Task.ofWorker]
      | popped e p =>
        cases h
        simp [Task.ofWorker]
    · cases h
      simp [Task.ofWorker]
  | relock written =>
    cases h
    simp [Task.ofWorker]
  | _ => cases ht

/-- A section leads to sections of the same caller. -/
theorem perform_runs (h : perform s i c t = some (s₁, next)) (ht : Fits r (t :: rest)) : Runs r next := by
  have hkind : t.ordinary r = true ∨ t.resting = true ∧ r ≠ .worker ∨ t.entry r = true := by
    obtain hruns | ⟨u, hu, heq⟩ := ht
    · rcases hruns.1 t rfl with ho | hrest
      · exact .inl ho
      · exact .inr (.inl hrest)
    · cases heq
      exact .inr (.inr hu)
  cases r with
  | worker =>
    obtain ho | ⟨-, hne⟩ | he := hkind
    · exact runs_of_ordinary (perform_works h ho)
    · exact absurd rfl hne
    · cases he
  | callback =>
    obtain ho | ⟨hrest, -⟩ | he := hkind
    · exact (perform_calls h (.inl ho)).runs (by decide)
    · exact (perform_calls h (.inr (.inl hrest))).runs (by decide)
    · exact (perform_calls h (.inr (.inr (by simpa [Task.entry] using he)))).runs (by decide)
  | app =>
    obtain ho | ⟨hrest, -⟩ | he := hkind
    · rcases Bool.or_eq_true_iff.mp ho with hc | hrec
      · exact (perform_calls h (.inl hc)).runs (by decide)
      · exact runs_of_ordinary fun u hu => reconfiguring_ordinary (perform_reconfigures h hrec u hu).1
    · exact (perform_calls h (.inr (.inl hrest))).runs (by decide)
    · cases t with
      | getConfig => exact (perform_calls h (.inr (.inr rfl))).runs (by decide)
      | initLock cfg => exact runs_of_ordinary (perform_locks h)
      | _ => cases he

end

/-! ## Moves -/

/-- Thread `i` moves: what the step does to the shared state, and where it leaves the thread. -/
inductive Moves (s : State) (i : Nat) : Act → State → Thread → Prop
  | call (rq : Request) (hmay : s.mayCall i rq = true) : Moves s i (.call i rq) s ⟨rq.tasks, (s.thread i).outer⟩
  | enter (c : Choice) (l : Line) (rest : List Task) (ht : (s.thread i).tasks = .emit l :: rest)
      (hfree : s.sinkFree i = true) : Moves s i (.run i c) s ⟨[], rest :: (s.thread i).outer⟩
  | goes (c : Choice) (t : Task) (rest next : List Task) (s₁ : State) (ht : (s.thread i).tasks = t :: rest)
      (hp : perform s i c t = some (s₁, next)) : Moves s i (.run i c) s₁ ⟨next ++ rest, (s.thread i).outer⟩
  | leave (c : Choice) (rest : List Task) (outer : List (List Task)) (ht : (s.thread i).tasks = [])
      (ho : (s.thread i).outer = rest :: outer) : Moves s i (.run i c) s ⟨rest, outer⟩
  | spurious (l : Line) (rest : List Task) (ht : (s.thread i).tasks = .parked l :: rest) :
      Moves s i (.spurious i) s ⟨.woken l :: rest, (s.thread i).outer⟩

section
variable {s s₁ : State} {i j : Nat} {a : Act} {th : Thread} {p : Task → Bool}

/-- A thread that `create` has just begun. -/
def Fresh (s : State) (i j : Nat) (a : Act) (s₁ : State) : Prop :=
  j = 0 ∧ s₁.thread j = ⟨[.workerTop], []⟩ ∧ ∃ c rest, a = .run i c ∧ c.created = true ∧ (s.thread i).tasks = .create :: rest

theorem Moves.others (h : Moves s i a s₁ th) (j : Nat) : Near (s.thread j) (s₁.thread j) ∨ Fresh s i j a s₁ := by
  cases h with
  | goes c t rest next _ ht hp =>
    rcases (perform_performed hp).near j with hn | ⟨rfl, hc, hj, hth⟩
    · exact .inl hn
    · exact .inr ⟨hj, hth, c, rest, rfl, hc, ht⟩
  | _ => exact .inl (.refl _)

theorem Moves.length (h : Moves s i a s₁ th) : s₁.threads.length = s.threads.length := by
  cases h with
  | goes c t rest next _ ht hp => exact (perform_performed hp).length
  | _ => rfl

/-- The threads behind a move. -/
theorem put_threads {P : Nat → Thread → Prop} (hi : i < s₁.threads.length) (hself : P i th)
    (hother : ∀ j, j ≠ i → P j (s₁.thread j)) (j : Nat) : P j ((s₁.put i th).thread j) := by
  by_cases hij : i = j
  · subst hij
    rw [put_self hi]
    exact hself
  · rw [put_other hij]
    exact hother j (Ne.symm hij)

theorem has_nil (outer : List (List Task)) : (⟨[], outer⟩ : Thread).has p = outer.any fun ts => ts.any p := by
  simp [Thread.has]

theorem has_cons (t : Task) (rest : List Task) (outer : List (List Task)) :
    (⟨t :: rest, outer⟩ : Thread).has p = (p t || (⟨rest, outer⟩ : Thread).has p) := by
  simp [Thread.has, Bool.or_assoc]

theorem has_append (next rest : List Task) (outer : List (List Task)) :
    (⟨next ++ rest, outer⟩ : Thread).has p = (next.any p || (⟨rest, outer⟩ : Thread).has p) := by
  simp [Thread.has, Bool.or_assoc]

theorem has_enter (rest : List Task) (outer : List (List Task)) :
    (⟨[], rest :: outer⟩ : Thread).has p = (⟨rest, outer⟩ : Thread).has p := by
  simp [Thread.has]

theorem has_tasks {t : Task} {rest : List Task} (h : th.tasks = t :: rest) :
    th.has p = (p t || (⟨rest, th.outer⟩ : Thread).has p) := by
  rw [← has_cons, ← h]

theorem atTask_iff : s.atTask i p = true ↔ ∃ t rest, (s.thread i).tasks = t :: rest ∧ p t = true := by
  unfold State.atTask
  cases (s.thread i).tasks with
  | nil => simp
  | cons t rest => simp

theorem mayCall_idle {rq : Request} (h : s.mayCall i rq = true) : (s.thread i).tasks = [] := by
  unfold State.mayCall at h
  simp only [Bool.and_eq_true, List.isEmpty_iff] at h
  exact h.1.2

theorem mayCall_role {rq : Request} (h : s.mayCall i rq = true) :
    layer (roleOf i) (s.thread i).outer = .app ∨
      layer (roleOf i) (s.thread i).outer = .callback ∧ rq.fromCallback = true := by
  unfold State.mayCall Thread.inCallback at h
  unfold layer
  simp only [Bool.and_eq_true] at h
  have hwho := h.2
  cases ho : (s.thread i).outer.isEmpty with
  | true =>
    rw [ho] at hwho
    left
    simp only [Bool.not_true, Bool.false_eq_true, if_false, bne_iff_ne, ne_eq] at hwho
    simp [roleOf, hwho]
  | false =>
    rw [ho] at hwho
    exact .inr ⟨by simp, by simpa using hwho⟩

end

end Reentrant

end HxClog
