import HxClog.Lib.Pool
import HxClog.Threads

/-!
# Where threads go

`PcStep` lists the moves of a thread's program counter, with what is known at
each of them. Other threads stay where they are, except that a signal may wake
those parked on `not_full`.
-/

namespace HxClog

/-! ## Lists of threads -/

/-- Waking some of the parked threads changes nothing that does not tell parked
from woken. -/
theorem wakeAll_filterMap {β : Type*} {f : Pc → Option β} (hf : ∀ pc, f pc.wake = f pc) (threads : List Pc) :
    (wakeAll threads).filterMap f = threads.filterMap f := by
  unfold wakeAll
  rw [List.filterMap_map]
  congr 1
  funext pc
  exact hf pc

theorem wakeAll_set_filterMap {β : Type*} {f : Pc → Option β} (hf : ∀ pc, f pc.wake = f pc) (threads : List Pc)
    (i : Nat) (pc : Pc) : ((wakeAll threads).set i pc).filterMap f = (threads.set i pc).filterMap f := by
  unfold wakeAll
  induction threads generalizing i with
  | nil => rfl
  | cons x threads ih =>
    cases i with
    | zero =>
      simp only [List.map_cons, List.set_cons_zero, List.filterMap_cons]
      have := wakeAll_filterMap hf threads
      unfold wakeAll at this
      rw [this]
    | succ i =>
      simp only [List.map_cons, List.set_cons_succ, List.filterMap_cons, hf]
      rw [ih]

theorem signal_wakes {threads threads' : List Pc} {wake : List Nat} (h : signalNotFull threads wake = some threads') :
    threads' = threads.mapIdx fun i pc => if wake.contains i then pc.wake else pc := by
  unfold signalNotFull at h
  split at h
  · cases h
  · split at h
    · cases h; rfl
    · cases h

theorem mapIdx_filterMap {β : Type*} {f : Pc → Option β} (hf : ∀ pc, f pc.wake = f pc) (threads : List Pc)
    (p : Nat → Bool) : (threads.mapIdx fun i pc => if p i then pc.wake else pc).filterMap f = threads.filterMap f := by
  induction threads generalizing p with
  | nil => rfl
  | cons pc threads ih =>
    rw [List.mapIdx_cons, List.filterMap_cons, List.filterMap_cons, ih fun i => p (i + 1)]
    have : f (if p 0 then pc.wake else pc) = f pc := by split; exact hf pc; rfl
    rw [this]

theorem signal_filterMap {β : Type*} {f : Pc → Option β} (hf : ∀ pc, f pc.wake = f pc)
    {threads threads' : List Pc} {wake : List Nat} (h : signalNotFull threads wake = some threads') :
    threads'.filterMap f = threads.filterMap f := by
  rw [signal_wakes h]; exact mapIdx_filterMap hf threads wake.contains

@[simp] theorem wake_held (pc : Pc) : pc.wake.held = pc.held := by cases pc <;> rfl

/-- The same threads, up to who has been woken. -/
def SameThreads (threads threads' : List Pc) : Prop :=
  ∀ (β : Type) (f : Pc → Option β), (∀ pc, f pc.wake = f pc) → threads'.filterMap f = threads.filterMap f

theorem SameThreads.refl (threads : List Pc) : SameThreads threads threads := fun _ _ _ => rfl

theorem SameThreads.forall {threads threads' : List Pc} (h : SameThreads threads threads') {P : Pc → Prop}
    (hP : ∀ pc, P pc.wake ↔ P pc) (hall : ∀ pc ∈ threads, P pc) : ∀ pc ∈ threads', P pc := by
  classical
  have hf := h Unit (fun pc => if P pc then none else some ()) fun pc => by simp only [hP pc]
  have hnil : (threads.filterMap fun pc => if P pc then none else some ()) = [] :=
    List.filterMap_eq_nil_iff.mpr fun pc hm => if_pos (hall pc hm)
  intro pc hm
  by_contra hn
  have := List.filterMap_eq_nil_iff.mp (hf.trans hnil) pc hm
  rw [if_neg hn] at this
  cases this

/-! ## What a program counter carries -/

def Caller.cfg? : Caller → Option AsyncConfig
  | .reconfigure cfg => some cfg
  | _ => none

/-- The configuration a reconfiguring thread is about to install. -/
def Pc.cfg? : Pc → Option AsyncConfig
  | .flush _ k => k.cfg?
  | .asyncFlush _ k => k.cfg?
  | .flushWait _ k => k.cfg?
  | .flushSinks _ k => k.cfg?
  | .initLock cfg => some cfg
  | .checkMode cfg => some cfg
  | .stop cfg => some cfg
  | .join cfg => some cfg
  | .detach cfg => some cfg
  | .swap cfg => some cfg
  | .start cfg => some cfg
  | _ => none

theorem cfg_of_held {pc : Pc} {l : Line} (h : pc.held = some l) : pc.cfg? = none := by
  cases pc <;> first | rfl | cases h

@[simp] theorem afterWrite_cfg (mark : Nat) (l : Line) : (afterWrite mark l).cfg? = none := by
  unfold afterWrite; split <;> rfl

@[simp] theorem wake_cfg (pc : Pc) : pc.wake.cfg? = pc.cfg? := by cases pc <;> rfl


/-! ## Moves -/

/-- The events that settle the line `l` of thread `i`. -/
def settling (i : Nat) (l : Line) : List Ev := [.direct i l, .stored i l, .refused i l, .lost i l]

/-- Why `hx_async_flush` may return. -/
def FlushPasses (s : State) : Pc → Prop
  | .asyncFlush _ _ => s.primsReady = false ∨ s.eng.running = false ∨ s.eng.stop = true ∨ s.eng.count = 0
  | .flushWait _ _ => s.eng.running = false ∨ s.eng.stop = true ∨ s.eng.count = 0 ∨ s.eng.flushRequest = false
  | _ => False

/-- Between taking and releasing the init lock, or waiting for it. -/
def Pc.reconfiguring : Pc → Bool
  | .initLock _ => true
  | .checkMode _ => true
  | .stop _ => true
  | .join _ => true
  | .detach _ => true
  | .swap _ => true
  | .start _ => true
  | .create => true
  | .abortStart => true
  | .publish => true
  | .unlock => true
  | _ => false

/-- A thread with index `i` goes from one program counter to the next while the
system goes from `s` to `s'`. -/
inductive PcStep (a : Act) (s s' : State) (i : Nat) : Pc → Pc → Prop
  | call (l : Line) : PcStep a s s' i .idle (.dispatch l)
  | callFlush (ht : s'.trace = s.trace ++ [.flushCalled i]) : PcStep a s s' i .idle (.flush (s.trace.length + 1) .user)
  | callReconfigure (cfg : AsyncConfig) (ha : a = .callReconfigure i cfg) : PcStep a s s' i .idle (.initLock cfg)
  | carry (l : Line) (pc pc' : Pc) (h : pc.held = some l) (h' : pc'.held = some l) : PcStep a s s' i pc pc'
  | settle (l : Line) (pc : Pc) (h : pc.held = some l) (evs : List Ev) (ht : s'.trace = s.trace ++ evs)
      (ev : Ev) (hm : ev ∈ evs) (hev : ev ∈ settling i l) : PcStep a s s' i pc (afterWrite s'.trace.length l)
  | flushAsync (mark : Nat) (k : Caller) (hm : s.mode = .async) : PcStep a s s' i (.flush mark k) (.asyncFlush mark k)
  | flushSync (mark : Nat) (k : Caller) (hm : s.mode = .sync) : PcStep a s s' i (.flush mark k) (.flushSinks mark k)
  | flushPasses (mark : Nat) (k : Caller) (pc : Pc) (hpc : pc = .asyncFlush mark k ∨ pc = .flushWait mark k)
      (h : FlushPasses s pc) : PcStep a s s' i pc (.flushSinks mark k)
  | flushWaits (mark : Nat) (k : Caller) (pc : Pc) (hpc : pc = .asyncFlush mark k ∨ pc = .flushWait mark k)
      (h : s'.eng.flushRequest = true) : PcStep a s s' i pc (.flushWait mark k)
  | flushed (mark : Nat) (k : Caller) (ht : s'.trace = s.trace ++ [.flush mark k]) :
      PcStep a s s' i (.flushSinks mark k) k.after
  | locked (cfg : AsyncConfig) (hfree : s.initLock = false) (ht : s'.trace = s.trace) :
      PcStep a s s' i (.initLock cfg) (.flush s.trace.length (.reconfigure cfg))
  | rejected (cfg : AsyncConfig) : PcStep a s s' i (.initLock cfg) .idle
  | reconfigure (pc pc' : Pc) (h : pc.reconfiguring = true) (h' : pc'.reconfiguring = true)
      (hcfg : pc'.cfg? = none ∨ pc'.cfg? = pc.cfg?) : PcStep a s s' i pc pc'
  | unlocked : PcStep a s s' i .unlock .idle

/-- The thread `i` moves as `PcStep` says, and the others stay. -/
structure ThreadStep (a : Act) (s s' : State) (i : Nat) (pc pc' : Pc) : Prop where
  threads : SameThreads (s.threads.set i pc') s'.threads
  step : PcStep a s s' i pc pc'
  mode : pc.reconfiguring = false → s'.mode = s.mode

section
variable {a : Act} {s s' : State} {i : Nat} {pc pc' : Pc}

theorem threadStep_set (h : s'.threads = s.threads.set i pc') (hs : PcStep a s s' i pc pc')
    (hm : pc.reconfiguring = false → s'.mode = s.mode) : ThreadStep a s s' i pc pc' :=
  ⟨by rw [h]; exact .refl _, hs, hm⟩

theorem threadStep_settle {l : Line} (hl : pc.held = some l) (r : Enqueue) :
    ∃ pc', ThreadStep a s (settleEnqueue s i l r) i pc pc' := by
  cases r with
  | unavailable => exact ⟨.emit l, threadStep_set rfl (.carry l _ _ hl rfl) fun _ => rfl⟩
  | wait => exact ⟨.parked l, threadStep_set rfl (.carry l _ _ hl rfl) fun _ => rfl⟩
  | refused e report =>
    exact ⟨_, threadStep_set rfl (.settle l _ hl _ rfl (.refused i l) (by simp) (by simp [settling])) fun _ => rfl⟩
  | settled e old stored report =>
    refine ⟨_, threadStep_set rfl (.settle l _ hl _ rfl (if stored then .stored i l else .lost i l)
      (by simp) ?_) fun _ => rfl⟩
    cases stored <;> simp [settling]

theorem threadMove_step {c : Choice} (hi : s.threads[i]? = some pc) (h : threadMove s i c pc = some s') :
    ∃ pc', ThreadStep a s s' i pc pc' := by
  cases pc with
  | idle => cases h
  | parked l => cases h
  | dispatch l =>
    cases h
    refine ⟨_, threadStep_set rfl (.carry l _ _ rfl ?_) fun _ => rfl⟩
    cases s.mode <;> rfl
  | enqueue l =>
    simp only [threadMove] at h
    split at h
    · cases h; exact ⟨.emit l, threadStep_set rfl (.carry l _ _ rfl rfl) fun _ => rfl⟩
    · split at h
      · obtain ⟨r, _, rfl⟩ := Option.map_eq_some_iff.mp h
        exact threadStep_settle rfl r
      · cases h
  | woken l =>
    simp only [threadMove] at h
    split at h
    · obtain ⟨r, _, rfl⟩ := Option.map_eq_some_iff.mp h
      exact threadStep_settle rfl r
    · cases h
  | emit l =>
    cases h
    exact ⟨_, threadStep_set rfl (.settle l _ rfl _ rfl (.direct i l) (by simp) (by simp [settling])) fun _ => rfl⟩
  | flush mark k =>
    cases h
    cases hm : s.mode with
    | async => exact ⟨_, threadStep_set rfl (.flushAsync mark k hm) fun _ => rfl⟩
    | sync => exact ⟨_, threadStep_set rfl (.flushSync mark k hm) fun _ => rfl⟩
  | asyncFlush mark k =>
    simp only [threadMove] at h
    split at h
    · rename_i hp
      cases h
      refine ⟨_, threadStep_set rfl (.flushPasses mark k _ (Or.inl rfl) (Or.inl ?_)) fun _ => rfl⟩
      simpa using hp
    · split at h
      · cases h
        unfold asyncFlushEnter
        split
        · rename_i hq
          rw [Bool.or_eq_true, Bool.not_eq_true', beq_iff_eq] at hq
          refine ⟨_, threadStep_set rfl (.flushPasses mark k _ (Or.inl rfl) (Or.inr ?_)) fun _ => rfl⟩
          exact hq.imp id Or.inr
        · split
          · rename_i hs
            exact ⟨_, threadStep_set rfl (.flushPasses mark k _ (Or.inl rfl) (Or.inr (Or.inr (Or.inl hs)))) fun _ => rfl⟩
          · exact ⟨_, threadStep_set rfl (.flushWaits mark k _ (Or.inl rfl) rfl) fun _ => rfl⟩
      · cases h
  | flushWait mark k =>
    simp only [threadMove] at h
    split at h
    · cases h
      unfold asyncFlushWake
      split
      · rename_i h0
        exact ⟨_, threadStep_set rfl (.flushPasses mark k _ (Or.inr rfl)
          (Or.inr (Or.inr (Or.inl (beq_iff_eq.mp h0))))) fun _ => rfl⟩
      · split
        · rename_i hw
          rw [Bool.and_eq_true, Bool.and_eq_true] at hw
          refine ⟨.flushWait mark k, ?_, .flushWaits mark k _ (Or.inr rfl) hw.1.1, fun _ => rfl⟩
          exact fun β f _ => (Pool.filterMap_set_same hi rfl).symm
        · rename_i hw
          refine ⟨_, threadStep_set rfl (.flushPasses mark k _ (Or.inr rfl) ?_) fun _ => rfl⟩
          cases hf : s.eng.flushRequest <;> cases hr : s.eng.running <;> cases hs : s.eng.stop <;>
            simp_all [FlushPasses]
    · cases h
  | flushSinks mark k => cases h; exact ⟨_, threadStep_set rfl (.flushed mark k rfl) fun _ => rfl⟩
  | initLock cfg =>
    simp only [threadMove] at h
    split at h
    · cases h
    · rename_i hl
      split at h
      · cases h; exact ⟨_, threadStep_set rfl (.locked cfg (by simpa using hl) rfl) fun _ => rfl⟩
      · cases h; exact ⟨_, threadStep_set rfl (.rejected cfg) fun _ => rfl⟩
  | checkMode cfg =>
    cases h
    cases s.mode with
    | async => exact ⟨_, threadStep_set rfl (.reconfigure _ (.stop cfg) rfl rfl (Or.inr rfl)) (nomatch ·)⟩
    | sync => exact ⟨_, threadStep_set rfl (.reconfigure _ (.swap cfg) rfl rfl (Or.inr rfl)) (nomatch ·)⟩
  | stop cfg =>
    simp only [threadMove] at h
    split at h
    · cases h; exact ⟨_, threadStep_set rfl (.reconfigure _ (.swap cfg) rfl rfl (Or.inr rfl)) (nomatch ·)⟩
    · split at h
      · cases h
        unfold asyncStopEnter
        split
        · exact ⟨_, threadStep_set rfl (.reconfigure _ (.swap cfg) rfl rfl (Or.inr rfl)) (nomatch ·)⟩
        · exact ⟨.join cfg, fun β f hf => wakeAll_set_filterMap hf _ _ _,
            .reconfigure _ (.join cfg) rfl rfl (Or.inr rfl), (nomatch ·)⟩
      · cases h
  | join cfg =>
    simp only [threadMove] at h
    split at h
    · cases h; exact ⟨_, threadStep_set rfl (.reconfigure _ (.detach cfg) rfl rfl (Or.inr rfl)) (nomatch ·)⟩
    · cases h
  | detach cfg =>
    simp only [threadMove] at h
    split at h
    · cases h; exact ⟨_, threadStep_set rfl (.reconfigure _ (.swap cfg) rfl rfl (Or.inr rfl)) (nomatch ·)⟩
    · cases h
  | swap cfg =>
    cases h
    cases cfg.mode with
    | async => exact ⟨_, threadStep_set rfl (.reconfigure _ (.start cfg) rfl rfl (Or.inr rfl)) (nomatch ·)⟩
    | sync => exact ⟨_, threadStep_set rfl (.reconfigure _ .unlock rfl rfl (Or.inl rfl)) (nomatch ·)⟩
  | start cfg =>
    simp only [threadMove] at h
    split at h
    · cases h; exact ⟨_, threadStep_set rfl (.reconfigure _ .unlock rfl rfl (Or.inl rfl)) (nomatch ·)⟩
    · split at h
      · cases h; exact ⟨_, threadStep_set rfl (.reconfigure _ .create rfl rfl (Or.inl rfl)) (nomatch ·)⟩
      · cases h
  | create =>
    simp only [threadMove] at h
    split at h
    · cases h; exact ⟨_, threadStep_set rfl (.reconfigure _ .publish rfl rfl (Or.inl rfl)) (nomatch ·)⟩
    · cases h; exact ⟨_, threadStep_set rfl (.reconfigure _ .abortStart rfl rfl (Or.inl rfl)) (nomatch ·)⟩
  | abortStart =>
    simp only [threadMove] at h
    split at h
    · cases h; exact ⟨_, threadStep_set rfl (.reconfigure _ .unlock rfl rfl (Or.inl rfl)) (nomatch ·)⟩
    · cases h
  | publish => cases h; exact ⟨_, threadStep_set rfl (.reconfigure _ .unlock rfl rfl (Or.inl rfl)) (nomatch ·)⟩
  | unlock => cases h; exact ⟨_, threadStep_set rfl .unlocked fun h => by cases h⟩

end

/-! ## The worker -/

theorem workerMove_threads {s s' : State} {c : Choice} {w : Worker} (h : workerMove s c w = some s') :
    SameThreads s.threads s'.threads ∧ s'.mode = s.mode := by
  cases w with
  | none => cases h
  | exited => cases h
  | top =>
    cases h
    unfold workerTop workerAfterWait
    split
    · exact ⟨.refl _, rfl⟩
    · split <;> exact ⟨.refl _, rfl⟩
  | waiting =>
    cases h
    unfold workerTop workerAfterWait
    split <;> split <;> first | exact ⟨.refl _, rfl⟩ | split <;> exact ⟨.refl _, rfl⟩
  | batch n =>
    simp only [workerMove, workerBatch] at h
    split at h
    · obtain ⟨r, _, h⟩ := Option.bind_eq_some_iff.mp h
      obtain ⟨threads, hsig, h⟩ := Option.map_eq_some_iff.mp h
      cases r <;> (subst h; exact ⟨fun _ _ hf => signal_filterMap hf hsig, rfl⟩)
    · cases h; exact ⟨.refl _, rfl⟩
  | _ => cases h; exact ⟨.refl _, rfl⟩

/-- The thread an act moves, if it is not the worker's. -/
def Act.thread? : Act → Option Nat
  | .call i _ => some i
  | .callFlush i => some i
  | .callReconfigure i _ => some i
  | .thread i _ => some i
  | .spurious i => some i
  | .worker _ => none

/-- Either one thread moves or the worker does. -/
theorem step_threads {s s' : State} {a : Act} (h : step s a = some s') :
    (a.thread? = none ∧ SameThreads s.threads s'.threads ∧ s'.mode = s.mode) ∨
    ∃ i pc pc', a.thread? = some i ∧ s.threads[i]? = some pc ∧ ThreadStep a s s' i pc pc' := by
  cases a with
  | call i l =>
    simp only [step] at h
    split at h
    · rename_i hi
      cases h
      exact Or.inr ⟨i, _, _, rfl, hi, threadStep_set rfl (.call l) fun _ => rfl⟩
    · cases h
  | callFlush i =>
    simp only [step] at h
    split at h
    · rename_i hi
      cases h
      exact Or.inr ⟨i, _, _, rfl, hi, threadStep_set rfl (.callFlush rfl) fun _ => rfl⟩
    · cases h
  | callReconfigure i cfg =>
    simp only [step] at h
    split at h
    · rename_i hi
      cases h
      exact Or.inr ⟨i, _, _, rfl, hi, threadStep_set rfl (.callReconfigure cfg rfl) fun _ => rfl⟩
    · cases h
  | thread i c =>
    obtain ⟨pc, hi, h⟩ := Option.bind_eq_some_iff.mp h
    obtain ⟨pc', hstep⟩ := threadMove_step hi h
    exact Or.inr ⟨i, pc, pc', rfl, hi, hstep⟩
  | spurious i =>
    obtain ⟨pc, hi, h⟩ := Option.bind_eq_some_iff.mp h
    split at h
    · rename_i hp
      cases h
      cases pc with
      | parked l => exact Or.inr ⟨i, _, _, rfl, hi, threadStep_set rfl (.carry l _ _ rfl rfl) fun _ => rfl⟩
      | _ => cases hp
    · cases h
  | worker c => exact Or.inl ⟨rfl, workerMove_threads h⟩

end HxClog

