import HxClog.LosslessSound

/-!
# Woken producers make up for free slots

A producer parked on `not_full` is woken when a slot becomes free. Others may take the
slot first, and the woken one may go back to sleep, so what is counted is this: as
long as someone is parked, there are at least as many producers on their way back as
there are free slots.
-/

namespace HxClog

/-! ## Parked and woken -/

def Pc.isWoken : Pc → Bool
  | .woken _ => true
  | _ => false

/-- Neither parked nor woken. -/
def Pc.away (pc : Pc) : Bool := !pc.isParked && !pc.isWoken

def Parked (threads : List Pc) : Prop := ∃ pc ∈ threads, pc.isParked = true

def wokenCount (threads : List Pc) : Nat := threads.countP Pc.isWoken

def AsyncEngine.free (e : AsyncEngine) : Nat := e.capacity - e.count

/-- Nobody sleeps on an engine that is off or stopping, nor goes back to sleep on one that is off. -/
structure Quiet (e : AsyncEngine) (threads : List Pc) : Prop where
  quiet : e.running = false ∨ e.stop = true → ¬Parked threads
  settled : e.running = false → e.stop = false → wokenCount threads = 0 ∨ e.count < e.capacity

/-- Slots do not become free without someone on the way to take them. -/
structure Awake (e : AsyncEngine) (threads : List Pc) : Prop extends Quiet e threads where
  enough : e.running = true → e.stop = false → Parked threads → e.free ≤ wokenCount threads

/-- A woken producer whose allocation fails leaves enough others on the way back, or nobody asleep. -/
def wakePassedOn (s : State) : Act → Bool
  | .thread i c =>
    match s.threads[i]? with
    | some (.woken _) => c.alloc || !s.threads.any Pc.isParked || decide (s.eng.free < wokenCount s.threads)
    | _ => true
  | _ => true

section
variable {threads : List Pc} {i : Nat} {pc pc' : Pc}

theorem parked_set (h : Parked (threads.set i pc')) (hp : pc'.isParked = false) : Parked threads := by
  obtain ⟨p, hm, hpark⟩ := h
  rcases List.mem_or_eq_of_mem_set hm with hm | rfl
  · exact ⟨p, hm, hpark⟩
  · rw [hp] at hpark
    cases hpark

theorem wokenCount_set (hi : threads[i]? = some pc) (pc' : Pc) :
    wokenCount (threads.set i pc') + (if pc.isWoken then 1 else 0) =
      wokenCount threads + if pc'.isWoken then 1 else 0 := by
  obtain ⟨hlt, rfl⟩ := List.getElem?_eq_some_iff.mp hi
  unfold wokenCount
  rw [List.countP_set hlt]
  have hle : (if threads[i].isWoken then 1 else 0) ≤ threads.countP Pc.isWoken := by
    split
    · rename_i hw
      exact List.countP_pos_iff.mpr ⟨threads[i], List.getElem_mem hlt, hw⟩
    · exact Nat.zero_le _
  omega

theorem wake_parked (pc : Pc) : pc.wake.isParked = false := by cases pc <;> rfl

theorem wake_woken (pc : Pc) : pc.wake.isWoken = (pc.isParked || pc.isWoken) := by cases pc <;> rfl

theorem wakeAll_parked (threads : List Pc) : ¬Parked (wakeAll threads) := by
  rintro ⟨pc, hm, hp⟩
  obtain ⟨pc₀, -, rfl⟩ := List.mem_map.mp hm
  rw [wake_parked] at hp
  cases hp

theorem wokenCount_cons (pc : Pc) (threads : List Pc) :
    wokenCount (pc :: threads) = wokenCount threads + if pc.isWoken then 1 else 0 := List.countP_cons

theorem wokenCount_mapIdx : ∀ (threads : List Pc) (w : Nat → Bool),
    wokenCount threads ≤ wokenCount (threads.mapIdx fun i pc => if w i then pc.wake else pc)
  | [], _ => Nat.le_refl _
  | pc :: threads, w => by
    have hrest := wokenCount_mapIdx threads fun i => w (i + 1)
    rw [List.mapIdx_cons, wokenCount_cons, wokenCount_cons]
    have hhead : (if pc.isWoken then 1 else 0) ≤ if (if w 0 then pc.wake else pc).isWoken then 1 else 0 := by
      cases hw : w 0 with
      | false => exact Nat.le_refl _
      | true => cases pc <;> simp [Pc.isWoken, Pc.wake]
    omega

/-- A signal wakes someone if anyone sleeps. -/
theorem wakes_one : ∀ {threads : List Pc} {i : Nat} {pc : Pc} (w : Nat → Bool), threads[i]? = some pc → w i = true →
    pc.isParked = true → wokenCount threads + 1 ≤ wokenCount (threads.mapIdx fun i pc => if w i then pc.wake else pc)
  | [], i, pc, w, hi, _, _ => by simp at hi
  | pc :: threads, 0, pc₀, w, hi, hw, hp => by
    obtain rfl : pc = pc₀ := by simpa using hi
    have hrest := wokenCount_mapIdx threads fun i => w (i + 1)
    have hnot : pc.isWoken = false := by cases pc <;> first | rfl | cases hp
    have hwoken : pc.wake.isWoken = true := by rw [wake_woken, hp]; rfl
    rw [List.mapIdx_cons, wokenCount_cons, wokenCount_cons, if_pos hw, hwoken, hnot]
    simp only [if_true, Bool.false_eq_true, if_false]
    omega
  | pc :: threads, i + 1, pc₀, w, hi, hw, hp => by
    have hrest := wakes_one (fun i => w (i + 1)) (show threads[i]? = some pc₀ by simpa using hi) hw hp
    have hhead : (if pc.isWoken then 1 else 0) ≤ if (if w 0 then pc.wake else pc).isWoken then 1 else 0 := by
      cases hw : w 0 with
      | false => exact Nat.le_refl _
      | true => cases pc <;> simp [Pc.isWoken, Pc.wake]
    rw [List.mapIdx_cons, wokenCount_cons, wokenCount_cons]
    omega

theorem signal_awake {threads' : List Pc} {wake : List Nat} (h : signalNotFull threads wake = some threads') :
    (Parked threads' → Parked threads) ∧ wokenCount threads ≤ wokenCount threads' ∧
      (Parked threads → wokenCount threads + 1 ≤ wokenCount threads') := by
  have hw := signal_wakes h
  refine ⟨?_, ?_, ?_⟩
  · rintro ⟨pc, hm, hp⟩
    rw [hw] at hm
    obtain ⟨i, hi, rfl⟩ := List.mem_mapIdx.mp hm
    split at hp
    · rw [wake_parked] at hp
      cases hp
    · exact ⟨_, List.getElem_mem hi, hp⟩
  · rw [hw]
    exact wokenCount_mapIdx threads wake.contains
  · intro hpark
    have hany : threads.any Pc.isParked = true := by
      obtain ⟨pc, hm, hp⟩ := hpark
      exact List.any_eq_true.mpr ⟨pc, hm, hp⟩
    unfold signalNotFull at h
    rw [hany, Bool.and_true] at h
    cases hwake : wake with
    | nil =>
      rw [hwake] at h
      cases h
    | cons i rest =>
      rw [hwake] at h
      split at h
      · cases h
      · split at h
        · rename_i hall
          have hi := List.all_eq_true.mp hall i List.mem_cons_self
          cases hget : threads[i]? with
          | none => rw [hget] at hi; cases hi
          | some pc =>
            rw [hget] at hi
            rw [hw, hwake]
            exact wakes_one (i :: rest).contains hget (by simp) hi
        · cases h

end

/-! ## What a step does to sleepers and slots -/

inductive Turn (a : Act) (s s' : State) : Prop
  | rests (ht : s'.threads = s.threads) (hr : s'.eng.running = s.eng.running) (hs : s'.eng.stop = s.eng.stop)
      (hcap : s'.eng.capacity = s.eng.capacity) (hcount : s'.eng.count = s.eng.count)
  | goes (i : Nat) (pc pc' : Pc) (hi : s.threads[i]? = some pc) (hp : pc.away = true) (hp' : pc'.away = true)
      (ht : s'.threads = s.threads.set i pc') (hr : s'.eng.running = s.eng.running) (hs : s'.eng.stop = s.eng.stop)
      (hcap : s'.eng.capacity = s.eng.capacity) (hcount : s'.eng.count = s.eng.count)
  | settles (i : Nat) (c : Choice) (pc pc' : Pc) (ha : a = .thread i c) (hi : s.threads[i]? = some pc)
      (hp' : pc'.away = true) (ht : s'.threads = s.threads.set i pc') (hr : s.eng.running = true)
      (hs : s.eng.stop = false) (hr' : s'.eng.running = true) (hs' : s'.eng.stop = false)
      (hcap : s'.eng.capacity = s.eng.capacity)
      (hcount : s'.eng.count = s.eng.count + 1 ∨ (c.alloc = false ∧ s'.eng.count = s.eng.count) ∨
        s.eng.overflow ≠ .block)
  | refused (i : Nat) (pc pc' : Pc) (hi : s.threads[i]? = some pc) (hp' : pc'.away = true)
      (ht : s'.threads = s.threads.set i pc') (hoff : s.eng.running = false ∨ s.eng.stop = true) (he : s'.eng = s.eng)
  | parks (i : Nat) (pc : Pc) (l : Line) (hi : s.threads[i]? = some pc) (ht : s'.threads = s.threads.set i (.parked l))
      (hr : pc.isWoken = false → s.eng.running = true) (hs : s.eng.stop = false)
      (hfull : s.eng.capacity ≤ s.eng.count) (he : s'.eng = s.eng)
  | wakes (i : Nat) (pc : Pc) (hi : s.threads[i]? = some pc) (hp : pc.isParked = true)
      (ht : s'.threads = s.threads.set i pc.wake) (he : s'.eng = s.eng)
  | taken (wake : List Nat) (hsig : signalNotFull s.threads wake = some s'.threads) (hr : s.eng.running = true)
      (hr' : s'.eng.running = true) (hs : s'.eng.stop = s.eng.stop) (hcap : s'.eng.capacity = s.eng.capacity)
      (hcount : s'.eng.count + 1 = s.eng.count)
  | stops (i : Nat) (pc' : Pc) (hp' : pc'.away = true) (ht : s'.threads = (wakeAll s.threads).set i pc')
      (hs' : s'.eng.stop = true)
  | ends (i : Nat) (pc' : Pc) (hp' : pc'.away = true) (ht : s'.threads = s.threads.set i pc')
      (hs : s.eng.stop = true) (hr' : s'.eng.running = false) (hs' : s'.eng.stop = true)
  | starts (i : Nat) (pc' : Pc) (hp' : pc'.away = true) (ht : s'.threads = s.threads.set i pc')
      (hr : s.eng.running = false) (hr' : s'.eng.running = true)

section
variable {a : Act} {s s' : State} {i : Nat} {c : Choice} {pc : Pc}

theorem turn_goto (hi : s.threads[i]? = some pc) {pc' : Pc} (hp : pc.away = true) (hp' : pc'.away = true) :
    Turn a s (s.goto i pc') := .goes i pc pc' hi hp hp' rfl rfl rfl rfl rfl

@[simp] theorem afterWrite_away (mark : Nat) (l : Line) : (afterWrite mark l).away = true := by
  unfold afterWrite
  split <;> rfl

theorem queued_count {e e' : AsyncEngine} {l : Line} {stored : Bool} (hw : e.WF) (h : Stored e e' l stored) :
    e'.count = if stored then e.count + 1 else e.count := by
  have hlen := congrArg List.length h.queued
  rw [apply_ite List.length, List.length_append, List.length_singleton, AsyncEngine.queued_length h.wf,
    AsyncEngine.queued_length hw] at hlen
  exact hlen

/-- The end of a section of `hx_async_enqueue`, for a thread that comes in or was woken. -/
theorem turn_settleEnqueue {l : Line} {r : Enqueue} (hc : Control s) (hi : s.threads[i]? = some pc)
    (hq : Enqueued s.eng l c.alloc r) (hwait : r = .wait → pc.isWoken = false → s.eng.running = true) :
    Turn (.thread i c) s (settleEnqueue s i l r) := by
  cases hq with
  | unavailable hoff => exact .refused i pc (.emit l) hi rfl rfl hoff rfl
  | wait hfull => exact .parks i pc l hi rfl (hwait rfl) hfull.2 hfull.1 rfl
  | refused report hr hs hp =>
    refine .settles i c pc _ rfl hi (afterWrite_away _ l) rfl hr hs hr hs rfl (.inr (.inr ?_))
    rw [hp]
    exact fun h => by cases h
  | evicted mid e' old stored report hr hs hp hfull hq hsame hscratch hd h ha =>
    refine .settles i c pc _ rfl hi (afterWrite_away _ l) rfl hr hs (h.same.running.trans (hsame.running.trans hr))
      (h.same.stop.trans (hsame.stop.trans hs)) (h.same.capacity.trans hsame.capacity) (.inr (.inr ?_))
    rw [hp]
    exact fun h => by cases h
  | stored e' stored report hr hs hlt hst ha =>
    have hcount := queued_count (hc.wf hr) hst
    refine .settles i c pc _ rfl hi (afterWrite_away _ l) rfl hr hs (hst.same.running.trans hr)
      (hst.same.stop.trans hs) hst.same.capacity ?_
    cases stored with
    | true => exact .inl hcount
    | false =>
      refine .inr (.inl ⟨?_, hcount⟩)
      cases hall : c.alloc with
      | false => rfl
      | true => cases ha hall

theorem enqueue_waits_running {e : AsyncEngine} {l : Line} {alloc : Bool}
    (h : hxAsyncEnqueue e l alloc = some .wait) : e.running = true := by
  unfold hxAsyncEnqueue at h
  split at h
  · cases h
  · rename_i hon
    rw [Bool.or_eq_true, Bool.not_eq_true', not_or, Bool.not_eq_false] at hon
    exact hon.1

theorem turn_threadMove (hc : Control s) (hi : s.threads[i]? = some pc) (hm : threadMove s i c pc = some s') :
    Turn (.thread i c) s s' := by
  cases pc with
  | idle => cases hm
  | parked l => cases hm
  | dispatch l =>
    cases hm
    refine turn_goto hi rfl ?_
    cases s.mode <;> rfl
  | enqueue l =>
    simp only [threadMove] at hm
    split at hm
    · cases hm
      exact turn_goto hi rfl rfl
    · split at hm
      · obtain ⟨r, hres, rfl⟩ := Option.map_eq_some_iff.mp hm
        exact turn_settleEnqueue hc hi (hxAsyncEnqueue_spec hc.wf hres) fun hw _ => enqueue_waits_running (hw ▸ hres)
      · cases hm
  | woken l =>
    simp only [threadMove] at hm
    split at hm
    · obtain ⟨r, hres, rfl⟩ := Option.map_eq_some_iff.mp hm
      refine turn_settleEnqueue hc hi (asyncEnqueueBlock_spec hc.wf hres) fun _ hw => ?_
      cases hw
    · cases hm
  | emit l =>
    cases hm
    exact .goes i _ _ hi rfl (afterWrite_away _ l) rfl rfl rfl rfl rfl
  | flush mark k =>
    cases hm
    refine turn_goto hi rfl ?_
    cases s.mode <;> rfl
  | asyncFlush mark k =>
    simp only [threadMove] at hm
    split at hm
    · cases hm
      exact turn_goto hi rfl rfl
    · split at hm
      · cases hm
        unfold asyncFlushEnter
        split
        · exact turn_goto hi rfl rfl
        · split
          · exact .goes i _ (.flushSinks mark k) hi rfl rfl rfl rfl rfl rfl rfl
          · exact .goes i _ (.flushWait mark k) hi rfl rfl rfl rfl rfl rfl rfl
      · cases hm
  | flushWait mark k =>
    simp only [threadMove] at hm
    split at hm
    · cases hm
      unfold asyncFlushWake
      split
      · exact turn_goto hi rfl rfl
      · split
        · exact .rests rfl rfl rfl rfl rfl
        · exact turn_goto hi rfl rfl
    · cases hm
  | flushSinks mark k =>
    cases hm
    refine .goes i _ k.after hi rfl ?_ rfl rfl rfl rfl rfl
    cases k <;> rfl
  | initLock cfg =>
    simp only [threadMove] at hm
    split at hm
    · cases hm
    · split at hm
      · cases hm
        exact .goes i _ (.flush s.trace.length (.reconfigure cfg)) hi rfl rfl rfl rfl rfl rfl rfl
      · cases hm
        exact turn_goto hi rfl rfl
  | checkMode cfg =>
    cases hm
    cases s.mode with
    | async => exact .goes i _ (.stop cfg) hi rfl rfl rfl rfl rfl rfl rfl
    | sync => exact turn_goto hi rfl rfl
  | stop cfg =>
    simp only [threadMove] at hm
    split at hm
    · cases hm
      exact turn_goto hi rfl rfl
    · split at hm
      · cases hm
        unfold asyncStopEnter
        split
        · exact turn_goto hi rfl rfl
        · exact .stops i (.join cfg) rfl rfl rfl
      · cases hm
  | join cfg =>
    simp only [threadMove] at hm
    split at hm
    · cases hm
      exact .goes i _ (.detach cfg) hi rfl rfl rfl rfl rfl rfl rfl
    · cases hm
  | detach cfg =>
    obtain ⟨_, ⟨_, _, hstop, _, _⟩, _⟩ := phase_of_thread hi hc rfl
    simp only [threadMove] at hm
    split at hm
    · cases hm
      exact .ends i (.swap cfg) rfl rfl hstop rfl hstop
    · cases hm
  | swap cfg =>
    cases hm
    cases cfg.mode with
    | async => exact .goes i _ (.start cfg) hi rfl rfl rfl rfl rfl rfl rfl
    | sync => exact .goes i _ .unlock hi rfl rfl rfl rfl rfl rfl rfl
  | start cfg =>
    obtain ⟨_, ⟨_, hd⟩, _⟩ := phase_of_thread hi hc rfl
    simp only [threadMove] at hm
    split at hm
    · cases hm
      exact .goes i _ .unlock hi rfl rfl rfl rfl rfl rfl rfl
    · split at hm
      · cases hm
        exact .starts i .create rfl rfl hd.running rfl
      · cases hm
  | create =>
    simp only [threadMove] at hm
    split at hm
    · cases hm
      exact .goes i _ .publish hi rfl rfl rfl rfl rfl rfl rfl
    · cases hm
      exact turn_goto hi rfl rfl
  | abortStart => exact (phase_of_thread hi hc rfl).2.1.elim
  | publish =>
    cases hm
    exact .goes i _ .unlock hi rfl rfl rfl rfl rfl rfl rfl
  | unlock =>
    cases hm
    exact .goes i _ .idle hi rfl rfl rfl rfl rfl rfl rfl

theorem turn_workerMove (hc : Control s) (hm : workerMove s c s.worker = some s') : Turn (.worker c) s s' := by
  have hafter : Turn (.worker c) s (workerAfterWait s) := by
    unfold workerAfterWait
    split <;> exact .rests rfl rfl rfl rfl rfl
  have htop : Turn (.worker c) s (workerTop s) := by
    unfold workerTop
    split
    · exact .rests rfl rfl rfl rfl rfl
    · exact hafter
  cases hw : s.worker with
  | none => rw [hw] at hm; cases hm
  | exited => rw [hw] at hm; cases hm
  | top =>
    rw [hw] at hm
    cases hm
    exact htop
  | waiting =>
    rw [hw] at hm
    cases hm
    split
    · exact hafter
    · exact htop
  | batch n =>
    have hrun := running_of_worker hc (by rw [hw]; simp)
    rw [hw] at hm
    simp only [workerMove, workerBatch] at hm
    split at hm
    · rename_i hpos
      obtain ⟨r, hpop, hm⟩ := Option.bind_eq_some_iff.mp hm
      obtain ⟨threads, hsig, rfl⟩ := Option.map_eq_some_iff.mp hm
      have hcount {e : AsyncEngine} {l : Line} (hwf : e.WF) (hq : s.eng.queued = l :: e.queued) :
          e.count + 1 = s.eng.count := by
        have hlen := congrArg List.length hq
        rw [List.length_cons, AsyncEngine.queued_length hwf, AsyncEngine.queued_length (hc.wf hrun)] at hlen
        exact hlen.symm
      rcases workerPop_spec (hc.wf hrun) hpos.1 hpop with ⟨e, l, rfl, -, hwf, hsame, hq, -⟩ | ⟨e, p, rfl, hwf, hsame, hq, -⟩
      · exact .taken c.wake hsig hrun (hsame.running.trans hrun) hsame.stop hsame.capacity (hcount hwf hq)
      · exact .taken c.wake hsig hrun (hsame.running.trans hrun) hsame.stop hsame.capacity (hcount hwf hq)
    · cases hm
      exact .rests rfl rfl rfl rfl rfl
  | _ =>
    rw [hw] at hm
    cases hm
    exact .rests rfl rfl rfl rfl rfl

theorem step_turn (hc : Control s) (hst : step s a = some s') : Turn a s s' := by
  cases a with
  | call i l =>
    simp only [step] at hst
    split at hst
    · rename_i hi
      cases hst
      exact .goes i .idle (.dispatch l) hi rfl rfl rfl rfl rfl rfl rfl
    · cases hst
  | callFlush i =>
    simp only [step] at hst
    split at hst
    · rename_i hi
      cases hst
      exact .goes i .idle (.flush (s.trace.length + 1) .user) hi rfl rfl rfl rfl rfl rfl rfl
    · cases hst
  | callReconfigure i cfg =>
    simp only [step] at hst
    split at hst
    · rename_i hi
      cases hst
      exact turn_goto hi rfl rfl
    · cases hst
  | thread i c =>
    obtain ⟨pc, hi, hst⟩ := Option.bind_eq_some_iff.mp hst
    exact turn_threadMove hc hi hst
  | spurious i =>
    obtain ⟨pc, hi, hst⟩ := Option.bind_eq_some_iff.mp hst
    split at hst
    · rename_i hp
      cases hst
      exact .wakes i pc hi hp rfl rfl
    · cases hst
  | worker c => exact turn_workerMove hc hst

/-! ## The invariants -/

theorem away_parked {pc : Pc} (h : pc.away = true) : pc.isParked = false := by
  unfold Pc.away at h
  rw [Bool.and_eq_true, Bool.not_eq_true'] at h
  exact h.1

theorem away_woken {pc : Pc} (h : pc.away = true) : pc.isWoken = false := by
  unfold Pc.away at h
  rw [Bool.and_eq_true, Bool.not_eq_true', Bool.not_eq_true'] at h
  exact h.2

/-- A thread that goes away is not on the way back. -/
theorem wokenCount_away {threads : List Pc} {pc' : Pc} (hi : threads[i]? = some pc) (hp' : pc'.away = true) :
    wokenCount (threads.set i pc') + (if pc.isWoken then 1 else 0) = wokenCount threads := by
  have h := wokenCount_set hi pc'
  rw [away_woken hp'] at h
  exact h

theorem quiet_turn (h : Quiet s.eng s.threads) (ht : Turn a s s') : Quiet s'.eng s'.threads := by
  cases ht with
  | rests ht hr hs hcap hcount =>
    rw [ht]
    exact ⟨by rw [hr, hs]; exact h.quiet, by rw [hr, hs, hcap, hcount]; exact h.settled⟩
  | goes i pc pc' hi hp hp' ht hr hs hcap hcount =>
    have hw := wokenCount_away hi hp'
    rw [ht]
    refine ⟨fun hoff hpark => h.quiet ?_ (parked_set hpark (away_parked hp')), fun hoff hstop => ?_⟩
    · rw [hr, hs] at hoff
      exact hoff
    · rw [hr] at hoff
      rw [hs] at hstop
      rw [hcap, hcount]
      exact (h.settled hoff hstop).imp (fun h0 => by omega) id
  | settles i c pc pc' _ _ _ _ _ _ hr' hs' =>
    refine ⟨fun hoff => ?_, fun hoff => ?_⟩
    · rw [hr', hs'] at hoff
      rcases hoff with hoff | hoff <;> cases hoff
    · rw [hr'] at hoff
      cases hoff
  | refused i pc pc' hi hp' ht hoff he =>
    have hw := wokenCount_away hi hp'
    rw [ht, he]
    refine ⟨fun hoff hpark => h.quiet hoff (parked_set hpark (away_parked hp')), fun hr hs => ?_⟩
    exact (h.settled hr hs).imp (fun h0 => by omega) id
  | parks i pc l hi ht hr hs hfull he =>
    have hrun : s.eng.running = true := by
      cases hw : pc.isWoken with
      | false => exact hr hw
      | true =>
        cases hoff : s.eng.running with
        | true => rfl
        | false =>
          rcases h.settled hoff hs with hnone | hlt
          · exact absurd hw (List.countP_eq_zero.mp hnone pc (List.mem_of_getElem? hi))
          · exact absurd hlt (Nat.not_lt.mpr hfull)
    rw [he]
    refine ⟨fun hoff => ?_, fun hoff => ?_⟩
    · rw [hrun, hs] at hoff
      rcases hoff with hoff | hoff <;> cases hoff
    · rw [hrun] at hoff
      cases hoff
  | wakes i pc hi hp ht he =>
    have hpark : Parked s.threads := ⟨pc, List.mem_of_getElem? hi, hp⟩
    rw [he]
    exact ⟨fun hoff => absurd hpark (h.quiet hoff), fun hr _ => absurd hpark (h.quiet (.inl hr))⟩
  | taken wake hsig hr hr' hs hcap hcount =>
    obtain ⟨hpark, -, -⟩ := signal_awake hsig
    refine ⟨fun hoff hp => h.quiet (.inr ?_) (hpark hp), fun hoff => ?_⟩
    · rw [hr'] at hoff
      rcases hoff with hoff | hoff
      · cases hoff
      · exact hs.symm.trans hoff
    · rw [hr'] at hoff
      cases hoff
  | stops i pc' hp' ht hs' =>
    rw [ht]
    refine ⟨fun _ hpark => wakeAll_parked s.threads (parked_set hpark (away_parked hp')), fun _ hs => ?_⟩
    rw [hs'] at hs
    cases hs
  | ends i pc' hp' ht hs hr' hs' =>
    rw [ht]
    refine ⟨fun _ hpark => h.quiet (.inr hs) (parked_set hpark (away_parked hp')), fun _ hs => ?_⟩
    rw [hs'] at hs
    cases hs
  | starts i pc' hp' ht hr hr' =>
    rw [ht]
    refine ⟨fun _ hpark => h.quiet (.inl hr) (parked_set hpark (away_parked hp')), fun hoff => ?_⟩
    rw [hr'] at hoff
    cases hoff

theorem awake_turn (h : Awake s.eng s.threads) (hover : s.eng.overflow = .block)
    (hok : wakePassedOn s a = true) (ht : Turn a s s') : Awake s'.eng s'.threads := by
  refine ⟨quiet_turn h.toQuiet ht, fun hr₁ hs₁ hp₁ => ?_⟩
  cases ht with
  | rests ht hr hs hcap hcount =>
    rw [ht] at hp₁ ⊢
    have henough := h.enough (hr ▸ hr₁) (hs ▸ hs₁) hp₁
    unfold AsyncEngine.free at henough ⊢
    omega
  | goes i pc pc' hi hp hp' ht hr hs hcap hcount =>
    have hw := wokenCount_away hi hp'
    rw [away_woken hp] at hw
    simp only [Bool.false_eq_true, if_false, Nat.add_zero] at hw
    rw [ht] at hp₁ ⊢
    have henough := h.enough (hr ▸ hr₁) (hs ▸ hs₁) (parked_set hp₁ (away_parked hp'))
    unfold AsyncEngine.free at henough ⊢
    omega
  | settles i c pc pc' ha hi hp' ht hr hs hr' hs' hcap hcount =>
    subst ha
    have hw := wokenCount_away hi hp'
    rw [ht] at hp₁ ⊢
    have hpark := parked_set hp₁ (away_parked hp')
    have henough := h.enough hr hs hpark
    unfold AsyncEngine.free at henough ⊢
    rcases hcount with hstored | ⟨hfailed, hsame⟩ | hpolicy
    · split at hw <;> omega
    · cases hwoken : pc.isWoken with
      | false =>
        rw [hwoken] at hw
        simp only [Bool.false_eq_true, if_false, Nat.add_zero] at hw
        omega
      | true =>
        rw [hwoken] at hw
        simp only [if_true] at hw
        have hleft : s.eng.free < wokenCount s.threads := by
          cases pc with
          | woken l =>
            obtain ⟨p, hm, hpp⟩ := hpark
            have hany : s.threads.any Pc.isParked = true := List.any_eq_true.mpr ⟨p, hm, hpp⟩
            simpa [wakePassedOn, hi, hfailed, hany] using hok
          | _ => cases hwoken
        unfold AsyncEngine.free at hleft
        omega
    · exact absurd hover hpolicy
  | refused i pc pc' hi hp' ht hoff he =>
    rw [he] at hr₁ hs₁
    rcases hoff with hoff | hoff
    · rw [hr₁] at hoff
      cases hoff
    · rw [hs₁] at hoff
      cases hoff
  | parks i pc l hi ht hr hs hfull he =>
    rw [he]
    unfold AsyncEngine.free
    omega
  | wakes i pc hi hp ht he =>
    have hcount := wokenCount_set hi pc.wake
    have hnot : pc.isWoken = false := by cases pc <;> first | rfl | cases hp
    have hwoken : pc.wake.isWoken = true := by rw [wake_woken, hp]; rfl
    rw [hnot, hwoken] at hcount
    simp only [Bool.false_eq_true, if_false, if_true] at hcount
    rw [he] at hr₁ hs₁ ⊢
    rw [ht]
    have henough := h.enough hr₁ hs₁ ⟨pc, List.mem_of_getElem? hi, hp⟩
    omega
  | taken wake hsig hr hr' hs hcap hcount =>
    obtain ⟨hpark, -, hone⟩ := signal_awake hsig
    have hsleeps := hpark hp₁
    have henough := h.enough hr (hs ▸ hs₁) hsleeps
    have hw := hone hsleeps
    unfold AsyncEngine.free at henough ⊢
    omega
  | stops i pc' hp' ht hs' =>
    rw [hs'] at hs₁
    cases hs₁
  | ends i pc' hp' ht hs hr' hs' =>
    rw [hs'] at hs₁
    cases hs₁
  | starts i pc' hp' ht hr hr' =>
    rw [ht] at hp₁
    exact absurd (parked_set hp₁ (away_parked hp')) (h.quiet (.inl hr))

end

/-! ## The policy -/

def BlockOnly (s : State) : Prop := s.eng.overflow = .block ∧ AllBlock (pendingConfigs s.threads)

theorem blockOnly_step {s s' : State} {a : Act} (hc : Control s) (hs : BlockOnly s) (ha : a.startsOk = true)
    (hb : a.blocking = true) (h : step s a = some s') : BlockOnly s' := by
  refine ⟨?_, allBlock_step hs.2 hb h⟩
  cases step_effect hc ha h with
  | quiet _ _ _ same => exact same.overflow.trans hs.1
  | flushed _ _ _ _ _ same => exact same.overflow.trans hs.1
  | given _ _ _ same => exact same.overflow.trans hs.1
  | direct _ _ _ same => exact same.overflow.trans hs.1
  | refused _ _ _ _ _ _ he =>
    rw [he]
    exact hs.1
  | settled _ _ _ _ _ _ hq =>
    cases hq with
    | stored _ _ _ _ _ _ hst => exact hst.same.overflow.trans hs.1
    | evicted _ _ _ _ _ _ _ hp =>
      rw [hs.1] at hp
      cases hp
  | skipped _ _ _ _ _ hsame => exact hsame.overflow.trans hs.1
  | popped _ _ hsame => exact hsame.overflow.trans hs.1
  | emitted _ _ he =>
    rw [he]
    exact hs.1
  | started i cfg hi _ _ _ he =>
    rw [he]
    exact hs.2 cfg (List.mem_filterMap.mpr ⟨_, List.mem_of_getElem? hi, rfl⟩)

theorem blockOnly_init (n : Nat) {cfg : AsyncConfig} (hcfg : cfg.overflowPolicy = .block) :
    BlockOnly (initState n cfg) := ⟨(lossless_init n hcfg).overflow, (lossless_init n hcfg).configs⟩

theorem awake_init (n : Nat) (cfg : AsyncConfig) : Awake (initState n cfg).eng (initState n cfg).threads := by
  have hidle : ∀ pc ∈ (initState n cfg).threads, pc = .idle := fun pc hm => List.eq_of_mem_replicate hm
  have hpark : ¬Parked (initState n cfg).threads := by
    rintro ⟨pc, hm, hp⟩
    rw [hidle pc hm] at hp
    cases hp
  refine ⟨⟨fun _ => hpark, fun _ _ => .inl (List.countP_eq_zero.mpr fun pc hm => ?_)⟩, fun _ _ hp => absurd hp hpark⟩
  rw [hidle pc hm]
  exact Bool.false_ne_true

def wakeOk (s : State) (a : Act) : Bool := a.startsOk && a.blocking && wakePassedOn s a

/-- As long as somebody is parked and nobody is on the way back, the queue is full, in
every run in which woken producers whose allocation fails leave enough others behind. -/
theorem no_lost_wakeup {n : Nat} {cfg : AsyncConfig} {as : List Act} {s : State} (hcfg : cfg.overflowPolicy = .block)
    (h : Transition.run (Transition.restrict wakeOk step) (initState n cfg) as = some s) :
    ∀ (i : Nat) (l : Line), s.threads[i]? = some (.parked l) → s.eng.running = true → s.eng.stop = false →
      (∀ pc ∈ s.threads, pc.isWoken = false) → s.eng.count = s.eng.capacity := by
  obtain ⟨hc, -, haw⟩ := Transition.run_invariant (I := fun s => Control s ∧ BlockOnly s ∧ Awake s.eng s.threads)
    (fun s a t hs hst => by
      obtain ⟨hok, hstep⟩ := Transition.restrict_some hst
      unfold wakeOk at hok
      rw [Bool.and_eq_true, Bool.and_eq_true] at hok
      exact ⟨control_step hs.1 hok.1.1 hstep, blockOnly_step hs.1 hs.2.1 hok.1.1 hok.1.2 hstep,
        awake_turn hs.2.2 hs.2.1.1 hok.2 (step_turn hs.1 hstep)⟩)
    as _ s ⟨control_init n cfg, blockOnly_init n hcfg, awake_init n cfg⟩ h
  intro i l hi hr hs hnone
  have hfree := haw.enough hr hs ⟨_, List.mem_of_getElem? hi, rfl⟩
  have hzero : wokenCount s.threads = 0 :=
    List.countP_eq_zero.mpr fun pc hm => by rw [hnone pc hm]; exact Bool.false_ne_true
  have hle := (hc.wf hr).count
  unfold AsyncEngine.free at hfree
  omega

/-- Two producers sleep on a queue of one slot; the worker takes the line and wakes the first. -/
def twoAsleep (l l' : Line) : List Act :=
  [.call 0 l, .thread 0 {}, .thread 0 {}, .call 1 l', .thread 1 {}, .thread 1 {}, .call 2 l, .thread 2 {}, .thread 2 {},
    .worker {}, .worker { wake := [1] }]

def shortLine : Line := ⟨2, [97], 0, true⟩

/-- A line that does not fit into a slot of 256 bytes. -/
def longLine : Line := ⟨2, List.replicate 300 97, 0, true⟩

theorem no_lost_wakeup_two : ∃ s,
    Transition.run (Transition.restrict wakeOk step) (initState 3 ⟨.async, 1, 1, 0, .block⟩)
      (twoAsleep shortLine shortLine ++ [.thread 1 {}]) = some s ∧
    s.threads[2]? = some (.parked shortLine) ∧ s.eng.count = s.eng.capacity :=
  ⟨_, rfl, rfl, @no_lost_wakeup 3 ⟨.async, 1, 1, 0, .block⟩ (twoAsleep shortLine shortLine ++ [.thread 1 {}]) _ rfl rfl
    2 shortLine rfl rfl rfl (by decide)⟩

set_option maxRecDepth 4000 in
/-- The one that was woken cannot grow its slot and goes away; the other sleeps on before an empty queue. -/
theorem failed_allocation_loses_wakeup : ∃ s,
    execute (fun a => a.startsOk && a.blocking) 3 ⟨.async, 1, 1, 0, .block⟩
      (twoAsleep shortLine longLine ++ [.thread 1 { alloc := false }]) = some s ∧
    s.threads = [.idle, .idle, .parked shortLine] ∧ s.eng.running = true ∧ s.eng.stop = false ∧
    s.eng.count = 0 ∧ s.eng.capacity = 1 :=
  ⟨_, rfl, rfl, rfl, rfl, rfl, rfl⟩

end HxClog
