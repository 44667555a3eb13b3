import HxClog.FifoSound

/-!
# BLOCK loses nothing, across any number of reconfigurations

A line that was handed to `core_dispatch_line` is in exactly one place: with
the sinks, in the queue of the engine that is live, in the worker's hand, or
with the thread that brought it. Stopping an engine moves no line, because it is
drained first; starting one moves no line, because nothing is queued or in hand
while no engine runs.
-/

namespace HxClog

/-! ## The configurations in play -/

/-- Allocations and thread creations succeed, and whoever reconfigures asks for BLOCK. -/
def Act.lossless : Act → Bool
  | .thread _ c => c.created && c.alloc
  | .worker c => c.alloc
  | .callReconfigure _ cfg => cfg.overflowPolicy == .block
  | _ => true

theorem lossless_startsOk {a : Act} (h : a.lossless = true) : a.startsOk = true ∧ a.alloc = true := by
  cases a with
  | thread i c =>
    rw [Act.lossless, Bool.and_eq_true] at h
    exact h
  | worker c => exact ⟨rfl, h⟩
  | _ => exact ⟨rfl, rfl⟩

/-- Whoever reconfigures asks for BLOCK. -/
def Act.blocking : Act → Bool
  | .callReconfigure _ cfg => cfg.overflowPolicy == .block
  | _ => true

theorem lossless_blocking {a : Act} (h : a.lossless = true) : a.blocking = true := by
  cases a with
  | callReconfigure i cfg => exact h
  | _ => rfl

def pendingConfigs (threads : List Pc) : List AsyncConfig := threads.filterMap Pc.cfg?

def AllBlock (cfgs : List AsyncConfig) : Prop := ∀ cfg ∈ cfgs, cfg.overflowPolicy = .block

theorem allBlock_set {threads : List Pc} {i : Nat} {pc pc' : Pc} (hi : threads[i]? = some pc)
    (h : AllBlock (pendingConfigs threads))
    (hpc : ∀ cfg, pc'.cfg? = some cfg → pc.cfg? = some cfg ∨ cfg.overflowPolicy = .block) :
    AllBlock (pendingConfigs (threads.set i pc')) := by
  obtain ⟨A, B, h1, h2⟩ := Pool.filterMap_set Pc.cfg? threads i pc hi
  unfold AllBlock pendingConfigs at h ⊢
  rw [h1] at h
  rw [h2]
  intro cfg hm
  simp only [List.mem_append, Option.mem_toList] at h hm
  rcases hm with (hm | hm) | hm
  · exact h cfg (Or.inl (Or.inl hm))
  · rcases hpc cfg hm with hold | hb
    · exact h cfg (Or.inl (Or.inr hold))
    · exact hb
  · exact h cfg (Or.inr hm)

/-- No step brings in a configuration with another policy. -/
theorem allBlock_step {s s' : State} {a : Act} (hb : AllBlock (pendingConfigs s.threads)) (ha : a.blocking = true)
    (h : step s a = some s') : AllBlock (pendingConfigs s'.threads) := by
  rcases step_threads h with ⟨_, ht, _⟩ | ⟨i, pc, pc', _, hi, hstep⟩
  · rwa [show pendingConfigs s'.threads = pendingConfigs s.threads from ht _ Pc.cfg? wake_cfg]
  · rw [show pendingConfigs s'.threads = pendingConfigs (s.threads.set i pc') from
      hstep.threads _ Pc.cfg? wake_cfg]
    refine allBlock_set hi hb fun cfg hcfg => ?_
    cases hstep.step with
    | callReconfigure cfg' hact =>
      cases hcfg
      subst hact
      exact Or.inr (by simpa [Act.blocking] using ha)
    | carry l _ _ _ h' => rw [cfg_of_held h'] at hcfg; cases hcfg
    | settle => rw [afterWrite_cfg] at hcfg; cases hcfg
    | flushed mark k => exact Or.inl (by cases k <;> exact hcfg)
    | flushPasses mark k _ hpc => rcases hpc with rfl | rfl <;> exact Or.inl hcfg
    | flushWaits mark k _ hpc => rcases hpc with rfl | rfl <;> exact Or.inl hcfg
    | reconfigure _ _ _ _ h =>
      rcases h with h | h
      · rw [h] at hcfg; cases hcfg
      · exact Or.inl (h ▸ hcfg)
    | locked cfg' => exact Or.inl hcfg
    | flushAsync mark k => exact Or.inl hcfg
    | flushSync mark k => exact Or.inl hcfg
    | _ => cases hcfg

/-! ## The account -/

/-- Where every line is that was handed in. -/
def Account (s : State) : Prop := ∀ l : Line, (givenLines s.trace).count l =
  (directLines s.trace).count l + (emittedLines s.trace).count l + s.eng.queued.count l + s.hand.count l +
    (heldLines s.threads).count l

structure Lossless (s : State) : Prop where
  overflow : s.eng.overflow = .block
  configs : AllBlock (pendingConfigs s.threads)
  dropped : s.eng.dropped = 0
  account : Account s

theorem givenLines_append (xs ys : List Ev) : givenLines (xs ++ ys) = givenLines xs ++ givenLines ys :=
  List.filterMap_append

theorem directLines_append (xs ys : List Ev) : directLines (xs ++ ys) = directLines xs ++ directLines ys :=
  List.filterMap_append

/-- The events `evs` and the moves of lines of one step balance. -/
theorem Account.next {s s' : State} (ha : Account s) {evs : List Ev} (ht : s'.trace = s.trace ++ evs)
    (h : ∀ l, (givenLines evs).count l + (s.eng.queued.count l + s.hand.count l + (heldLines s.threads).count l) =
      (directLines evs).count l + (emittedLines evs).count l +
        (s'.eng.queued.count l + s'.hand.count l + (heldLines s'.threads).count l)) : Account s' := by
  intro l
  have h1 := ha l
  have h2 := h l
  rw [ht, givenLines_append, directLines_append, emittedLines_append]
  simp only [List.count_append]
  omega

/-- Storing a line takes it from the thread into the queue. -/
theorem lossless_settled {s s' : State} (hs : Lossless s) {i : Nat} {l : Line} {old : Option Line} {stored report : Bool}
    (h : Enqueued s.eng l true (.settled s'.eng old stored report))
    (ht : s'.trace = s.trace ++ ((old.map Ev.evicted).toList ++
      (if stored then Ev.stored i l else Ev.lost i l) :: dropEvents report))
    (hw : s'.worker = s.worker) (held : Releases s s' l) :
    s'.eng.overflow = .block ∧ s'.eng.dropped = 0 ∧ Account s' := by
  have hh := hand_of_worker hw h.wf.2.2.1
  cases h with
  | stored _ _ _ hr hs' hc h ha =>
    obtain rfl := ha rfl
    refine ⟨h.same.overflow.trans hs.overflow, h.dropped.trans hs.dropped, hs.account.next ht fun x => ?_⟩
    have hq : s'.eng.queued = s.eng.queued ++ [l] := h.queued
    have hheld := held.count_eq x
    have hd := silent_events (dropEvents_silent report)
    have hg : givenLines (.stored i l :: dropEvents report) = [] := by cases report <;> rfl
    have hdir : directLines (.stored i l :: dropEvents report) = [] := by cases report <;> rfl
    have hem : emittedLines (.stored i l :: dropEvents report) = [] := hd.2.2
    simp only [Option.map_none, Option.toList_none, List.nil_append, if_true, hg, hdir, hem, List.count_nil, hq,
      List.count_append, hh]
    rw [List.count_cons] at hheld
    rw [List.count_singleton]
    omega
  | evicted _ _ _ _ _ _ _ hp =>
    rw [hs.overflow] at hp
    cases hp

theorem lossless_step {s s' : State} {a : Act} (hc : Control s) (hs : Lossless s) (ha : a.lossless = true)
    (h : step s a = some s') : Lossless s' := by
  obtain ⟨hstarts, halloc⟩ := lossless_startsOk ha
  have hcfg := allBlock_step hs.configs (lossless_blocking ha) h
  suffices hrest : s'.eng.overflow = .block ∧ s'.eng.dropped = 0 ∧ Account s' from
    ⟨hrest.1, hcfg, hrest.2.1, hrest.2.2⟩
  cases step_effect hc hstarts h with
  | quiet evs ht hev same held =>
    refine ⟨same.overflow.trans hs.overflow, same.dropped.trans hs.dropped, hs.account.next ht fun x => ?_⟩
    have hg : givenLines evs = [] := silent_filterMap hev fun ev hev => by cases ev <;> first | rfl | cases hev
    have hd : directLines evs = [] := silent_filterMap hev fun ev hev => by cases ev <;> first | rfl | cases hev
    have he : emittedLines evs = [] := silent_filterMap hev fun ev hev => by cases ev <;> first | rfl | cases hev
    rw [hg, hd, he, same.queued, same.hand, held]
    rfl
  | flushed i mark k _ ht same held =>
    refine ⟨same.overflow.trans hs.overflow, same.dropped.trans hs.dropped, hs.account.next ht fun x => ?_⟩
    rw [same.queued, same.hand, held]
    rfl
  | given i l ht same held =>
    refine ⟨same.overflow.trans hs.overflow, same.dropped.trans hs.dropped, hs.account.next ht fun x => ?_⟩
    have hheld := held.count_eq x
    rw [same.queued, same.hand, hheld, show givenLines [.given i l] = [l] from rfl,
      show directLines [.given i l] = [] from rfl, show emittedLines [.given i l] = [] from rfl,
      List.count_singleton, List.count_cons, List.count_nil]
    omega
  | direct i l ht same held =>
    refine ⟨same.overflow.trans hs.overflow, same.dropped.trans hs.dropped, hs.account.next ht fun x => ?_⟩
    have hheld := held.count_eq x
    rw [same.queued, same.hand, hheld, show givenLines [.direct i l] = [] from rfl,
      show directLines [.direct i l] = [l] from rfl, show emittedLines [.direct i l] = [] from rfl,
      List.count_singleton, List.count_cons, List.count_nil]
    omega
  | refused i l report _ hp =>
    rw [hs.overflow] at hp
    cases hp
  | settled i l old stored report _ h ht hw held =>
    rw [halloc] at h
    exact lossless_settled hs h ht hw held
  | skipped c l hact hno =>
    subst hact
    rw [show c.alloc = true from halloc] at hno
    cases hno
  | popped l ht hsame hq hd hh hh' held =>
    refine ⟨hsame.overflow.trans hs.overflow, hd.trans hs.dropped, hs.account.next ht fun x => ?_⟩
    rw [hq, hh, hh', held, show givenLines [.popped l] = [] from rfl, show directLines [.popped l] = [] from rfl,
      show emittedLines [.popped l] = [] from rfl, List.count_cons, List.count_singleton, List.count_nil]
    omega
  | emitted l ht he hh hh' held =>
    refine ⟨by rw [he]; exact hs.overflow, by rw [he]; exact hs.dropped, hs.account.next ht fun x => ?_⟩
    rw [he, hh, hh', held, show givenLines [.emitted l] = [] from rfl, show directLines [.emitted l] = [] from rfl,
      show emittedLines [.emitted l] = [l] from rfl, List.count_singleton, List.count_nil]
    omega
  | started i cfg hi ht hq hh he hh' held =>
    have hb : cfg.overflowPolicy = .block :=
      hs.configs cfg (List.mem_filterMap.mpr ⟨_, List.mem_of_getElem? hi, rfl⟩)
    refine ⟨by rw [he]; exact hb, by rw [he]; rfl, hs.account.next ht fun x => ?_⟩
    rw [he, hh, hh', held, hq, hxAsyncStart_queued]
    rfl

theorem lossless_init (n : Nat) {cfg : AsyncConfig} (hcfg : cfg.overflowPolicy = .block) : Lossless (initState n cfg) := by
  have hheld : heldLines (List.replicate n Pc.idle) = [] := by
    unfold heldLines
    rw [List.filterMap_replicate]
    rfl
  have hpend : pendingConfigs (List.replicate n Pc.idle) = [] := by
    unfold pendingConfigs
    rw [List.filterMap_replicate]
    rfl
  cases hm : cfg.mode with
  | async =>
    refine ⟨?_, ?_, ?_, fun l => ?_⟩
    all_goals simp only [initState, hm, hpend, hheld]
    · exact hcfg
    · intro _ h; cases h
    · rfl
    · rfl
  | sync =>
    refine ⟨?_, ?_, ?_, fun l => ?_⟩
    all_goals simp only [initState, hm, hpend, hheld]
    · intro _ h; cases h
    · rfl

/-- Under BLOCK nothing is lost and nothing is written twice, however many
producers run and however often the library is reconfigured meanwhile. -/
theorem block_is_lossless {n : Nat} {cfg : AsyncConfig} {as : List Act} {s : State}
    (hcfg : cfg.overflowPolicy = .block) (h : execute Act.lossless n cfg as = some s) :
    (givenLines s.trace : Multiset Line) = directLines s.trace + emittedLines s.trace +
      s.eng.queued + s.hand + heldLines s.threads ∧
    s.eng.dropped = 0 ∧
    (heldLines s.threads = [] → s.eng.running = false →
      (givenLines s.trace : Multiset Line) = directLines s.trace + emittedLines s.trace) := by
  obtain ⟨hc, hl⟩ := execute_invariant (I := fun s => Control s ∧ Lossless s)
    ⟨control_init n cfg, lossless_init n hcfg⟩
    (fun _ _ _ hs ha hst => ⟨control_step hs.1 (lossless_startsOk ha).1 hst, lossless_step hs.1 hs.2 ha hst⟩) h
  have hall : (givenLines s.trace : Multiset Line) = directLines s.trace + emittedLines s.trace +
      s.eng.queued + s.hand + heldLines s.threads := by
    ext l
    simp only [Multiset.count_add, Multiset.coe_count]
    exact hl.account l
  refine ⟨hall, hl.dropped, fun hheld hrun => ?_⟩
  obtain ⟨hq, hh⟩ := hc.released (Or.inl hrun)
  rw [hall, hq, hh, hheld]
  simp

/-- A line is queued, another is on its way when the library is reconfigured to
SYNC; the first is drained, the second takes the way past the queue. -/
def stoppedUnderway (l l' : Line) : List Act :=
  [.call 0 l, .thread 0 {}, .thread 0 {}, .call 0 l', .thread 0 {}, .callReconfigure 1 ⟨.sync, 1, 1, 0, .block⟩,
    .thread 1 {}, .thread 1 {}, .thread 1 {}, .worker {}, .worker {}, .worker {}, .worker {}, .worker {},
    .thread 1 {}, .thread 1 {}, .thread 1 {}, .thread 1 {}, .worker {}, .worker {}, .thread 1 {}, .thread 1 {},
    .thread 1 {}, .thread 1 {}, .thread 0 {}, .thread 0 {}]

theorem block_is_lossless_underway : ∃ s,
    execute Act.lossless 2 ⟨.async, 1, 1, 0, .block⟩ (stoppedUnderway ⟨2, [97], 0, true⟩ ⟨2, [98], 0, true⟩) = some s ∧
    emittedLines s.trace = [⟨2, [97], 0, true⟩] ∧ directLines s.trace = [⟨2, [98], 0, true⟩] ∧
    (givenLines s.trace : Multiset Line) = directLines s.trace + emittedLines s.trace :=
  ⟨_, rfl, rfl, rfl, (@block_is_lossless 2 ⟨.async, 1, 1, 0, .block⟩
    (stoppedUnderway ⟨2, [97], 0, true⟩ ⟨2, [98], 0, true⟩) _ rfl rfl).2.2 rfl rfl⟩

end HxClog
