import HxClog.SinksSound

/-!
# Which allocator frees a block

`hx_clog__free` calls the function that is installed now. A block is known here by the
allocator that made it, and every release is recorded with the allocator that did it.
-/

namespace HxClog

namespace Allocation

open C

/-- What `g_alloc` holds: nothing, so that `malloc` and `free` are used, or a pair of functions. -/
inductive Allocator where
  | libc
  | user (id : Nat)
  deriving DecidableEq

/-- The blocks of `g_async`: the slots, the buffer of each slot, and the worker's buffer. -/
structure EngineBlocks where
  slots : Allocator
  data : List (Option Allocator)
  scratch : Option Allocator

def EngineBlocks.all (e : EngineBlocks) : List Allocator := e.data.filterMap id ++ e.slots :: e.scratch.toList

structure State where
  current : Allocator
  initialized : Bool
  mode : Mode
  /-- Loggers of `hx_clog_logger_create` that have not been destroyed. -/
  loggers : List (Nat × Allocator)
  /-- `logger_head` -/
  registry : List (Bytes × Allocator)
  /-- `sinks`, with the blocks of each sink. -/
  sinks : List (List Allocator)
  ring : Option Allocator
  engine : Option EngineBlocks
  /-- For every release, who made the block and who freed it. -/
  freed : List (Allocator × Allocator)

def start : State := ⟨.libc, false, .sync, [], [], [], none, none, []⟩

/-- `hx_clog__free` on these blocks. -/
def State.free (s : State) (blocks : List Allocator) : State :=
  { s with freed := s.freed ++ blocks.map fun maker => (maker, s.current) }

/-- `n` blocks that are made and freed in one call. -/
def State.scratchBlocks (s : State) (n : Nat) : State := s.free (List.replicate n s.current)

/-! ## Sinks -/

/-- How far a `hx_sink_*_create` gets. -/
inductive SinkOutcome where
  | noSink
  | noImpl
  | notOpened
  | made
  deriving DecidableEq

/-- Both blocks of a sink; what was made before something failed is freed. -/
def State.createSink (s : State) : SinkOutcome → State × Option (List Allocator)
  | .noSink => (s, none)
  | .noImpl => (s.free [s.current], none)
  | .notOpened => (s.free [s.current, s.current], none)
  | .made => (s, some [s.current, s.current])

/-- `add_sink_locked`: a sink that finds no slot is closed. -/
def State.addSinkLocked (s : State) (sink : List Allocator) : State :=
  if maxSinks ≤ s.sinks.length then s.free sink else { s with sinks := s.sinks ++ [sink] }

def State.addSink (s : State) (o : SinkOutcome) : State :=
  match s.createSink o with
  | (s, none) => s
  | (s, some sink) => s.addSinkLocked sink

/-! ## The engine -/

/-- How far `hx_async_start` gets. The context of the thread is freed by the thread. -/
inductive EngineOutcome where
  | noSlots
  | noContext
  | noThread
  | started (capacity : Nat)

def State.asyncStart (s : State) : EngineOutcome → State
  | .noSlots => { s with mode := .sync }
  | .noContext => { s.free [s.current] with mode := .sync }
  | .noThread => { s.free [s.current, s.current] with mode := .sync }
  | .started capacity =>
    { s.free [s.current] with engine := some ⟨s.current, List.replicate capacity none, none⟩ }

/-- `hx_async_stop`, after the worker has drained the queue. -/
def State.asyncStop (s : State) : State :=
  match s.engine with
  | none => s
  | some e => { s.free e.all with engine := none }

/-- What `hx_async_enqueue` does with the buffer of a slot: it may free one that is too large, and make a larger one. -/
structure SlotUse where
  slot : Nat
  shrink : Bool
  grow : Option Bool

/-- The buffer of the slot is freed. -/
def State.dropSlot (s : State) (e : EngineBlocks) (slot : Nat) : State :=
  { s.free (e.data.getD slot none).toList with engine := some { e with data := e.data.set slot none } }

def State.enqueue (s : State) (u : SlotUse) : State :=
  match s.engine with
  | none => s
  | some e =>
    let s := if u.shrink then s.dropSlot e u.slot else s
    match s.engine, u.grow with
    | some e, some true =>
      let s := s.dropSlot e u.slot
      { s with engine := some { e with data := e.data.set u.slot (some s.current) } }
    | _, _ => s

/-- The worker makes its buffer larger. -/
def State.growScratch (s : State) : State :=
  match s.engine with
  | none => s
  | some e => { s.free e.scratch.toList with engine := some { e with scratch := some s.current } }

/-! ## The calls -/

/-- What happens in `hx_clog_init`: whether the file name is plain, whether there is memory for the crash ring, how
the sinks that are configured come out, and the engine in async mode. -/
structure InitOutcome where
  plain : Bool
  ring : Bool
  console : Option SinkOutcome
  file : Option SinkOutcome
  system : List SinkOutcome
  engine : Option EngineOutcome

/-- `hx_ring_init` -/
def State.ringInit (s : State) (ok : Bool) : State :=
  match s.ring with
  | some _ => s
  | none => if ok then { s with ring := some s.current } else s

/-- `hx_ring_destroy` -/
def State.ringDestroy (s : State) : State :=
  match s.ring with
  | none => s
  | some maker => { s.free [maker] with ring := none }

def State.addOptional (s : State) : Option SinkOutcome → State
  | none => s
  | some o => s.addSink o

/-- `hx_clog_init`. The sinks that are in the table already are forgotten, not closed. -/
def State.init (s : State) (o : InitOutcome) : State :=
  if s.initialized ∨ ¬o.plain then s
  else
    let s := { s with sinks := [], mode := if o.engine.isSome then .async else .sync }
    let s := s.ringInit o.ring
    let s := s.addOptional o.console
    let before := s.sinks.length
    let s := s.addOptional o.file
    if o.file.isSome ∧ o.file ≠ some .made ∧ before = 0 then s
    else
      let s := o.system.foldl State.addSink s
      let s :=
        match o.engine with
        | none => s
        | some e => s.asyncStart e
      { s with initialized := true }

def State.stopEngine (s : State) : State :=
  match s.mode with
  | .async => s.asyncStop
  | .sync => s

def State.closeSinks (s : State) : State := { s.free s.sinks.flatten with sinks := [] }

/-- `hx_clog_shutdown` -/
def State.shutdown (s : State) : State :=
  if ¬s.initialized then s else ({ s with initialized := false }).stopEngine.closeSinks.ringDestroy

inductive Call where
  | loggerCreate (obj : Nat) (made : Bool)
  | loggerDestroy (obj : Nat)
  | loggerGet (name : Bytes) (made : Bool)
  | loggerDropAll
  | addCallbackSink (o : SinkOutcome)
  | init (o : InitOutcome)
  /-- A log call: the blocks it needs for itself, and what it does to a slot of the queue. -/
  | log (blocks : Nat) (uses : List SlotUse)
  /-- Not a call: the worker writes a long line. -/
  | work
  | shutdown
  | setAllocator (a : Option Allocator)

/-- What `hx_clog__set_allocator` installs; a null pointer or a missing function stands for `malloc` and `free`. -/
def installed (a : Option Allocator) : Allocator := a.getD .libc

def Call.run (s : State) : Call → State
  | .loggerCreate obj made => if made then { s with loggers := (obj, s.current) :: s.loggers } else s
  | .loggerDestroy obj =>
    match s.loggers.find? fun l => l.1 = obj with
    | none => s
    | some l => { s.free [l.2] with loggers := s.loggers.eraseP fun l => l.1 = obj }
  | .loggerGet name made =>
    if (s.registry.find? fun l => l.1 = name).isSome ∨ ¬made then s
    else { s with registry := (name, s.current) :: s.registry }
  | .loggerDropAll => { s.free (s.registry.map Prod.snd) with registry := [] }
  | .addCallbackSink o => s.addSink o
  | .init o => s.init o
  | .log blocks uses =>
    if ¬s.initialized then s
    else
      let s := s.scratchBlocks blocks
      match s.mode with
      | .async => uses.foldl State.enqueue s
      | .sync => s
  | .work => s.growScratch
  | .shutdown => s.shutdown
  | .setAllocator a => if s.initialized then s else { s with current := installed a }

def runFrom (s : State) (calls : List Call) : State := calls.foldl Call.run s

/-! ## Whose blocks are held -/

/-- Every release was done by the allocator that made the block. -/
def State.Matched (s : State) : Prop := ∀ p ∈ s.freed, p.1 = p.2

/-- The makers of the blocks that live on while the library is not initialized. -/
def State.held (s : State) : List Allocator := s.loggers.map Prod.snd ++ s.registry.map Prod.snd ++ s.ring.toList

/-- The call installs no allocator while a block of another one is held. -/
def Call.Keeps (s : State) : Call → Prop
  | .setAllocator a => s.initialized = true ∨ ∀ maker ∈ s.held, maker = installed a
  | _ => True

/-- Every call of the run does so. -/
def Keeps : State → List Call → Prop
  | _, [] => True
  | s, c :: calls => c.Keeps s ∧ Keeps (c.run s) calls

/-- All blocks that can be freed are those of the allocator in force. -/
structure State.Base (s : State) : Prop where
  held : ∀ maker ∈ s.held, maker = s.current
  sinks : ∀ maker ∈ s.sinks.flatten, maker = s.current
  engine : ∀ e ∈ s.engine, ∀ maker ∈ e.all, maker = s.current
  sync : s.mode = .sync → s.engine = none
  matched : s.Matched

/-- The sinks that are registered before `hx_clog_init` are never freed: it forgets them. -/
structure State.Own (s : State) : Prop where
  held : ∀ maker ∈ s.held, maker = s.current
  matched : s.Matched
  running : s.initialized = true → s.Base
  idle : s.initialized = false → s.engine = none

namespace State

variable {s : State}

/-! ## What a call does to its own blocks -/

theorem free_matched (h : s.Matched) {blocks : List Allocator} (hb : ∀ maker ∈ blocks, maker = s.current) :
    (s.free blocks).Matched := by
  intro p hp
  rcases List.mem_append.mp hp with hp | hp
  · exact h p hp
  · obtain ⟨maker, hm, rfl⟩ := List.mem_map.mp hp
    exact hb maker hm

theorem Base.free (h : s.Base) {blocks : List Allocator} (hb : ∀ maker ∈ blocks, maker = s.current) : (s.free blocks).Base :=
  ⟨h.held, h.sinks, h.engine, h.sync, free_matched h.matched hb⟩

theorem one_current (a : Allocator) : ∀ maker ∈ [a], maker = a := by simp

theorem two_current (a : Allocator) : ∀ maker ∈ [a, a], maker = a := by simp

/-- Adding a sink changes the table and the record of releases only. -/
theorem addSink_frame (s : State) (o : SinkOutcome) :
    ∃ sinks freed, s.addSink o = { s with sinks := sinks, freed := freed } := by
  unfold addSink createSink
  cases o with
  | noSink => exact ⟨_, _, rfl⟩
  | noImpl => exact ⟨_, _, rfl⟩
  | notOpened => exact ⟨_, _, rfl⟩
  | made =>
    simp only [addSinkLocked]
    split
    · exact ⟨_, _, rfl⟩
    · exact ⟨_, _, rfl⟩

theorem addSink_matched (h : s.Matched) (o : SinkOutcome) : (s.addSink o).Matched := by
  unfold addSink createSink
  cases o with
  | noSink => exact h
  | noImpl => exact free_matched h (one_current _)
  | notOpened => exact free_matched h (two_current _)
  | made =>
    simp only [addSinkLocked]
    split
    · exact free_matched h (two_current _)
    · exact h

theorem Base.addSink (h : s.Base) (o : SinkOutcome) : (s.addSink o).Base := by
  have hmatched := addSink_matched h.matched o
  have hsinks : ∀ maker ∈ (s.addSink o).sinks.flatten, maker = s.current := by
    unfold State.addSink createSink
    cases o with
    | noSink => exact h.sinks
    | noImpl => exact h.sinks
    | notOpened => exact h.sinks
    | made =>
      simp only [addSinkLocked]
      split
      · exact h.sinks
      · intro maker hm
        rw [List.flatten_append, List.mem_append] at hm
        rcases hm with hm | hm
        · exact h.sinks maker hm
        · exact two_current _ maker (by simpa using hm)
  obtain ⟨sinks, freed, heq⟩ := addSink_frame s o
  rw [heq] at hmatched hsinks ⊢
  exact ⟨h.held, hsinks, h.engine, h.sync, hmatched⟩

theorem Base.addOptional (h : s.Base) (o : Option SinkOutcome) : (s.addOptional o).Base := by
  cases o with
  | none => exact h
  | some o => exact h.addSink o

theorem addOptional_frame (s : State) (o : Option SinkOutcome) :
    ∃ sinks freed, s.addOptional o = { s with sinks := sinks, freed := freed } := by
  cases o with
  | none => exact ⟨_, _, rfl⟩
  | some o => exact addSink_frame s o

theorem Base.addEach : ∀ (os : List SinkOutcome) {s : State}, s.Base → (os.foldl State.addSink s).Base
  | [], _, h => h
  | o :: os, _, h => Base.addEach os (h.addSink o)

theorem addEach_frame : ∀ (os : List SinkOutcome) (s : State),
    ∃ sinks freed, os.foldl State.addSink s = { s with sinks := sinks, freed := freed }
  | [], s => ⟨_, _, rfl⟩
  | o :: os, s => by
    obtain ⟨sinks, freed, h⟩ := addSink_frame s o
    obtain ⟨sinks', freed', h'⟩ := addEach_frame os (s.addSink o)
    refine ⟨sinks', freed', ?_⟩
    rw [List.foldl_cons, h', h]

theorem ringInit_cases (s : State) (ok : Bool) :
    s.ringInit ok = s ∨ s.ringInit ok = { s with ring := some s.current } := by
  unfold ringInit
  cases hr : s.ring with
  | some maker => exact .inl rfl
  | none =>
    cases ok with
    | true => exact .inr rfl
    | false => exact .inl rfl

theorem ringInit_held (h : ∀ maker ∈ s.held, maker = s.current) (ok : Bool) :
    ∀ maker ∈ (s.ringInit ok).held, maker = s.current := by
  rcases ringInit_cases s ok with heq | heq
  · rw [heq]
    exact h
  · rw [heq]
    intro maker hm
    simp only [held, List.mem_append, Option.mem_toList, Option.some.injEq] at hm h
    rcases hm with hm | rfl
    · exact h maker (.inl hm)
    · rfl

theorem ringInit_frame (s : State) (ok : Bool) : ∃ ring, s.ringInit ok = { s with ring := ring } := by
  rcases ringInit_cases s ok with heq | heq
  · exact ⟨s.ring, heq⟩
  · exact ⟨_, heq⟩

theorem Base.ringInit (h : s.Base) (ok : Bool) : (s.ringInit ok).Base := by
  have hheld := ringInit_held h.held ok
  obtain ⟨ring, heq⟩ := ringInit_frame s ok
  rw [heq] at hheld ⊢
  exact ⟨hheld, h.sinks, h.engine, h.sync, h.matched⟩

theorem held_ring {maker : Allocator} (h : s.ring = some maker) : maker ∈ s.held := by
  simp [held, h]

theorem ringDestroy_sound (hheld : ∀ maker ∈ s.held, maker = s.current) (hm : s.Matched) :
    (∀ maker ∈ s.ringDestroy.held, maker = s.current) ∧ s.ringDestroy.Matched ∧
      s.ringDestroy.initialized = s.initialized ∧ s.ringDestroy.engine = s.engine ∧ s.ringDestroy.current = s.current := by
  unfold ringDestroy
  cases hr : s.ring with
  | none => exact ⟨hheld, hm, rfl, rfl, rfl⟩
  | some maker =>
    have hfree : (s.free [maker]).Matched := free_matched hm fun a ha => by
      rw [List.mem_singleton.mp ha]
      exact hheld maker (held_ring hr)
    refine ⟨fun a ha => hheld a ?_, hfree, rfl, rfl, rfl⟩
    simp only [held, List.mem_append, Option.toList_none, List.not_mem_nil, or_false] at ha ⊢
    exact .inl ha

/-! ## The engine -/

theorem Base.asyncStart (h : s.Base) (hnone : s.engine = none) (hmode : s.mode = .async) (o : EngineOutcome) :
    (s.asyncStart o).Base := by
  have hidle : ∀ e ∈ s.engine, ∀ maker ∈ e.all, maker = s.current := h.engine
  cases o with
  | noSlots => exact ⟨h.held, h.sinks, hidle, fun _ => hnone, h.matched⟩
  | noContext => exact ⟨h.held, h.sinks, hidle, fun _ => hnone, free_matched h.matched (one_current _)⟩
  | noThread => exact ⟨h.held, h.sinks, hidle, fun _ => hnone, free_matched h.matched (two_current _)⟩
  | started capacity =>
    refine ⟨h.held, h.sinks, ?_, fun hs => ?_, free_matched h.matched (one_current _)⟩
    · rintro e ⟨⟩ maker hm
      simp only [EngineBlocks.all, List.mem_append, List.mem_filterMap, List.mem_cons, Option.toList_none,
        List.not_mem_nil, or_false] at hm
      rcases hm with ⟨d, hd, hmaker⟩ | rfl
      · rw [List.eq_of_mem_replicate hd] at hmaker
        cases hmaker
      · rfl
    · exact absurd (hs.symm.trans hmode) (by simp)

theorem Base.asyncStop (h : s.Base) : s.asyncStop.Base ∧ s.asyncStop.engine = none ∧
    s.asyncStop.initialized = s.initialized ∧ s.asyncStop.current = s.current := by
  unfold State.asyncStop
  cases he : s.engine with
  | none => exact ⟨h, he, rfl, rfl⟩
  | some e =>
    have hmatched := free_matched h.matched (h.engine e he)
    exact ⟨⟨h.held, h.sinks, fun _ hn => (by cases hn), fun _ => rfl, hmatched⟩, rfl, rfl, rfl⟩

/-- One buffer is freed, and the slot has none, or a new one. -/
theorem all_set {e : EngineBlocks} {a : Allocator} (h : ∀ maker ∈ e.all, maker = a) (slot : Nat) {d : Option Allocator}
    (hd : ∀ maker ∈ d, maker = a) : ∀ maker ∈ ({ e with data := e.data.set slot d } : EngineBlocks).all, maker = a := by
  intro maker hm
  simp only [EngineBlocks.all, List.mem_append, List.mem_filterMap, id_eq, List.mem_cons, Option.mem_toList] at hm h
  rcases hm with ⟨x, hx, rfl⟩ | hm
  · rcases List.mem_or_eq_of_mem_set hx with hx | hx
    · exact h maker (.inl ⟨_, hx, rfl⟩)
    · exact hd maker hx.symm
  · exact h maker (.inr hm)

theorem data_current {e : EngineBlocks} {a : Allocator} (h : ∀ maker ∈ e.all, maker = a) (slot : Nat) :
    ∀ maker ∈ (e.data.getD slot none).toList, maker = a := by
  intro maker hm
  rw [Option.mem_toList, List.getD_eq_getElem?_getD] at hm
  cases hd : e.data[slot]? with
  | none =>
    rw [hd] at hm
    cases hm
  | some d =>
    rw [hd] at hm
    refine h maker ?_
    simp only [EngineBlocks.all, List.mem_append, List.mem_filterMap]
    exact .inl ⟨d, List.mem_of_getElem? hd, hm⟩

theorem Base.dropSlot (h : s.Base) {e : EngineBlocks} (he : s.engine = some e) (slot : Nat) : (s.dropSlot e slot).Base := by
  have hall := h.engine e he
  refine ⟨h.held, h.sinks, ?_, fun hs => ?_, free_matched h.matched (data_current hall slot)⟩
  · rintro _ ⟨⟩
    exact all_set hall slot fun _ h => by cases h
  · exact absurd ((h.sync hs).symm.trans he) (by simp)

theorem Base.enqueue (h : s.Base) (u : SlotUse) : (s.enqueue u).Base := by
  unfold State.enqueue
  cases he : s.engine with
  | none => exact h
  | some e =>
    simp only
    have hshrunk : (if u.shrink = true then s.dropSlot e u.slot else s).Base := by
      split
      · exact h.dropSlot he u.slot
      · exact h
    generalize (if u.shrink = true then s.dropSlot e u.slot else s) = t at hshrunk ⊢
    split
    · rename_i e' he' _
      have hall := hshrunk.engine e' he'
      have hdropped := hshrunk.dropSlot he' u.slot
      refine ⟨hdropped.held, hdropped.sinks, ?_, fun hs => ?_, hdropped.matched⟩
      · rintro _ ⟨⟩
        exact all_set hall u.slot fun _ h => by cases h; rfl
      · exact absurd ((hshrunk.sync hs).symm.trans he') (by simp)
    · exact hshrunk

theorem Base.enqueueAll : ∀ (uses : List SlotUse) {s : State}, s.Base → (uses.foldl State.enqueue s).Base
  | [], _, h => h
  | u :: uses, _, h => Base.enqueueAll uses (h.enqueue u)

theorem Base.growScratch (h : s.Base) : s.growScratch.Base := by
  unfold State.growScratch
  cases he : s.engine with
  | none => exact h
  | some e =>
    have hall := h.engine e he
    have hold : ∀ maker ∈ e.scratch.toList, maker = s.current := fun maker hm => hall maker (by simp [EngineBlocks.all] at hm ⊢; exact .inr (.inr hm))
    refine ⟨h.held, h.sinks, ?_, fun hs => ?_, free_matched h.matched hold⟩
    · rintro _ ⟨⟩ maker hm
      simp only [EngineBlocks.all, List.mem_append, List.mem_cons, Option.toList_some, List.not_mem_nil, or_false] at hm hall
      rcases hm with hm | rfl | rfl
      · exact hall maker (.inl hm)
      · exact hall _ (.inr (.inl rfl))
      · rfl
    · exact absurd ((h.sync hs).symm.trans he) (by simp)

theorem enqueue_initialized (s : State) (u : SlotUse) : (s.enqueue u).initialized = s.initialized := by
  unfold enqueue
  cases he : s.engine with
  | none => rfl
  | some e =>
    simp only
    have hshrunk : (if u.shrink = true then s.dropSlot e u.slot else s).initialized = s.initialized := by
      split <;> rfl
    generalize (if u.shrink = true then s.dropSlot e u.slot else s) = t at hshrunk ⊢
    split
    · exact hshrunk
    · exact hshrunk

theorem enqueueAll_initialized : ∀ (uses : List SlotUse) (s : State), (uses.foldl State.enqueue s).initialized = s.initialized
  | [], _ => rfl
  | u :: uses, s => (enqueueAll_initialized uses (s.enqueue u)).trans (enqueue_initialized s u)

theorem growScratch_initialized (s : State) : s.growScratch.initialized = s.initialized := by
  unfold growScratch
  cases s.engine <;> rfl

/-! ## The calls -/

theorem Base.own (h : s.Base) (hi : s.initialized = true) : s.Own :=
  ⟨h.held, h.matched, fun _ => h, fun hn => absurd (hi.symm.trans hn) (by simp)⟩

theorem Own.init (h : s.Own) (o : InitOutcome) : (s.init o).Own := by
  unfold State.init
  by_cases hgo : s.initialized = true ∨ ¬o.plain = true
  · rw [if_pos hgo]
    exact h
  · rw [if_neg hgo]
    rw [not_or] at hgo
    have hi : s.initialized = false := Bool.eq_false_of_not_eq_true hgo.1
    have hnone := h.idle hi
    generalize hmode : (if o.engine.isSome = true then Mode.async else Mode.sync) = mode
    have hbase : State.Base { s with sinks := [], mode := mode } := by
      refine ⟨h.held, by simp, fun e he => ?_, fun _ => hnone, h.matched⟩
      rw [show s.engine = some e from he] at hnone
      cases hnone
    have hring := hbase.ringInit o.ring
    obtain ⟨ring, hr⟩ := ringInit_frame { s with sinks := [], mode := mode } o.ring
    simp only
    rw [hr] at hring ⊢
    have hconsole := hring.addOptional o.console
    obtain ⟨sinks, freed, hc⟩ := addOptional_frame { s with sinks := [], mode := mode, ring := ring } o.console
    rw [hc] at hconsole ⊢
    have hfile := hconsole.addOptional o.file
    obtain ⟨sinks', freed', hf⟩ :=
      addOptional_frame { s with sinks := sinks, mode := mode, ring := ring, freed := freed } o.file
    rw [hf] at hfile ⊢
    split
    · exact ⟨hfile.held, hfile.matched, fun hn => absurd (hn.symm.trans hi) (by simp), fun _ => hnone⟩
    · have hsystem := Base.addEach o.system hfile
      obtain ⟨sinks'', freed'', hs⟩ :=
        addEach_frame o.system { s with sinks := sinks', mode := mode, ring := ring, freed := freed' }
      rw [hs] at hsystem ⊢
      cases he : o.engine with
      | none => exact (Base.own ⟨hsystem.held, hsystem.sinks, hsystem.engine, hsystem.sync, hsystem.matched⟩ rfl)
      | some outcome =>
        have hasync : mode = .async := by
          rw [← hmode, he]
          rfl
        have hstart := hsystem.asyncStart hnone hasync outcome
        exact (Base.own ⟨hstart.held, hstart.sinks, hstart.engine, hstart.sync, hstart.matched⟩ rfl)

theorem Base.stopEngine (h : s.Base) : s.stopEngine.Base ∧ s.stopEngine.engine = none ∧
    s.stopEngine.initialized = s.initialized := by
  unfold State.stopEngine
  split
  · obtain ⟨hb, hn, hi, -⟩ := h.asyncStop
    exact ⟨hb, hn, hi⟩
  · rename_i hm
    exact ⟨h, h.sync hm, rfl⟩

theorem Base.closeSinks (h : s.Base) : s.closeSinks.Base := by
  have hfreed := h.free h.sinks
  exact ⟨hfreed.held, fun _ hm => absurd hm (by simp [State.closeSinks]), hfreed.engine, hfreed.sync, hfreed.matched⟩

theorem Own.shutdown (h : s.Own) : s.shutdown.Own := by
  unfold State.shutdown
  by_cases hi : s.initialized = true
  · rw [if_neg (not_not_intro hi)]
    have hrun := h.running hi
    have hbase : State.Base { s with initialized := false } :=
      ⟨hrun.held, hrun.sinks, hrun.engine, hrun.sync, hrun.matched⟩
    obtain ⟨hstopped, hnone, hoff⟩ := hbase.stopEngine
    have hclosed := hstopped.closeSinks
    obtain ⟨hheld, hmatched, hinit, hengine, -⟩ := ringDestroy_sound hclosed.held hclosed.matched
    refine ⟨fun maker hm => ?_, hmatched, fun hn => ?_, fun _ => hengine.trans hnone⟩
    · rw [hheld maker hm]
      exact (ringDestroy_sound hclosed.held hclosed.matched).2.2.2.2.symm
    · rw [hinit, show (State.stopEngine { s with initialized := false }).closeSinks.initialized = _ from hoff] at hn
      cases hn
  · rw [if_pos hi]
    exact h

/-- A call that leaves the library as it is and only changes what is held. -/
theorem Own.update {t : State} (h : s.Own) (hcurrent : t.current = s.current) (hinit : t.initialized = s.initialized)
    (hmode : t.mode = s.mode) (hsinks : t.sinks = s.sinks) (hengine : t.engine = s.engine)
    (hheld : ∀ maker ∈ t.held, maker = s.current) (hm : t.Matched) : t.Own := by
  refine ⟨by rw [hcurrent]; exact hheld, hm, fun hi => ?_, fun hi => by rw [hengine]; exact h.idle (hinit ▸ hi)⟩
  have hrun := h.running (hinit ▸ hi)
  exact ⟨by rw [hcurrent]; exact hheld, by rw [hsinks, hcurrent]; exact hrun.sinks,
    by rw [hengine, hcurrent]; exact hrun.engine, by rw [hmode, hengine]; exact hrun.sync, hm⟩

theorem mem_held {maker : Allocator} : maker ∈ s.held ↔
    maker ∈ s.loggers.map Prod.snd ∨ maker ∈ s.registry.map Prod.snd ∨ s.ring = some maker := by
  simp only [held, List.mem_append, Option.mem_toList, or_assoc]

end State

theorem Call.run_own {s : State} (h : s.Own) : ∀ {c : Call}, c.Keeps s → (c.run s).Own
  | .loggerCreate obj made, _ => by
    unfold Call.run
    simp only
    split
    · refine h.update rfl rfl rfl rfl rfl (fun maker hm => ?_) h.matched
      rw [State.mem_held, List.map_cons, List.mem_cons, or_assoc] at hm
      rcases hm with hm | hm
      · exact hm
      · exact h.held maker (State.mem_held.mpr hm)
    · exact h
  | .loggerDestroy obj, _ => by
    unfold Call.run
    simp only
    split
    · exact h
    · rename_i l hl
      have hmem := List.mem_of_find?_eq_some hl
      have hmaker : l.2 = s.current := h.held _ (State.mem_held.mpr (.inl (List.mem_map_of_mem hmem)))
      refine h.update rfl rfl rfl rfl rfl (fun maker hm => ?_) (State.free_matched h.matched fun a ha => ?_)
      · rw [State.mem_held] at hm
        rcases hm with hm | hm
        · obtain ⟨x, hx, rfl⟩ := List.mem_map.mp hm
          exact h.held _ (State.mem_held.mpr (.inl (List.mem_map_of_mem (List.mem_of_mem_eraseP hx))))
        · exact h.held maker (State.mem_held.mpr (.inr hm))
      · rw [List.mem_singleton.mp ha]
        exact hmaker
  | .loggerGet name made, _ => by
    unfold Call.run
    simp only
    split
    · exact h
    · refine h.update rfl rfl rfl rfl rfl (fun maker hm => ?_) h.matched
      rw [State.mem_held, List.map_cons, List.mem_cons] at hm
      rcases hm with hm | (hm | hm) | hm
      · exact h.held maker (State.mem_held.mpr (.inl hm))
      · exact hm
      · exact h.held maker (State.mem_held.mpr (.inr (.inl hm)))
      · exact h.held maker (State.mem_held.mpr (.inr (.inr hm)))
  | .loggerDropAll, _ => by
    refine h.update rfl rfl rfl rfl rfl (fun maker hm => ?_) (State.free_matched h.matched fun a ha => ?_)
    · rw [State.mem_held] at hm
      rcases hm with hm | hm | hm
      · exact h.held maker (State.mem_held.mpr (.inl hm))
      · cases hm
      · exact h.held maker (State.mem_held.mpr (.inr (.inr hm)))
    · exact h.held a (State.mem_held.mpr (.inr (.inl ha)))
  | .addCallbackSink o, _ => by
    have hmatched := State.addSink_matched h.matched o
    show (s.addSink o).Own
    by_cases hi : s.initialized = true
    · have hb := (h.running hi).addSink o
      obtain ⟨sinks, freed, heq⟩ := State.addSink_frame s o
      rw [heq] at hb ⊢
      exact hb.own hi
    · obtain ⟨sinks, freed, heq⟩ := State.addSink_frame s o
      rw [heq] at hmatched ⊢
      exact ⟨h.held, hmatched, fun hn => absurd hn hi, h.idle⟩
  | .init o, _ => h.init o
  | .log blocks uses, _ => by
    unfold Call.run
    simp only
    by_cases hi : s.initialized = true
    · rw [if_neg (not_not_intro hi)]
      have hb : (s.scratchBlocks blocks).Base :=
        (h.running hi).free fun maker hm => List.eq_of_mem_replicate hm
      split
      · exact (State.Base.enqueueAll uses hb).own ((State.enqueueAll_initialized uses _).trans hi)
      · exact hb.own hi
    · rw [if_pos hi]
      exact h
  | .work, _ => by
    show s.growScratch.Own
    by_cases hi : s.initialized = true
    · exact (h.running hi).growScratch.own ((State.growScratch_initialized s).trans hi)
    · have hnone := h.idle (Bool.eq_false_of_not_eq_true hi)
      have : s.growScratch = s := by
        unfold State.growScratch
        rw [hnone]
      rw [this]
      exact h
  | .shutdown, _ => h.shutdown
  | .setAllocator a, hk => by
    unfold Call.run
    simp only
    by_cases hi : s.initialized = true
    · rw [if_pos hi]
      exact h
    · rw [if_neg hi]
      exact ⟨hk.resolve_left hi, h.matched, fun hn => absurd hn hi, h.idle⟩

theorem start_own : start.Own :=
  ⟨fun _ h => absurd h (by simp [State.held, start]), fun _ h => absurd h List.not_mem_nil, fun h => (by cases h), fun _ => rfl⟩

theorem run_own : ∀ (calls : List Call) {s : State}, s.Own → Keeps s calls → (runFrom s calls).Own
  | [], _, h, _ => h
  | _ :: calls, _, h, hk => run_own calls (Call.run_own h hk.1) hk.2

/-! ## A block of another allocator -/

section
variable {s : State} {a : Option Allocator} {maker : Allocator}

/-- Configured without sinks, in sync mode. -/
def bareInit : InitOutcome := ⟨true, true, none, none, [], none⟩

theorem ring_released (hi : s.initialized = false) (hr : s.ring = some maker) :
    (maker, s.current) ∈ (runFrom s [.init bareInit, .shutdown]).freed := by
  have hinit : s.init bareInit = { s with sinks := [], mode := .sync, initialized := true } := by
    unfold State.init State.ringInit
    simp [hi, hr, bareInit, State.addOptional]
  show (maker, s.current) ∈ ((s.init bareInit).shutdown).freed
  rw [hinit]
  unfold State.shutdown State.ringDestroy
  simp [State.stopEngine, State.closeSinks, State.free, hr]

/-- A block that is held when another allocator is installed can be given to that one. -/
theorem foreign_released (h : s.Own) (hi : s.initialized = false) (hm : maker ∈ s.held) (hne : maker ≠ installed a) :
    ∃ more, ¬(runFrom ((Call.setAllocator a).run s) more).Matched := by
  have hset : (Call.setAllocator a).run s = { s with current := installed a } := if_neg (by simp [hi])
  rw [hset]
  rcases State.mem_held.mp hm with hl | hl | hl
  · obtain ⟨l, hlog, rfl⟩ := List.mem_map.mp hl
    have hsome : (s.loggers.find? fun x => decide (x.1 = l.1)).isSome = true :=
      List.find?_isSome.mpr ⟨l, hlog, decide_eq_true rfl⟩
    obtain ⟨x, hx⟩ := Option.isSome_iff_exists.mp hsome
    -- whichever block has this address, it is of the allocator before
    have hmaker : x.2 = s.current := h.held _ (State.mem_held.mpr (.inl (List.mem_map_of_mem (List.mem_of_find?_eq_some hx))))
    refine ⟨[.loggerDestroy l.1], fun hmatched => hne ?_⟩
    have hfreed : (x.2, installed a) ∈ (runFrom { s with current := installed a } [.loggerDestroy l.1]).freed := by
      show _ ∈ ((Call.loggerDestroy l.1).run { s with current := installed a }).freed
      unfold Call.run
      simp only [hx]
      exact List.mem_append_right _ (List.mem_singleton_self _)
    rw [h.held _ hm, ← hmaker]
    exact hmatched _ hfreed
  · refine ⟨[.loggerDropAll], fun hmatched => hne (hmatched (maker, installed a) ?_)⟩
    exact List.mem_append_right _ (List.mem_map.mpr ⟨maker, hl, rfl⟩)
  · refine ⟨[.init bareInit, .shutdown], fun hmatched => hne (hmatched (maker, installed a) ?_)⟩
    exact ring_released (s := { s with current := installed a }) hi hl

end

theorem runFrom_append (s : State) (calls more : List Call) : runFrom s (calls ++ more) = runFrom (runFrom s calls) more :=
  List.foldl_append

/-- Blocks go back to their makers in a run that switches allocators with nothing held, and only such a run is safe. -/
theorem blocks_freed_by_maker {calls : List Call} (hk : Keeps start calls) :
    (runFrom start calls).Matched ∧ ∀ a, ¬(Call.setAllocator a).Keeps (runFrom start calls) →
      ∃ more, ¬(runFrom start (calls ++ .setAllocator a :: more)).Matched := by
  have hown := run_own calls start_own hk
  refine ⟨hown.matched, fun a hbad => ?_⟩
  unfold Call.Keeps at hbad
  rw [not_or] at hbad
  obtain ⟨hi, hheld⟩ := hbad
  simp only [not_forall] at hheld
  obtain ⟨maker, hm, hne⟩ := hheld
  obtain ⟨more, hmore⟩ := foreign_released hown (Bool.eq_false_of_not_eq_true hi) hm hne
  refine ⟨more, ?_⟩
  rw [runFrom_append]
  exact hmore

/-- A logger is created and destroyed before the next allocator is installed. -/
theorem blocks_freed_by_maker_logger :
    (runFrom start [.loggerCreate 1 true, .loggerDestroy 1, .setAllocator (some (.user 1)), .loggerCreate 2 true,
        .loggerDestroy 2]).Matched ∧
      ∀ a, ¬(Call.setAllocator a).Keeps (runFrom start [.loggerCreate 1 true, .loggerDestroy 1,
          .setAllocator (some (.user 1)), .loggerCreate 2 true, .loggerDestroy 2]) →
        ∃ more, ¬(runFrom start ([.loggerCreate 1 true, .loggerDestroy 1, .setAllocator (some (.user 1)),
          .loggerCreate 2 true, .loggerDestroy 2] ++ .setAllocator a :: more)).Matched :=
  blocks_freed_by_maker ⟨trivial, trivial, .inr fun _ h => absurd h List.not_mem_nil, trivial, trivial, trivial⟩

/-- A logger of `malloc` is given to the `free_fn` of the user. -/
theorem block_freed_by_other : ¬∀ calls : List Call, (runFrom start calls).Matched := by
  intro h
  have hmatched := h [.loggerCreate 1 true, .setAllocator (some (.user 1)), .loggerDestroy 1] (.libc, .user 1)
    (List.mem_singleton_self _)
  cases hmatched

end Allocation

end HxClog
