import HxClog.Lib.C
import HxClog.Lib.Ring

/-!
# The asynchronous engine

`g_async` and the lock-protected sections that work on it: what
`hx_async_enqueue`, `worker_main`, `hx_async_flush`, `hx_async_start` and
`hx_async_stop` do between taking the queue lock and letting go of it. Who runs
them, and in which order, is decided in `HxClog.Threads`.
-/

namespace HxClog

open C

/-- `hx_clog_level_t`. The formatter has a case for values outside the
enumeration, so it is the integer that C passes around. -/
abbrev Level := Int

def levelTrace : Level := 0
def levelFatal : Level := 5
def levelOff : Level := 6

inductive Mode where
  | sync
  | async
  deriving DecidableEq, Repr

inductive OverflowPolicy where
  | block
  | dropNew
  | dropOld
  deriving DecidableEq, Repr

/-- What `hx_core_emit_to_sinks` and `hx_async_enqueue` are called with. -/
structure Line where
  level : Level
  bytes : Bytes
  target : Nat
  countStats : Bool
  deriving DecidableEq, Repr

def Line.size (l : Line) : Nat := l.bytes.length

/-- The fields of `hx_clog_config_t` the engine reads. -/
structure AsyncConfig where
  mode : Mode
  asyncQueueSize : UInt32
  asyncBatchSize : UInt32
  flushIntervalMs : UInt32
  overflowPolicy : OverflowPolicy
  deriving DecidableEq, Repr

/-- `async_slot_t`. `data` holds the bytes written so far to a block of `cap`
bytes; `cap = 0` is the null pointer. -/
structure AsyncSlot where
  level : Level := 0
  target : Nat := 0
  countStats : Bool := false
  len : Nat := 0
  cap : Nat := 0
  data : Bytes := []
  deriving DecidableEq, Repr

def AsyncSlot.line (s : AsyncSlot) : Line := ⟨s.level, s.data.take s.len, s.target, s.countStats⟩

structure AsyncEngine where
  slots : List AsyncSlot := []
  capacity : Nat := 0
  head : Nat := 0
  tail : Nat := 0
  count : Nat := 0
  batchSize : Nat := 0
  flushIntervalMs : Nat := 0
  overflow : OverflowPolicy := .block
  running : Bool := false
  stop : Bool := false
  flushRequest : Bool := false
  scratch : Bytes := []
  scratchCap : Nat := 0
  dropped : Nat := 0
  highWatermark : Nat := 0
  deriving DecidableEq, Repr

/-- The queued lines, oldest first. -/
def AsyncEngine.queued (e : AsyncEngine) : List Line :=
  (Ring.contents e.slots e.capacity e.head e.count).map AsyncSlot.line

def asyncSlotKeepCap : Nat := 64 * 1024

def asyncDropReportEvery : Nat := 10000

/-! ## Start and stop -/

/-- `hx_async_start`, once the slots are allocated: everything is zeroed first. -/
def hxAsyncStart (cfg : AsyncConfig) : AsyncEngine :=
  let cap := if cfg.asyncQueueSize = 0 then 8192 else cfg.asyncQueueSize.toNat
  { slots := List.replicate cap {}
    capacity := cap
    batchSize := if cfg.asyncBatchSize = 0 then 64 else cfg.asyncBatchSize.toNat
    flushIntervalMs := if cfg.flushIntervalMs = 0 then 1000 else cfg.flushIntervalMs.toNat
    overflow := cfg.overflowPolicy
    running := true }

/-- `hx_async_start`, after `hx_thread_create` failed. -/
def asyncStartFailed (e : AsyncEngine) : AsyncEngine := { e with running := false, slots := [] }

/-- `hx_async_stop`, up to the join. -/
def asyncStopRequest (e : AsyncEngine) : AsyncEngine := { e with stop := true }

/-- `hx_async_stop`, after the join. -/
def asyncStopDetach (e : AsyncEngine) : AsyncEngine :=
  { e with
    slots := []
    scratch := []
    scratchCap := 0
    count := 0
    head := 0
    tail := 0
    running := false }

/-! ## Enqueueing -/

def asyncCountDropLocked (e : AsyncEngine) : AsyncEngine × Bool :=
  ({ e with dropped := e.dropped + 1 },
    e.dropped + 1 == 1 || (e.dropped + 1) % asyncDropReportEvery == 0)

/-- `head = (head + 1) % capacity; count--`. -/
def advanceHead (e : AsyncEngine) : AsyncEngine :=
  { e with head := u32 (e.head + 1) % e.capacity, count := e.count - 1 }

/-- Drop a buffer that ballooned for one oversized line. -/
def slotShrink (s : AsyncSlot) (size : Nat) : AsyncSlot :=
  if asyncSlotKeepCap < s.cap ∧ u32 (size + 1) ≤ asyncSlotKeepCap then { s with data := [], cap := 0 } else s

/-- Make room for `size` bytes and a terminator. The flag is false when the
allocation failed; no value at all means that the doubling loop never ends. -/
def slotGrow (s : AsyncSlot) (size : Nat) (alloc : Bool) : Option (AsyncSlot × Bool) :=
  if s.cap < u32 (size + 1) then
    (doubleUntil (u32 (size + 1)) 32 (if s.cap = 0 then 256 else s.cap)).map fun newcap =>
      if alloc then ({ s with data := [], cap := newcap }, true) else (s, false)
  else some (s, true)

/-- The second half of `hx_async_enqueue`, from `slot = &g_async.slots[tail]`
on: whether the line was stored, and whether a drop is to be reported. -/
def storeLine (e : AsyncEngine) (l : Line) (alloc : Bool) : Option (AsyncEngine × Bool × Bool) := do
  let slot ← e.slots[e.tail]?
  let (slot, ok) ← slotGrow (slotShrink slot l.size) l.size alloc
  if ok then
    let data ← memcpy slot.data slot.cap l.bytes l.size
    let slot := { slot with level := l.level, target := l.target, countStats := l.countStats, len := l.size, data := data }
    some ({ e with
      slots := e.slots.set e.tail slot
      tail := u32 (e.tail + 1) % e.capacity
      count := e.count + 1
      highWatermark := max e.highWatermark (e.count + 1) }, true, false)
  else
    let (e, report) := asyncCountDropLocked { e with slots := e.slots.set e.tail slot }
    some (e, false, report)

/-- How a lock section of `hx_async_enqueue` ends. -/
inductive Enqueue where
  | unavailable
  | wait
  | refused (e : AsyncEngine) (report : Bool)
  | settled (e : AsyncEngine) (evicted : Option Line) (stored report : Bool)
  deriving DecidableEq, Repr

/-- The wait loop of the BLOCK policy, taken up with the lock held. -/
def asyncEnqueueBlock (e : AsyncEngine) (l : Line) (alloc : Bool) : Option Enqueue :=
  if e.capacity ≤ e.count ∧ e.stop = false then some .wait
  else if e.stop || !e.running then some .unavailable
  else (storeLine e l alloc).map fun (e, stored, report) => .settled e none stored report

/-- `hx_async_enqueue`, from taking the lock to its first release of it. -/
def hxAsyncEnqueue (e : AsyncEngine) (l : Line) (alloc : Bool) : Option Enqueue :=
  if !e.running || e.stop then some .unavailable
  else if e.capacity ≤ e.count then
    match e.overflow with
    | .dropNew =>
      let (e, report) := asyncCountDropLocked e
      some (.refused e report)
    | .dropOld =>
      let old := (e.slots[e.head]?).map AsyncSlot.line
      let (e, report) := asyncCountDropLocked (advanceHead e)
      -- a failed allocation counts a second drop, whose report flag replaces the first
      (storeLine e l alloc).map fun (e, stored, report') => .settled e old stored (if stored then report else report')
    | .block => asyncEnqueueBlock e l alloc
  else (storeLine e l alloc).map fun (e, stored, report) => .settled e none stored report

/-! ## The worker -/

/-- The locals of `worker_main` between a pop and its emission; the bytes are in
the engine's scratch buffer. -/
structure Popped where
  level : Level
  target : Nat
  countStats : Bool
  len : Nat
  deriving DecidableEq, Repr

def Popped.line (p : Popped) (e : AsyncEngine) : Line := ⟨p.level, e.scratch.take p.len, p.target, p.countStats⟩

def scratchGrow (e : AsyncEngine) (len : Nat) (alloc : Bool) : Option (AsyncEngine × Bool) :=
  if e.scratchCap < u32 (len + 1) then
    (doubleUntil (u32 (len + 1)) 32 (if e.scratchCap = 0 then 256 else e.scratchCap)).map fun nc =>
      if alloc then ({ e with scratch := [], scratchCap := nc }, true) else (e, false)
  else some (e, true)

inductive Pop where
  | skipped (e : AsyncEngine) (l : Line)
  | popped (e : AsyncEngine) (p : Popped)
  deriving DecidableEq, Repr

/-- One turn of the batch loop of `worker_main`, up to the release of the lock. -/
def workerPop (e : AsyncEngine) (alloc : Bool) : Option Pop := do
  let s ← e.slots[e.head]?
  let (e, ok) ← scratchGrow e s.len alloc
  if ok then
    let d ← memcpy e.scratch e.scratchCap s.data s.len
    some (.popped (advanceHead { e with scratch := d }) ⟨s.level, s.target, s.countStats, s.len⟩)
  else
    let e := advanceHead e
    some (.skipped { e with dropped := e.dropped + 1 } s.line)

end HxClog
