import HxClog.Routing
import HxClog.Lib.Fifo

/-!
# Records under way

The asynchronous mode under BLOCK, seen from a record: a thread routes it into lines,
the lines wait in the queue, and the worker decides once more, line by line, which
sinks they go to. In between, formats of sinks are set and cleared. A step is one
section under a lock or one access to the count of overrides; the queue is the bounded
queue that the ring refines.

`record` and `overridden` are history: which record a line belongs to, and which sinks
had a format of their own when it was routed.
-/

namespace HxClog

open C Slots

structure Routed where
  line : Line
  record : Nat
  overridden : List Nat
  deriving DecidableEq, Repr

/-- Where a thread stands in `core_dispatch_record`: it has seen that there are
overrides and takes their snapshot next, or it has lines left to enqueue. -/
inductive Dispatching where
  | collect (record : Nat) (th : FmtCache) (e : Renderer) (rec : Record)
  | send (lines : List Routed)

structure Underway (cap : Nat) where
  core : Core
  queue : Fifo.Queue Routed cap
  hand : Option Routed
  threads : List Dispatching
  -- the levels of the records, in the order of their numbers
  records : List Level
  -- which sink object was written which record
  received : List (Nat × Nat)

def Core.overridden (c : Core) : List Nat := (c.table.live.filter Sink.overrideSet).map Sink.id

def Core.routed (c : Core) (record : Nat) (lines : List Line) : List Routed :=
  lines.map fun l => ⟨l, record, c.overridden⟩

inductive Traffic where
  -- a thread enters core_dispatch_record
  | dispatch (i : Nat) (th : FmtCache) (e : Renderer) (rec : Record)
  | collect (i : Nat)
  | enqueue (i : Nat)
  -- the worker
  | pop
  | emit
  -- hx_core_flush_sinks, at the worker's tick or behind a FATAL record
  | flushSinks
  | setSinkPattern (id : Nat) (pattern : Option CStr)
  | setSinkFormatMode (id : Nat) (mode : Option FormatMode)

section
variable {cap : Nat}

def Underway.goto (u : Underway cap) (i : Nat) (d : Dispatching) : Underway cap :=
  { u with threads := u.threads.set i d }

/-- The format is refreshed first, then the count of overrides is read. -/
def Underway.dispatch (u : Underway cap) (i : Nat) (th : FmtCache) (e : Renderer) (rec : Record) : Underway cap :=
  let th := fmtCacheRefresh u.core th
  let u' := { u with records := u.records ++ [rec.level] }
  if 0 < u.core.overrideCount then u'.goto i (.collect u.records.length th e rec)
  else u'.goto i (.send (u.core.routed u.records.length (dispatchLines th e rec [] true)))

/-- `hx_core_emit_to_sinks` by the worker. -/
def Underway.emit (u : Underway cap) (r : Routed) : Underway cap :=
  { u with
    core := u.core.hxCoreEmitToSinks r.line
    hand := none
    received := u.received ++ ((u.core.table.live.filter (Core.routes r.line.target)).filter fun s =>
      s.minLevel ≤ r.line.level).map fun s => (s.obj, r.record) }

def Underway.step (u : Underway cap) : Traffic → Option (Underway cap)
  | .dispatch i th e rec =>
    match u.threads[i]? with
    | some (.send []) => some (u.dispatch i th e rec)
    | _ => none
  | .collect i =>
    match u.threads[i]? with
    | some (.collect n th e rec) =>
      some (u.goto i (.send (u.core.routed n (dispatchLines th e rec u.core.collectLocked.1 u.core.collectLocked.2))))
    | _ => none
  | .enqueue i =>
    match u.threads[i]? with
    | some (.send (r :: rest)) =>
      -- a full queue makes the thread wait
      (Fifo.step u.queue (.push r)).map fun queue => { u.goto i (.send rest) with queue := queue }
    | _ => none
  | .pop =>
    match u.hand, u.queue.items with
    | none, r :: _ => (Fifo.step u.queue (.leave r .taken)).map fun queue => { u with queue := queue, hand := some r }
    | _, _ => none
  | .emit => u.hand.map u.emit
  | .flushSinks => some { u with core := u.core.hxCoreFlushSinks }
  | .setSinkPattern id pattern => some { u with core := (u.core.hxClogSetSinkPattern id pattern).1 }
  | .setSinkFormatMode id mode => some { u with core := (u.core.hxClogSetSinkFormatMode id mode).1 }

/-- Nothing is under way yet. -/
def Underway.start (cap : Nat) (c : Core) (threads : Nat) : Underway cap where
  core := c
  queue := .empty cap
  hand := none
  threads := List.replicate threads (.send [])
  records := []
  received := []

/-- Every thread has returned and the worker has emptied the queue. -/
structure Underway.Drained (u : Underway cap) : Prop where
  threads : ∀ d ∈ u.threads, d = .send []
  queue : u.queue.items = []
  hand : u.hand = none

/-- A sink that takes a default line has a format of its own exactly if it had one when the record was routed. -/
def Underway.settled (u : Underway cap) : Traffic → Bool
  | .emit =>
    match u.hand with
    | some r => u.core.table.live.all fun s =>
        !(r.line.target = 0 && s.minLevel ≤ r.line.level) || s.overrideSet == r.overridden.contains s.id
    | none => true
  | _ => true

end

end HxClog
