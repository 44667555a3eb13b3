import HxClog.Engine
import HxClog.Lib.Fifo

/-!
# Threads, the worker and the reconfiguring caller

Any number of threads call `core_dispatch_record`, `hx_clog_flush` and
`hx_clog_reconfigure`, next to the one worker. A step is one lock-protected
section, one atomic access to the mode or one call into the sinks. The only
section that spans several steps is the worker's batch loop, so the queue lock
is free exactly when the worker is not in it. Timed waits may end at any time;
a thread parked on `not_full` has to be woken.

`trace` is a history variable: what was handed in, what the queue did with it
and what reached the sinks. No step reads it.
-/

namespace HxClog

/-- Who called `hx_clog_flush`: the application, the end of the write of a FATAL
record, or `hx_clog_reconfigure`. -/
inductive Caller where
  | user
  | fatal (l : Line)
  | reconfigure (cfg : AsyncConfig)
  deriving DecidableEq, Repr

inductive Ev where
  | given (i : Nat) (l : Line)
  | direct (i : Nat) (l : Line)
  | stored (i : Nat) (l : Line)
  | refused (i : Nat) (l : Line)
  | lost (i : Nat) (l : Line)
  | evicted (l : Line)
  | skipped (l : Line)
  | popped (l : Line)
  | emitted (l : Line)
  | dropsReported
  | workerFlush
  | flushCalled (i : Nat)
  | flush (mark : Nat) (caller : Caller)
  | started
  deriving DecidableEq, Repr

/-- Where a thread stands. `mark` is the length of the trace at the thread's call
of `hx_clog_flush`. -/
inductive Pc where
  | idle
  -- core_dispatch_line
  | dispatch (l : Line)
  | enqueue (l : Line)
  | parked (l : Line)
  | woken (l : Line)
  | emit (l : Line)
  -- hx_clog_flush
  | flush (mark : Nat) (caller : Caller)
  | asyncFlush (mark : Nat) (caller : Caller)
  | flushWait (mark : Nat) (caller : Caller)
  | flushSinks (mark : Nat) (caller : Caller)
  -- hx_clog_reconfigure
  | initLock (cfg : AsyncConfig)
  | checkMode (cfg : AsyncConfig)
  | stop (cfg : AsyncConfig)
  | join (cfg : AsyncConfig)
  | detach (cfg : AsyncConfig)
  | swap (cfg : AsyncConfig)
  | start (cfg : AsyncConfig)
  | create
  | abortStart
  | publish
  | unlock
  deriving DecidableEq, Repr

inductive Worker where
  | none
  | top
  | waiting
  | flushSinks (doFlush exit : Bool)
  | notify (exit : Bool)
  | batch (written : Nat)
  | emit (written : Nat) (p : Popped)
  | relock (written : Nat)
  | exited
  deriving DecidableEq, Repr

structure State where
  eng : AsyncEngine
  primsReady : Bool
  mode : Mode
  initLock : Bool
  worker : Worker
  threads : List Pc
  trace : List Ev
  deriving DecidableEq, Repr

/-- How the environment decides: allocation, thread creation, whether the new
configuration is accepted, whether a timed wait ran out, which threads a signal
on `not_full` wakes. -/
structure Choice where
  alloc : Bool := true
  created : Bool := true
  accepted : Bool := true
  timeout : Bool := true
  wake : List Nat := []
  deriving DecidableEq, Repr

inductive Act where
  | call (i : Nat) (l : Line)
  | callFlush (i : Nat)
  | callReconfigure (i : Nat) (cfg : AsyncConfig)
  | thread (i : Nat) (c : Choice)
  | spurious (i : Nat)
  | worker (c : Choice)
  deriving DecidableEq, Repr

def State.goto (s : State) (i : Nat) (pc : Pc) : State := { s with threads := s.threads.set i pc }

def State.log (s : State) (evs : List Ev) : State := { s with trace := s.trace ++ evs }

def State.lockFree (s : State) : Bool :=
  match s.worker with
  | .batch _ => false
  | _ => true

/-! ## Waking producers -/

def Pc.wake : Pc → Pc
  | .parked l => .woken l
  | pc => pc

def Pc.isParked : Pc → Bool
  | .parked _ => true
  | _ => false

/-- `hx_cond_broadcast(&g_async_not_full)`. -/
def wakeAll (threads : List Pc) : List Pc := threads.map Pc.wake

/-- `hx_cond_signal(&g_async_not_full)`: wakes at least one waiter if there is any. -/
def signalNotFull (threads : List Pc) (wake : List Nat) : Option (List Pc) :=
  if wake.isEmpty && threads.any Pc.isParked then none
  else if wake.all fun i => (threads[i]?.map Pc.isParked).getD false then
    some (threads.mapIdx fun i pc => if wake.contains i then pc.wake else pc)
  else none

/-! ## Threads -/

def dropEvents (report : Bool) : List Ev := if report then [.dropsReported] else []

/-- The end of `core_dispatch_record`: FATAL is flushed immediately. -/
def afterWrite (mark : Nat) (l : Line) : Pc := if levelFatal ≤ l.level then .flush mark (.fatal l) else .idle

def finishWrite (s : State) (i : Nat) (l : Line) : State := s.goto i (afterWrite s.trace.length l)

/-- `core_dispatch_line` on the way back from a section of `hx_async_enqueue`:
only an unavailable engine makes it fall back to the sinks. -/
def settleEnqueue (s : State) (i : Nat) (l : Line) : Enqueue → State
  | .unavailable => s.goto i (.emit l)
  | .wait => s.goto i (.parked l)
  | .refused e report => finishWrite ({ s with eng := e }.log (.refused i l :: dropEvents report)) i l
  | .settled e evicted stored report =>
    finishWrite ({ s with eng := e }.log
      ((evicted.map Ev.evicted).toList ++ (if stored then Ev.stored i l else Ev.lost i l) :: dropEvents report)) i l

/-- The section of `hx_async_flush` that asks for a flush. -/
def asyncFlushEnter (s : State) (i mark : Nat) (k : Caller) : State :=
  if !s.eng.running || s.eng.count == 0 then s.goto i (.flushSinks mark k)
  else { s with eng := { s.eng with flushRequest := true } }.goto i
    (if s.eng.stop then .flushSinks mark k else .flushWait mark k)

/-- The section after a timed wait in `hx_async_flush`. -/
def asyncFlushWake (s : State) (i mark : Nat) (k : Caller) : State :=
  if s.eng.count == 0 then s.goto i (.flushSinks mark k)
  else if s.eng.flushRequest && s.eng.running && !s.eng.stop then s
  else s.goto i (.flushSinks mark k)

/-- What `hx_clog_flush` returns to. -/
def Caller.after : Caller → Pc
  | .user => .idle
  | .fatal _ => .idle
  | .reconfigure cfg => .checkMode cfg

/-- The first section of `hx_async_stop`. -/
def asyncStopEnter (s : State) (i : Nat) (cfg : AsyncConfig) : State :=
  if !s.eng.running then s.goto i (.swap cfg)
  else { s with eng := asyncStopRequest s.eng, threads := wakeAll s.threads }.goto i (.join cfg)

def threadMove (s : State) (i : Nat) (c : Choice) : Pc → Option State
  | .idle => none
  | .parked _ => none
  | .dispatch l => some (s.goto i (match s.mode with | .async => .enqueue l | .sync => .emit l))
  | .enqueue l =>
    if !s.primsReady then some (s.goto i (.emit l))
    else if s.lockFree then (hxAsyncEnqueue s.eng l c.alloc).map (settleEnqueue s i l)
    else none
  | .woken l =>
    if s.lockFree then (asyncEnqueueBlock s.eng l c.alloc).map (settleEnqueue s i l) else none
  | .emit l => some (finishWrite (s.log [.direct i l]) i l)
  | .flush mark k =>
    some (s.goto i (match s.mode with | .async => .asyncFlush mark k | .sync => .flushSinks mark k))
  | .asyncFlush mark k =>
    if !s.primsReady then some (s.goto i (.flushSinks mark k))
    else if s.lockFree then some (asyncFlushEnter s i mark k)
    else none
  | .flushWait mark k => if s.lockFree then some (asyncFlushWake s i mark k) else none
  | .flushSinks mark k => some ((s.log [.flush mark k]).goto i k.after)
  | .initLock cfg =>
    if s.initLock then none
    else if c.accepted then some ({ s with initLock := true }.goto i (.flush s.trace.length (.reconfigure cfg)))
    else some (s.goto i .idle)
  | .checkMode cfg =>
    some (match s.mode with
      | .async => { s with mode := .sync }.goto i (.stop cfg)
      | .sync => s.goto i (.swap cfg))
  | .stop cfg =>
    if !s.primsReady then some (s.goto i (.swap cfg))
    else if s.lockFree then some (asyncStopEnter s i cfg)
    else none
  | .join cfg => if s.worker = .exited then some ({ s with worker := .none }.goto i (.detach cfg)) else none
  | .detach cfg =>
    if s.lockFree then some ({ s with eng := asyncStopDetach s.eng }.goto i (.swap cfg)) else none
  | .swap cfg =>
    some ({ s with mode := .sync }.goto i (match cfg.mode with | .async => .start cfg | .sync => .unlock))
  | .start cfg =>
    if !c.alloc then some ({ s with primsReady := true }.goto i .unlock)
    else if s.lockFree then
      some (({ s with primsReady := true, eng := hxAsyncStart cfg }.log [.started]).goto i .create)
    else none
  | .create => some (if c.created then { s with worker := .top }.goto i .publish else s.goto i .abortStart)
  | .abortStart =>
    if s.lockFree then some ({ s with eng := asyncStartFailed s.eng }.goto i .unlock) else none
  | .publish => some ({ s with mode := .async }.goto i .unlock)
  | .unlock => some ({ s with initLock := false }.goto i .idle)

/-! ## The worker -/

/-- `worker_main` below its wait loop. -/
def workerAfterWait (s : State) : State :=
  if s.eng.count = 0 then
    { s with eng := { s.eng with flushRequest := false }, worker := .flushSinks s.eng.flushRequest s.eng.stop }
  else { s with worker := .batch 0 }

def workerTop (s : State) : State :=
  if s.eng.count = 0 ∧ s.eng.stop = false ∧ s.eng.flushRequest = false then { s with worker := .waiting }
  else workerAfterWait s

/-- One turn of the batch loop, or its end. -/
def workerBatch (s : State) (c : Choice) (written : Nat) : Option State :=
  if 0 < s.eng.count ∧ written < s.eng.batchSize then
    (workerPop s.eng c.alloc).bind fun r =>
      (signalNotFull s.threads c.wake).map fun threads =>
        match r with
        | .skipped e l => { s with eng := e, worker := .batch (written + 1), threads := threads }.log [.skipped l]
        | .popped e p => { s with eng := e, worker := .emit written p, threads := threads }.log [.popped (p.line e)]
  else
    some { s with
      eng := { s.eng with flushRequest := s.eng.flushRequest && s.eng.count != 0 }
      worker := .top }

def workerMove (s : State) (c : Choice) : Worker → Option State
  | .none => none
  | .exited => none
  | .top => some (workerTop s)
  | .waiting => some (if c.timeout then workerAfterWait s else workerTop s)
  | .flushSinks doFlush exit =>
    some { s.log [.workerFlush] with
      worker := if doFlush then .notify exit else if exit then .exited else .top }
  | .notify exit => some { s with worker := if exit then .exited else .top }
  | .batch written => workerBatch s c written
  | .emit written p => some { s.log [.emitted (p.line s.eng)] with worker := .relock (written + 1) }
  | .relock written => some { s with worker := .batch written }

/-! ## The system -/

def step (s : State) : Act → Option State
  | .call i l => if s.threads[i]? = some .idle then some ((s.log [.given i l]).goto i (.dispatch l)) else none
  | .callFlush i =>
    if s.threads[i]? = some .idle then some ((s.log [.flushCalled i]).goto i (.flush (s.trace.length + 1) .user))
    else none
  | .callReconfigure i cfg => if s.threads[i]? = some .idle then some (s.goto i (.initLock cfg)) else none
  | .thread i c => (s.threads[i]?).bind (threadMove s i c)
  | .spurious i => (s.threads[i]?).bind fun pc => if pc.isParked then some (s.goto i pc.wake) else none
  | .worker c => workerMove s c s.worker

/-- `hx_clog_init` has returned: `n` threads may now use the library. -/
def initState (n : Nat) (cfg : AsyncConfig) : State where
  eng := match cfg.mode with | .async => hxAsyncStart cfg | .sync => {}
  primsReady := cfg.mode == .async
  mode := cfg.mode
  initLock := false
  worker := match cfg.mode with | .async => .top | .sync => .none
  threads := List.replicate n .idle
  trace := []

/-- Every `hx_thread_create` succeeds. -/
def Act.startsOk : Act → Bool
  | .thread _ c => c.created
  | _ => true

/-- The acts `as` one after the other, each of them allowed by `ok`. -/
def execute (ok : Act → Bool) (n : Nat) (cfg : AsyncConfig) (as : List Act) : Option State :=
  Transition.run (Transition.restrict (fun _ a => ok a) step) (initState n cfg) as

/-! ## Reading the trace -/

/-- What the queue did, as operations of a bounded queue. -/
def Ev.fifo? : Ev → Option (Fifo.Op Line)
  | .stored _ l => some (.push l)
  | .refused _ l => some (.refuse l)
  | .lost _ l => some (.lose l)
  | .evicted l => some (.leave l .evicted)
  | .skipped l => some (.leave l .discarded)
  | .popped l => some (.leave l .taken)
  | _ => none

def Ev.given? : Ev → Option Line
  | .given _ l => some l
  | _ => none

def Ev.direct? : Ev → Option Line
  | .direct _ l => some l
  | _ => none

def Ev.emitted? : Ev → Option Line
  | .emitted l => some l
  | _ => none

def fifoOps (tr : List Ev) : List (Fifo.Op Line) := tr.filterMap Ev.fifo?

def givenLines (tr : List Ev) : List Line := tr.filterMap Ev.given?

def directLines (tr : List Ev) : List Line := tr.filterMap Ev.direct?

def emittedLines (tr : List Ev) : List Line := tr.filterMap Ev.emitted?

/-- The part of the trace after the last start of the engine. -/
def sinceStart (tr : List Ev) : List Ev :=
  tr.foldl (fun acc ev => if ev = .started then [] else acc ++ [ev]) []

/-- The line a thread holds inside its call. -/
def Pc.held : Pc → Option Line
  | .dispatch l => some l
  | .enqueue l => some l
  | .parked l => some l
  | .woken l => some l
  | .emit l => some l
  | _ => none

def heldLines (threads : List Pc) : List Line := threads.filterMap Pc.held

/-- The line the worker popped and has not handed to the sinks yet. -/
def State.hand (s : State) : List Line :=
  match s.worker with
  | .emit _ p => [p.line s.eng]
  | _ => []

end HxClog
