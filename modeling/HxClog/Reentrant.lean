import HxClog.Engine
import HxClog.Lib.Transition
import HxClog.Lib.WaitFor

/-!
# Callbacks that call back

`sink_lock` is held while a callback sink runs its callback, on a producer or on the
worker, and the callback may use the API again. A step is one lock-protected section, one
atomic access to the mode, or the way into or out of a callback. What a call has left to
do is a list of sections; the calls around a callback keep theirs below it. Thread 0 is
the worker.

`hx_clog_reconfigure` keeps `init_lock` until its last section. Timed waits may end at any
time and look at their condition again; a thread parked on `not_full` has to be woken.
-/

namespace HxClog

namespace Reentrant

inductive Task where
  -- a section under sink_lock that calls nobody
  | sinkSection
  -- core_dispatch_line
  | dispatch (l : Line)
  | enqueue (l : Line)
  | parked (l : Line)
  | woken (l : Line)
  | emit (l : Line)
  -- hx_clog_flush
  | flush
  | flushMode
  | asyncFlush
  | flushWait
  -- hx_clog_get_config
  | getConfig
  -- hx_clog_reconfigure
  | initLock (cfg : AsyncConfig)
  | checkMode
  | stop
  | join
  | detach
  | swap (cfg : AsyncConfig)
  | start (cfg : AsyncConfig)
  | create
  | abortStart
  | publish
  | initUnlock
  -- worker_main
  | workerTop
  | waiting
  | notify
  | batch (written : Nat)
  | relock (written : Nat)
  deriving DecidableEq, Repr

/-- What the innermost call has left to do, and below each callback the call it interrupts. -/
structure Thread where
  tasks : List Task := []
  outer : List (List Task) := []
  deriving DecidableEq, Repr

structure State where
  eng : AsyncEngine
  primsReady : Bool
  mode : Mode
  threads : List Thread
  deriving DecidableEq, Repr

/-! ## Calls -/

/-- What `core_dispatch_record` is called with: how often `sink_lock` is taken before the
first line (the format cache is stale, a sink overrides the format), and a line for each format. -/
structure Record where
  level : Level
  sections : Nat
  lines : List Line
  deriving DecidableEq, Repr

/-- FATAL is flushed immediately. -/
def Record.tasks (r : Record) : List Task :=
  List.replicate r.sections .sinkSection ++ r.lines.map .dispatch ++ if levelFatal ≤ r.level then [.flush] else []

/-- `hx_clog_write` dispatches the summary of folded duplicates before its own record, or nothing at all. -/
inductive Request where
  | write (records : List Record)
  | flush
  | getSinkCount
  | getConfig
  | reconfigure (cfg : AsyncConfig)
  deriving DecidableEq, Repr

def Request.tasks : Request → List Task
  | .write records => records.flatMap Record.tasks
  | .flush => [.flush]
  | .getSinkCount => [.sinkSection]
  | .getConfig => [.getConfig]
  | .reconfigure cfg => [.initLock cfg]

/-- What a callback may ask for. -/
def Request.fromCallback : Request → Bool
  | .reconfigure _ => false
  | _ => true

/-- How the environment decides: allocation, thread creation, whether the new configuration
is accepted, whether a timed wait ran out, which threads a signal on `not_full` wakes, and
the summary of folded duplicates that a flush finds. -/
structure Choice where
  alloc : Bool := true
  created : Bool := true
  accepted : Bool := true
  timeout : Bool := true
  wake : List Nat := []
  summary : Option Record := none
  deriving DecidableEq, Repr

inductive Act where
  | call (i : Nat) (rq : Request)
  | run (i : Nat) (c : Choice)
  | spurious (i : Nat)
  deriving DecidableEq, Repr

/-! ## Threads and locks -/

def Thread.idle (th : Thread) : Bool := th.tasks.isEmpty && th.outer.isEmpty

/-- It holds `sink_lock`, once for each callback it is in. -/
def Thread.inCallback (th : Thread) : Bool := !th.outer.isEmpty

/-- Some call of the thread has such a section left. -/
def Thread.has (th : Thread) (p : Task → Bool) : Bool := (th.tasks :: th.outer).any fun ts => ts.any p

def Thread.holdsInit (th : Thread) : Bool := th.has (· == .initUnlock)

def Thread.isParked (th : Thread) : Bool :=
  match th.tasks with
  | .parked _ :: _ => true
  | _ => false

def Task.wake : Task → Task
  | .parked l => .woken l
  | t => t

def Thread.wake (th : Thread) : Thread := { th with tasks := th.tasks.modifyHead Task.wake }

/-- `hx_cond_broadcast(&g_async_not_full)`. -/
def wakeAll (threads : List Thread) : List Thread := threads.map Thread.wake

/-- `hx_cond_signal(&g_async_not_full)`: wakes at least one waiter if there is any. -/
def signalNotFull (threads : List Thread) (wake : List Nat) : Option (List Thread) :=
  if wake.isEmpty && threads.any Thread.isParked then none
  else if wake.all fun i => (threads[i]?.map Thread.isParked).getD false then
    some (threads.mapIdx fun i th => if wake.contains i then th.wake else th)
  else none

namespace State

def thread (s : State) (i : Nat) : Thread := s.threads.getD i {}

def put (s : State) (i : Nat) (th : Thread) : State := { s with threads := s.threads.set i th }

/-- `sink_lock` is recursive: only the others are in the way. -/
def sinkFree (s : State) (i : Nat) : Bool :=
  (List.range s.threads.length).all fun j => j == i || !(s.thread j).inCallback

def initFree (s : State) : Bool := s.threads.all fun th => !th.holdsInit

/-- Only the worker keeps the queue lock from one step to the next, in its batch loop. -/
def queueFree (s : State) : Bool :=
  match (s.thread 0).tasks with
  | .batch _ :: _ => false
  | _ => true

/-- The loop of `hx_async_flush` goes on. -/
def undrained (s : State) : Bool := s.eng.count != 0 && s.eng.flushRequest && s.eng.running && !s.eng.stop

end State

/-! ## Sections -/

/-- `core_dispatch_line` on the way back from a section of `hx_async_enqueue`. -/
def settle (s : State) (l : Line) : Enqueue → State × List Task
  | .unavailable => (s, [.emit l])
  | .wait => (s, [.parked l])
  | .refused e _ => ({ s with eng := e }, [])
  | .settled e _ _ _ => ({ s with eng := e }, [])

/-- The section of `hx_async_flush` that asks for a flush. -/
def asyncFlushEnter (s : State) : State × List Task :=
  if !s.eng.running || s.eng.count == 0 then (s, [])
  else ({ s with eng := { s.eng with flushRequest := true } }, if s.eng.stop then [] else [.flushWait])

/-- The first section of `hx_async_stop`. -/
def asyncStopEnter (s : State) : State × List Task :=
  if !s.eng.running then (s, [])
  else ({ s with eng := asyncStopRequest s.eng, threads := wakeAll s.threads }, [.join, .detach])

/-- `worker_main` below its wait loop. -/
def workerAfterWait (s : State) : State × List Task :=
  if s.eng.count = 0 then
    ({ s with eng := { s.eng with flushRequest := false } },
      .sinkSection :: ((if s.eng.flushRequest then [.notify] else []) ++ if s.eng.stop then [] else [.workerTop]))
  else (s, [.batch 0])

def workerTop (s : State) : State × List Task :=
  if s.eng.count = 0 ∧ s.eng.stop = false ∧ s.eng.flushRequest = false then (s, [.waiting]) else workerAfterWait s

/-- One turn of the batch loop, or its end. -/
def workerBatch (s : State) (c : Choice) (written : Nat) : Option (State × List Task) :=
  if 0 < s.eng.count ∧ written < s.eng.batchSize then
    (workerPop s.eng c.alloc).bind fun r =>
      (signalNotFull s.threads c.wake).map fun threads =>
        match r with
        | .skipped e _ => ({ s with eng := e, threads := threads }, [.batch (written + 1)])
        | .popped e p => ({ s with eng := e, threads := threads }, [.emit (p.line e), .relock (written + 1)])
  else
    some ({ s with eng := { s.eng with flushRequest := s.eng.flushRequest && s.eng.count != 0 } }, [.workerTop])

/-- The section a thread is at, and what it has to do after it. -/
def perform (s : State) (i : Nat) (c : Choice) : Task → Option (State × List Task)
  | .sinkSection => if s.sinkFree i then some (s, []) else none
  | .dispatch l => some (s, [match s.mode with | .async => .enqueue l | .sync => .emit l])
  | .enqueue l =>
    if !s.primsReady then some (s, [.emit l])
    else if s.queueFree then (hxAsyncEnqueue s.eng l c.alloc).map (settle s l)
    else none
  | .parked _ => none
  | .woken l => if s.queueFree then (asyncEnqueueBlock s.eng l c.alloc).map (settle s l) else none
  -- the way into the callbacks is a step of its own
  | .emit _ => none
  | .flush => some (s, (c.summary.map Record.tasks).getD [] ++ [.flushMode])
  | .flushMode =>
    some (s, match s.mode with | .async => [.asyncFlush, .sinkSection] | .sync => [.sinkSection])
  | .asyncFlush =>
    if !s.primsReady then some (s, []) else if s.queueFree then some (asyncFlushEnter s) else none
  | .flushWait => if s.queueFree && !s.undrained then some (s, []) else none
  | .getConfig => if s.initFree then some (s, []) else none
  | .initLock cfg =>
    if s.initFree then some (s, if c.accepted then [.flush, .checkMode, .swap cfg, .initUnlock] else []) else none
  | .checkMode =>
    some (match s.mode with
      | .async => ({ s with mode := .sync }, [.stop])
      | .sync => (s, []))
  | .stop => if !s.primsReady then some (s, []) else if s.queueFree then some (asyncStopEnter s) else none
  | .join => if (s.thread 0).idle then some (s, []) else none
  | .detach => if s.queueFree then some ({ s with eng := asyncStopDetach s.eng }, []) else none
  | .swap cfg =>
    if s.sinkFree i then
      some ({ s with mode := .sync }, match cfg.mode with | .async => [.start cfg] | .sync => [])
    else none
  | .start cfg =>
    if !c.alloc then some ({ s with primsReady := true }, [])
    else if s.queueFree then some ({ s with primsReady := true, eng := hxAsyncStart cfg }, [.create])
    else none
  | .create => some (if c.created then (s.put 0 ⟨[.workerTop], []⟩, [.publish]) else (s, [.abortStart]))
  | .abortStart => if s.queueFree then some ({ s with eng := asyncStartFailed s.eng }, []) else none
  | .publish => some ({ s with mode := .async }, [])
  | .initUnlock => some (s, [])
  | .workerTop => some (workerTop s)
  | .waiting => some (if c.timeout then workerAfterWait s else workerTop s)
  | .notify => some (s, [])
  | .batch written => workerBatch s c written
  | .relock written => some (s, [.batch written])

/-! ## The system -/

/-- Calls come from idle threads and from callbacks. -/
def State.mayCall (s : State) (i : Nat) (rq : Request) : Bool :=
  decide (i < s.threads.length) && (s.thread i).tasks.isEmpty &&
    if (s.thread i).inCallback then rq.fromCallback else i != 0

def step (s : State) : Act → Option State
  | .call i rq => if s.mayCall i rq then some (s.put i ⟨rq.tasks, (s.thread i).outer⟩) else none
  | .run i c =>
    match (s.thread i).tasks, (s.thread i).outer with
    -- hx_core_emit_to_sinks takes sink_lock and runs the callbacks ...
    | .emit _ :: rest, outer => if s.sinkFree i then some (s.put i ⟨[], rest :: outer⟩) else none
    | t :: rest, outer => (perform s i c t).map fun (s', next) => s'.put i ⟨next ++ rest, outer⟩
    -- ... and lets go of it after the last of them
    | [], rest :: outer => some (s.put i ⟨rest, outer⟩)
    | [], [] => none
  | .spurious i =>
    match (s.thread i).tasks with
    | .parked l :: rest => some (s.put i ⟨.woken l :: rest, (s.thread i).outer⟩)
    | _ => none

/-- `hx_clog_init` has returned: `n` threads may now use the library. -/
def initState (n : Nat) (cfg : AsyncConfig) : State where
  eng := match cfg.mode with | .async => hxAsyncStart cfg | .sync => {}
  primsReady := cfg.mode == .async
  mode := cfg.mode
  threads := (match cfg.mode with | .async => ⟨[.workerTop], []⟩ | .sync => {}) :: List.replicate n {}

/-! ## Waits -/

/-- What a thread that cannot go on is waiting for. -/
inductive Wait where
  | queueLock
  | sinkLock
  | initLock
  | notFull
  | drained
  | exited
  deriving DecidableEq, Repr

def waitUnless (free : Bool) (w : Wait) : Option Wait := if free then none else some w

def Task.waits (s : State) (i : Nat) : Task → Option Wait
  | .sinkSection => waitUnless (s.sinkFree i) .sinkLock
  | .emit _ => waitUnless (s.sinkFree i) .sinkLock
  | .swap _ => waitUnless (s.sinkFree i) .sinkLock
  | .enqueue _ => waitUnless (!s.primsReady || s.queueFree) .queueLock
  | .woken _ => waitUnless s.queueFree .queueLock
  | .asyncFlush => waitUnless (!s.primsReady || s.queueFree) .queueLock
  | .stop => waitUnless (!s.primsReady || s.queueFree) .queueLock
  | .detach => waitUnless s.queueFree .queueLock
  | .start _ => waitUnless s.queueFree .queueLock
  | .abortStart => waitUnless s.queueFree .queueLock
  | .parked _ => some .notFull
  | .flushWait => if s.undrained then some .drained else waitUnless s.queueFree .queueLock
  | .getConfig => waitUnless s.initFree .initLock
  | .initLock _ => waitUnless s.initFree .initLock
  | .join => waitUnless (s.thread 0).idle .exited
  | _ => none

namespace State

def waits (s : State) (i : Nat) : Option Wait := ((s.thread i).tasks.head?).bind (Task.waits s i)

def blocked (s : State) (i : Nat) : Bool := (s.waits i).isSome

def atTask (s : State) (i : Nat) (p : Task → Bool) : Bool := ((s.thread i).tasks.head?.map p).getD false

/-- The thread is about to stop the engine, or to start its worker. -/
def takesOver (s : State) (i : Nat) : Bool :=
  s.atTask i fun
    | .checkMode => s.mode == .async
    | .stop => true
    | .create => true
    | _ => false

/-- Thread `u` can end the wait: the holder of a lock lets go of it; the worker frees slots,
drains the queue and exits; a reconfiguring thread stops the engine or starts it. -/
def releases (s : State) (i u : Nat) : Wait → Bool
  | .queueLock => u == 0
  | .sinkLock => u != i && (s.thread u).inCallback
  | .initLock => (s.thread u).holdsInit
  | .notFull => (u == 0 && !(s.thread 0).idle) || s.takesOver u
  | .drained => (u == 0 && !(s.thread 0).idle) || s.takesOver u || s.atTask u (· == .abortStart)
  | .exited => u == 0

def releasers (s : State) (i : Nat) : List Nat :=
  (List.range s.threads.length).filter fun u => ((s.waits i).map (s.releases i u)).getD false

/-- Each thread of the set can only be released by a thread of the set. -/
def Deadlocked (s : State) (S : Finset Nat) : Prop := WaitFor.Deadlocked s.blocked s.releasers S

instance decidableDeadlocked (s : State) (S : Finset Nat) : Decidable (s.Deadlocked S) :=
  inferInstanceAs (Decidable (WaitFor.Deadlocked s.blocked s.releasers S))

end State

end Reentrant

end HxClog
