import HxClog.Sinks
import HxClog.EnqueueSound
import HxClog.Lib.Transition

/-!
# Statistics over several lives

The counters of `hx_clog_get_stats` live in two places: `g_core` is zeroed once, the
engine on every start. A step is a line that is logged, a turn of the worker, a
rotation or a call of `hx_clog_init`, `hx_clog_reconfigure` or `hx_clog_shutdown`. The
lines that the flush at the start of the latter two writes or waits for are logged and
brought out by steps of their own. `dropLog` is a history variable.
-/

namespace HxClog

/-! ## Turns of the worker -/

structure Turns where
  eng : AsyncEngine
  lost : List Line
  out : List Line

def workerTurn (e : AsyncEngine) (alloc : Bool) : Turns :=
  if e.count = 0 then ⟨e, [], []⟩
  else
    match workerPop e alloc with
    | some (.skipped e l) => ⟨e, [l], []⟩
    | some (.popped e p) => ⟨e, [], [p.line e]⟩
    | none => ⟨e, [], []⟩

def workerTurns (e : AsyncEngine) : List Bool → Turns
  | [] => ⟨e, [], []⟩
  | alloc :: allocs =>
    let first := workerTurn e alloc
    let rest := workerTurns first.eng allocs
    ⟨rest.eng, first.lost ++ rest.lost, first.out ++ rest.out⟩

/-! ## The process -/

structure Process where
  core : Core
  eng : AsyncEngine
  primsReady : Bool
  rotatedFiles : Nat
  dropLog : List Line

structure Stats where
  writtenLines : Nat
  droppedLines : Nat
  rotatedFiles : Nat

/-- How an engine starts: its configuration, and whether the slots are allocated and
the worker is created. -/
structure Starting where
  cfg : AsyncConfig
  slotsOk : Bool := true
  created : Bool := true

namespace Process

def hxAsyncDropped (s : Process) : Nat := if s.primsReady then s.eng.dropped else 0

def hxClogGetStats (s : Process) : Stats := ⟨s.core.writtenLines, s.hxAsyncDropped, s.rotatedFiles⟩

def emit (s : Process) (l : Line) : Process := { s with core := s.core.hxCoreEmitToSinks l }

/-- `core_dispatch_line`. A caller that has to wait for room waits for a turn of the worker. -/
def log (s : Process) (l : Line) (alloc : Bool) : Option Process :=
  if ¬s.core.initialized then some s
  else
    match s.core.mode with
    | .sync => some (s.emit l)
    | .async =>
      if ¬s.primsReady then some (s.emit l)
      else
        match hxAsyncEnqueue s.eng l alloc with
        | some .unavailable => some (s.emit l)
        | some (.refused e _) => some { s with eng := e, dropLog := s.dropLog ++ [l] }
        | some (.settled e evicted stored _) =>
          some { s with eng := e, dropLog := s.dropLog ++ (evicted.toList ++ if stored then [] else [l]) }
        | some .wait => none
        | none => none

def work (s : Process) (alloc : Bool) : Process :=
  if ¬s.eng.running then s
  else
    let t := workerTurn s.eng alloc
    { s with eng := t.eng, dropLog := s.dropLog ++ t.lost, core := t.out.foldl Core.hxCoreEmitToSinks s.core }

/-- The turns in which the worker empties the queue before it ends. -/
def draining (s : Process) (alloc : Nat → Bool) : Turns :=
  if s.core.mode = .async ∧ s.primsReady ∧ s.eng.running then
    let t := workerTurns (asyncStopRequest s.eng) ((List.range s.eng.count).map alloc)
    { t with eng := asyncStopDetach t.eng }
  else ⟨s.eng, [], []⟩

/-- `hx_async_start` -/
def hxAsyncStart (s : Process) (a : Starting) : Process :=
  if ¬a.slotsOk then { s with primsReady := true }
  else
    let e := HxClog.hxAsyncStart a.cfg
    { s with primsReady := true, eng := if a.created then e else asyncStartFailed e }

/-- The engine is started when the configuration that is in force asks for it. -/
def startIf (s : Process) (mode : Mode) (a : Starting) : Process :=
  match mode with
  | .async => s.hxAsyncStart a
  | .sync => s

def initMode (inConfig : Option Config) (o : Outside) : Mode :=
  (applyEnvOverrides o.env (inConfig.getD hxClogConfigDefault)).mode

def hxClogInit (s : Process) (inConfig : Option Config) (a : Starting) (o : Outside) : Process :=
  let r := s.core.hxClogInitLocked inConfig { o with asyncStarted := a.slotsOk && a.created }
  if r.2 = .ok then { s with core := r.1 }.startIf (initMode inConfig o) a else { s with core := r.1 }

def hxClogReconfigure (s : Process) (inConfig : Option Config) (a : Starting) (o : Outside) (alloc : Nat → Bool) : Process :=
  let t := s.draining alloc
  let r := s.core.hxClogReconfigureLocked inConfig
    { o with flushed := [], drained := t.out, asyncStarted := a.slotsOk && a.created }
  if r.2 = .ok then
    { s with core := r.1, eng := t.eng, dropLog := s.dropLog ++ t.lost }.startIf (inConfig.getD hxClogConfigDefault).mode a
  else { s with core := r.1 }

def hxClogShutdown (s : Process) (o : Outside) (alloc : Nat → Bool) : Process :=
  if ¬s.core.initialized then s
  else
    let t := s.draining alloc
    { s with core := s.core.hxClogShutdown { o with flushed := [], drained := t.out },
             eng := t.eng, dropLog := s.dropLog ++ t.lost }

end Process

inductive StatCall where
  | log (l : Line) (alloc : Bool)
  | work (alloc : Bool)
  -- a file sink archives its file and calls `hx_core_add_rotated(1)`
  | rotate
  | init (cfg : Option Config) (a : Starting) (o : Outside)
  | reconfigure (cfg : Option Config) (a : Starting) (o : Outside) (alloc : Nat → Bool)
  | shutdown (o : Outside) (alloc : Nat → Bool)

def Process.step (s : Process) : StatCall → Option Process
  | .log l alloc => s.log l alloc
  | .work alloc => some (s.work alloc)
  | .rotate => some { s with rotatedFiles := s.rotatedFiles + 1 }
  | .init cfg a o => some (s.hxClogInit cfg a o)
  | .reconfigure cfg a o alloc => some (s.hxClogReconfigure cfg a o alloc)
  | .shutdown o alloc => some (s.hxClogShutdown o alloc)

def processAtStart : Process := ⟨coreOnceInit, {}, false, 0, []⟩

/-- The call zeroes the engine. -/
def Process.starts (s : Process) : StatCall → Prop
  | .init cfg a o =>
    (s.core.hxClogInitLocked cfg { o with asyncStarted := a.slotsOk && a.created }).2 = .ok ∧
      Process.initMode cfg o = .async ∧ a.slotsOk = true
  | .reconfigure cfg a o alloc =>
    (s.core.hxClogReconfigureLocked cfg
      { o with flushed := [], drained := (s.draining alloc).out, asyncStarted := a.slotsOk && a.created }).2 = .ok ∧
      (cfg.getD hxClogConfigDefault).mode = .async ∧ a.slotsOk = true
  | _ => False

end HxClog
