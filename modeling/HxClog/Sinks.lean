import HxClog.Dispatch
import HxClog.Engine
import HxClog.Lib.Slots

/-!
# The sink table

The calls that edit the table of sinks: `hx_clog_init`, `hx_clog_shutdown`,
`hx_clog_reconfigure`, the calls that add and remove sinks and those that set their
level and format. Every call is one step; the lines a flush or a drain of the queue
brings out on the way come with the call. `created` and `ops` are for the proofs:
they number the sink objects and record what is done with each of them.
-/

namespace HxClog

open C Slots

/-! ## Sinks -/

inductive SinkKind where
  | console
  | file
  | callback
  | syslog
  | eventLog
  | androidLog
  | appleLog
  | network
  deriving DecidableEq, Repr

/-- `hx_clog_sink_t`. `obj` tells the objects apart, `isOpen` is `fp != NULL` of a file sink. -/
structure Sink where
  obj : Nat
  kind : SinkKind
  id : Nat
  minLevel : Level
  overrideSet : Bool
  overrideMode : FormatMode
  overrideHasPattern : Bool
  overridePattern : CStr
  isOpen : Bool

def Sink.isFile (s : Sink) : Bool := s.kind = .file

/-- What is done with a sink object. -/
inductive Op where
  | handed (obj : Nat)
  | write (obj : Nat) (level : Level) (line : Bytes)
  | flush (obj : Nat)
  | reopen (obj : Nat)
  | close (obj : Nat)
  deriving DecidableEq, Repr

def Sink.flushClose (s : Sink) : List Op := [.flush s.obj, .close s.obj]

inductive Rc where
  | ok
  | invalidArgument
  | outOfMemory
  | platform
  | openFileFailed
  | alreadyInitialized
  | notInitialized
  deriving DecidableEq, Repr

def maxSinks : Nat := 16
def sinkPatternMax : Nat := 256

/-- What `g_core` holds, but for locks, named loggers and the copy of the last configuration. -/
structure Core where
  initialized : Bool
  level : Level
  mode : Mode
  loggerName : CStr
  loggerLevel : Level
  table : Table Sink
  nextSinkId : Nat
  pattern : CStr
  formatMode : FormatMode
  formatter : Option Formatter
  formatGen : Nat
  overrideCount : Nat
  writtenLines : Nat
  created : Nat
  ops : List Op

theorem defaultLogger_noNul : 0 ∉ lit "hx_clog" := by decide

def defaultLoggerName : CStr := ⟨lit "hx_clog", defaultLogger_noNul⟩

/-- `core_once_init` -/
def coreOnceInit : Core where
  initialized := false
  level := 2
  mode := .sync
  loggerName := defaultLoggerName
  loggerLevel := 2
  table := ⟨fun _ => none, 0⟩
  nextSinkId := 1
  pattern := .empty
  formatMode := .pattern
  formatter := none
  formatGen := 1
  overrideCount := 0
  writtenLines := 0
  created := 0
  ops := []

namespace Core

def log (c : Core) (ops : List Op) : Core := { c with ops := c.ops ++ ops }

/-! ## Writing and flushing -/

/-- Whether a line with this target goes to the sink. -/
def routes (target : Nat) (s : Sink) : Bool := if target = 0 then !s.overrideSet else s.id = target

/-- `hx_sink_write` -/
def hxSinkWrite (level : Level) (line : Bytes) (s : Sink) : List Op :=
  if level < s.minLevel then [] else [.write s.obj level line]

def hxCoreEmitToSinks (c : Core) (l : Line) : Core :=
  let c := c.log ((c.table.live.filter (routes l.target)).flatMap (hxSinkWrite l.level l.bytes))
  if l.countStats then { c with writtenLines := c.writtenLines + 1 } else c

def hxCoreFlushSinks (c : Core) : Core := c.log (c.table.live.map fun s => .flush s.obj)

/-- `hx_clog_flush`. `brought` are the lines it brings out: that of a pending
summary, and those of the queue. -/
def hxClogFlush (c : Core) (brought : List Line) : Core :=
  if ¬c.initialized then c else (brought.foldl hxCoreEmitToSinks c).hxCoreFlushSinks

/-! ## Adding and removing -/

/-- A new sink as its constructor makes it. The override fields are set when it is added. -/
def newSink (c : Core) (kind : SinkKind) : Core × Sink :=
  ({ c with created := c.created + 1 },
    { obj := c.created, kind := kind, id := 0, minLevel := levelTrace, overrideSet := false, overrideMode := .pattern,
      overrideHasPattern := false, overridePattern := .empty, isOpen := kind = .file })

/-- `next_sink_id++`, which leaves out 0. -/
def takeSinkId (c : Core) : Core × Nat :=
  ({ c with nextSinkId := if u32 (c.nextSinkId + 1) = 0 then 1 else u32 (c.nextSinkId + 1) }, c.nextSinkId)

def addSinkLocked (c : Core) (s : Sink) : Core × Rc :=
  let c := c.log [.handed s.obj]
  if maxSinks ≤ c.table.count then (c.log [.close s.obj], .invalidArgument)
  else
    let (c, s) :=
      if s.id = 0 then
        let (c, id) := c.takeSinkId
        (c, { s with id := id, overrideSet := false, overrideMode := .pattern, overrideHasPattern := false,
                     overridePattern := .empty })
      else (c, s)
    let s := if s.minLevel < levelTrace ∨ levelOff < s.minLevel then { s with minLevel := levelTrace } else s
    ({ c with table := c.table.push s }, .ok)

/-- A sink is made, when its constructor succeeds, and handed over. -/
def addNew (c : Core) (kind : SinkKind) (made : Bool) : Core × Rc :=
  if ¬made then (c, if kind = .callback then .outOfMemory else .platform)
  else
    let (c, s) := c.newSink kind
    c.addSinkLocked s

def recomputeOverrideCountLocked (c : Core) : Core :=
  { c with overrideCount := (c.table.live.filter Sink.overrideSet).length }

def closeNonCallbackSinksLocked (c : Core) : Core :=
  let (t, removed) := c.table.compact fun s => s.kind ≠ .callback
  { c with table := t }.log (removed.flatMap Sink.flushClose)

def hxClogRemoveSink (c : Core) (id : Nat) : Core × Rc :=
  match c.table.find fun s => s.id = id with
  | some i =>
    let removed := (c.table.slots i).toList.flatMap Sink.flushClose
    (({ c with table := c.table.removeAt i }.log removed).recomputeOverrideCountLocked, .ok)
  | none => (c, .invalidArgument)

/-- The setters of one sink: the first with the id is changed. -/
def changeSink (c : Core) (id : Nat) (f : Sink → Sink) : Core × Rc :=
  match c.table.find fun s => s.id = id with
  | some i => ({ c with table := c.table.modify i f }, .ok)
  | none => (c, .invalidArgument)

def hxClogSetSinkLevel (c : Core) (id : Nat) (minLevel : Level) : Core × Rc :=
  if minLevel < levelTrace ∨ levelOff < minLevel then (c, .invalidArgument)
  else c.changeSink id fun s => { s with minLevel := minLevel }

/-- The setters of overrides count them afterwards. -/
def changeOverride (c : Core) (id : Nat) (f : Sink → Sink) : Core × Rc :=
  match c.changeSink id f with
  | (c, .ok) => (c.recomputeOverrideCountLocked, .ok)
  | failed => failed

def hxClogSetSinkPattern (c : Core) (id : Nat) (pattern : Option CStr) : Core × Rc :=
  c.changeOverride id fun s =>
    match pattern with
    | some p =>
      { s with overridePattern := p.cut sinkPatternMax, overrideHasPattern := true, overrideMode := .pattern,
               overrideSet := true }
    | none => { s with overrideSet := false, overrideHasPattern := false, overridePattern := .empty }

/-- A mode that is neither pattern nor JSON is `none`. -/
def hxClogSetSinkFormatMode (c : Core) (id : Nat) (mode : Option FormatMode) : Core × Rc :=
  match mode with
  | none => (c, .invalidArgument)
  | some mode => c.changeOverride id fun s => { s with overrideMode := mode, overrideSet := true }

/-! ## Global settings -/

def bumpFormatGenLocked (c : Core) : Core := { c with formatGen := c.formatGen + 1 }

def hxClogSetPattern (c : Core) (pattern : Option CStr) : Core × Rc :=
  match pattern with
  | none => (c, .invalidArgument)
  | some p => ({ c with pattern := p.cut 512, formatMode := .pattern }.bumpFormatGenLocked, .ok)

def hxClogSetFormatMode (c : Core) (mode : Option FormatMode) : Core × Rc :=
  match mode with
  | none => (c, .invalidArgument)
  | some mode => ({ c with formatMode := mode }.bumpFormatGenLocked, .ok)

def hxClogSetFormatter (c : Core) (formatter : Option Formatter) : Core × Rc :=
  ({ c with formatter := formatter }.bumpFormatGenLocked, .ok)

end Core

/-! ## Configuration -/

/-- The fields of `hx_clog_config_t` that the table and the format depend on. A
format mode that is neither pattern nor JSON is `none`, and renders as a pattern. -/
structure Config where
  loggerName : Option CStr
  fileName : Option CStr
  level : Level
  mode : Mode
  enableConsole : Bool
  enableFile : Bool
  enableSyslog : Bool
  enableEventLog : Bool
  enableAndroidLog : Bool
  enableAppleLog : Bool
  pattern : Option CStr
  formatMode : Option FormatMode
  formatter : Option Formatter

def defaultFileName : CStr := ⟨lit "app.log", by decide⟩

def configPattern : CStr := .ofBytes defaultPattern

def hxClogConfigDefault : Config where
  loggerName := some defaultLoggerName
  fileName := some defaultFileName
  level := 2
  mode := .sync
  enableConsole := true
  enableFile := true
  enableSyslog := false
  enableEventLog := false
  enableAndroidLog := false
  enableAppleLog := false
  pattern := some configPattern
  formatMode := some .pattern
  formatter := none

/-- The environment variables that are set. -/
structure EnvOverrides where
  level : Option Level := none
  mode : Option Mode := none
  console : Option Bool := none

def applyEnvOverrides (env : EnvOverrides) (cfg : Config) : Config :=
  { cfg with level := env.level.getD cfg.level, mode := env.mode.getD cfg.mode,
             enableConsole := env.console.getD cfg.enableConsole }

def fileNameIsPlain (name : CStr) : Bool :=
  name.bytes ≠ [] && name.bytes.all fun b => b ≠ chr '/' && b ≠ chr '\\' && b ≠ chr ':'

/-- What is outside: which constructors succeed, whether the new file can be opened
again, whether the worker starts, and the lines that a flush and the end of the
worker bring out. -/
structure Outside where
  env : EnvOverrides := {}
  made : SinkKind → Bool := fun _ => true
  reopened : Bool := true
  asyncStarted : Bool := true
  flushed : List Line := []
  drained : List Line := []

def Config.file (cfg : Config) : CStr := cfg.fileName.getD defaultFileName

def Config.systemSinks (cfg : Config) : List SinkKind :=
  (if cfg.enableSyslog then [.syslog] else []) ++ (if cfg.enableEventLog then [.eventLog] else []) ++
    (if cfg.enableAndroidLog then [.androidLog] else []) ++ if cfg.enableAppleLog then [.appleLog] else []

namespace Core

def addConsole (c : Core) (cfg : Config) (o : Outside) : Core :=
  if cfg.enableConsole then (c.addNew .console (o.made .console)).1 else c

def addConfiguredSystemSinks (c : Core) (cfg : Config) (o : Outside) : Core :=
  cfg.systemSinks.foldl (fun c kind => (c.addNew kind (o.made kind)).1) c

/-- The settings that init and reconfigure take from the configuration. -/
def applyFormat (c : Core) (cfg : Config) : Core :=
  { c with pattern := (cfg.pattern.getD configPattern).cut 512, formatMode := cfg.formatMode.getD .pattern,
           formatter := cfg.formatter, formatGen := c.formatGen + 1, level := cfg.level,
           loggerName := (cfg.loggerName.getD defaultLoggerName).cut 128, loggerLevel := cfg.level }

/-! ## Init, shutdown and reconfigure -/

/-- Without a worker the mode falls back to synchronous. -/
def startedMode (cfg : Config) (o : Outside) : Mode := if cfg.mode = .async ∧ o.asyncStarted then .async else .sync

/-- The count starts over, and the slots keep what they hold. -/
def initTable (c : Core) (cfg : Config) : Core :=
  { c.applyFormat cfg with mode := cfg.mode, table := { c.table with count := 0 }, overrideCount := 0 }

def addFile (c : Core) (cfg : Config) (o : Outside) : Core :=
  if cfg.enableFile then (c.addNew .file (o.made .file)).1 else c

def hxClogInitLocked (c : Core) (inConfig : Option Config) (o : Outside) : Core × Rc :=
  if c.initialized then (c, .alreadyInitialized)
  else
    let cfg := applyEnvOverrides o.env (inConfig.getD hxClogConfigDefault)
    if ¬fileNameIsPlain cfg.file then (c, .invalidArgument)
    else
      let c := (c.initTable cfg).addConsole cfg o
      if cfg.enableFile && !o.made .file && c.table.count = 0 then (c, .openFileFailed)
      else
        let c := (c.addFile cfg o).addConfiguredSystemSinks cfg o
        ({ c with mode := startedMode cfg o, initialized := true }, .ok)

/-- The worker empties the queue into the sinks before it ends. -/
def stopAsync (c : Core) (o : Outside) : Core := if c.mode = .async then o.drained.foldl hxCoreEmitToSinks c else c

def hxClogShutdown (c : Core) (o : Outside) : Core :=
  if ¬c.initialized then c
  else
    let c := o.flushed.foldl hxCoreEmitToSinks c
    let c := { c with initialized := false }.stopAsync o
    { c with table := ⟨fun k => if k < c.table.count then none else c.table.slots k, 0⟩, overrideCount := 0 }.log
      (c.table.live.flatMap Sink.flushClose)

def newFileSink (c : Core) (cfg : Config) : Core × Option Sink :=
  if cfg.enableFile then
    let (c, s) := c.newSink .file
    (c, some s)
  else (c, none)

/-- The new file sink is opened again after it was added, and whether or not it was. -/
def reopenNewFile (c : Core) (obj : Nat) (reopened : Bool) : Core :=
  let c := c.log [.reopen obj]
  match c.table.find fun s => s.obj = obj with
  | some i => { c with table := c.table.modify i fun s => { s with isOpen := reopened } }
  | none => c

def addNewFile (c : Core) (newFile : Option Sink) (o : Outside) : Core :=
  match newFile with
  | some s => (c.addSinkLocked s).1.reopenNewFile s.obj o.reopened
  | none => c

/-- The old output is ended and the new settings are made. -/
def teardown (c : Core) (cfg : Config) (o : Outside) : Core :=
  ((c.hxClogFlush o.flushed).stopAsync o).closeNonCallbackSinksLocked.applyFormat cfg

/-- The file sink is made first and added after the teardown. -/
def swapSinks (c : Core) (cfg : Config) (o : Outside) : Core :=
  let (c, newFile) := c.newFileSink cfg
  let c := ((c.teardown cfg o).addConsole cfg o).addNewFile newFile o
  (c.addConfiguredSystemSinks cfg o).recomputeOverrideCountLocked

def hxClogReconfigureLocked (c : Core) (inConfig : Option Config) (o : Outside) : Core × Rc :=
  if ¬c.initialized then (c, .notInitialized)
  else
    match inConfig with
    | none => (c, .invalidArgument)
    | some cfg =>
      if ¬fileNameIsPlain cfg.file then (c, .invalidArgument)
      else if cfg.enableFile && !o.made .file then (c, .openFileFailed)
      else ({ c.swapSinks cfg o with mode := startedMode cfg o }, .ok)

/-- The file sinks, one after the other; `opened` says which `fopen` succeeds. -/
def hxClogReopen (c : Core) (opened : Nat → Bool) : Core × Rc :=
  if ¬c.initialized then (c, .notInitialized)
  else
    let files := c.table.live.filter Sink.isFile
    let t : Table Sink :=
      { c.table with slots := fun k => (c.table.slots k).map fun s =>
          if s.isFile then { s with isOpen := opened s.obj } else s }
    ({ c with table := t }.log (files.map fun s : Sink => .reopen s.obj),
      if files.all fun s => opened s.obj then .ok else .openFileFailed)

def hxClogFlushSink (c : Core) (id : Nat) : Core × Rc :=
  match c.table.find fun s => s.id = id with
  | some i => (c.log ((c.table.slots i).toList.map fun s : Sink => .flush s.obj), .ok)
  | none => (c, .invalidArgument)

end Core

/-! ## Calls -/

inductive Call where
  | init (cfg : Option Config) (o : Outside)
  | shutdown (o : Outside)
  | reconfigure (cfg : Option Config) (o : Outside)
  | addSink (kind : SinkKind) (made : Bool)
  | removeSink (id : Nat)
  | setSinkLevel (id : Nat) (minLevel : Level)
  | setSinkPattern (id : Nat) (pattern : Option CStr)
  | setSinkFormatMode (id : Nat) (mode : Option FormatMode)
  | setPattern (pattern : Option CStr)
  | setFormatMode (mode : Option FormatMode)
  | setFormatter (formatter : Option Formatter)
  | reopen (opened : Nat → Bool)
  | flush (brought : List Line)
  | flushSink (id : Nat)
  -- a line that a writing thread or the worker emits
  | emit (l : Line)

def Call.run (c : Core) : Call → Core
  | .init cfg o => (c.hxClogInitLocked cfg o).1
  | .shutdown o => c.hxClogShutdown o
  | .reconfigure cfg o => (c.hxClogReconfigureLocked cfg o).1
  | .addSink kind made => (c.addNew kind made).1
  | .removeSink id => (c.hxClogRemoveSink id).1
  | .setSinkLevel id minLevel => (c.hxClogSetSinkLevel id minLevel).1
  | .setSinkPattern id pattern => (c.hxClogSetSinkPattern id pattern).1
  | .setSinkFormatMode id mode => (c.hxClogSetSinkFormatMode id mode).1
  | .setPattern pattern => (c.hxClogSetPattern pattern).1
  | .setFormatMode mode => (c.hxClogSetFormatMode mode).1
  | .setFormatter formatter => (c.hxClogSetFormatter formatter).1
  | .reopen opened => (c.hxClogReopen opened).1
  | .flush brought => c.hxClogFlush brought
  | .flushSink id => (c.hxClogFlushSink id).1
  | .emit l => c.hxCoreEmitToSinks l

def runCalls (c : Core) (calls : List Call) : Core := calls.foldl Call.run c

end HxClog
