import HxClog.Dispatch

/-!
# Duplicate suppression

`core_writev` up to the point where a record is dispatched. With suppression
enabled a call that repeats the one before is counted instead of written, and
the count is written when another message comes or the library is flushed.
-/

namespace HxClog

open C

/-! ## State -/

/-- What `hx_get_pid`, `hx_get_tid` and `hx_now` return. -/
structure Moment where
  pid : UInt64
  tid : UInt64
  sec : Int
  msec : UInt32
  deriving DecidableEq

def Moment.ms (m : Moment) : Int := m.sec * 1000 + m.msec.toNat

/-- `dup_state_t`. `lastMsg` is the memory of the array. -/
structure DupState where
  enabled : Bool
  windowMs : UInt32
  haveLast : Bool
  lastLevel : Level
  lastLine : Int
  lastLogger : Buf 128
  lastFile : Buf 256
  lastMsg : Bytes
  lastMsgLen : Nat
  repeats : Nat
  lastMs : Int

/-- What writing reads of `g_core` and `g_dup`. `loggerName` is the name of the
default logger, as the thread's snapshot has it. -/
structure Writer where
  initialized : Bool
  level : Level
  lineCap : Option UInt32
  loggerName : CStr
  loggerName_fits : loggerName.bytes.length < 128
  dup : DupState

/-- One call of `core_writev`. `text` is what `vsnprintf` makes of the arguments,
`none` for an encoding error. The clock is read three times. -/
structure WriteCall where
  level : Level
  loggerLevel : Option Level
  loggerName : Option CStr
  file : Option CStr
  line : Int
  func : Option CStr
  text : Option Bytes
  heapOk : Bool
  checkedAt : Moment
  summaryAt : Moment
  writtenAt : Moment
  context : CStr

/-- What the calls of one run have in common. -/
structure DupKey where
  level : Level
  line : Int
  logger : CStr
  file : CStr
  msg : Bytes
  deriving DecidableEq

/-! ## Records -/

/-- A record whose message is these bytes. -/
def recordOf (level : Level) (logger file func : Option CStr) (line : Int) (m : Moment) (msg : Bytes) (context : CStr) :
    Record where
  level := level
  loggerName := logger
  file := file
  line := line
  func := func
  pid := m.pid
  tid := m.tid
  timestampSec := m.sec
  timestampMsec := m.msec
  message := some msg
  messageLen := msg.length.toUInt32
  context := some context
  readable := by
    intro b hb
    cases hb
    exact Nat.mod_le _ _

/-- At most 48 characters, so the `char[64]` holds all of it. -/
def repeatedText (repeats : Nat) : Bytes := lit "last message repeated " ++ Decimal.text repeats ++ lit " times"

/-- The record of `dup_emit_summary`. -/
def summaryRecord (w : Writer) (level : Level) (loggerName : Bytes) (repeats : Nat) (m : Moment) : Record :=
  let logger := if loggerName ≠ [] then CStr.ofBytes loggerName else w.loggerName
  recordOf level (some logger) (some (CStr.ofBytes (lit "hx_clog"))) (some (CStr.ofBytes (lit "dup"))) 0 m
    (repeatedText repeats) .empty

/-! ## Flushing -/

/-- `core_dispatch_record`: the record, and what `flush` dispatches after a FATAL one. -/
def coreDispatchRecord (flush : Writer → Writer × List Record) (w : Writer) (rec : Record) : Writer × List Record :=
  if levelFatal ≤ rec.level then
    let (w, more) := flush w
    (w, rec :: more)
  else (w, [rec])

def dupEmitSummary (flush : Writer → Writer × List Record) (w : Writer) (level : Level) (loggerName : Bytes)
    (repeats : Nat) (m : Moment) : Writer × List Record :=
  if ¬w.initialized ∨ repeats = 0 then (w, [])
  else coreDispatchRecord flush w (summaryRecord w level loggerName repeats m)

def dupFlushPending (flush : Writer → Writer × List Record) (m : Moment) (w : Writer) : Writer × List Record :=
  let d := w.dup
  if 0 < d.repeats then
    dupEmitSummary flush { w with dup := { d with repeats := 0, haveLast := false } } d.lastLevel d.lastLogger.bytes
      d.repeats m
  else (w, [])

/-- `hx_clog_flush` at this depth of calls. It calls itself only through a FATAL
summary, and then nothing is pending any more. -/
def hxClogFlush (m : Moment) : Nat → Writer → Writer × List Record
  | 0, w => (w, [])
  | depth + 1, w => if ¬w.initialized then (w, []) else dupFlushPending (hxClogFlush m depth) m w

def flushDepth : Nat := 2

/-! ## Checking -/

/-- The condition under which a call is folded. -/
def DupState.folds (d : DupState) (k : DupKey) (nowMs : Int) : Bool :=
  let klen := if k.msg.length < 255 then k.msg.length else 255
  d.haveLast && d.lastLevel = k.level && d.lastLine = k.line && d.lastMsgLen = k.msg.length &&
    strncmpEq 127 d.lastLogger.bytes k.logger.bytes && strncmpEq 255 d.lastFile.bytes k.file.bytes &&
    strncmpEq klen d.lastMsg k.msg && nowMs - d.lastMs ≤ d.windowMs.toNat

/-- The state after a call that starts a new run. -/
def DupState.restart (d : DupState) (k : DupKey) (nowMs : Int) : DupState :=
  let klen := if k.msg.length < 255 then k.msg.length else 255
  { d with
    repeats := 0
    haveLast := true
    lastLevel := k.level
    lastLine := k.line
    lastLogger := .store 128 k.logger.bytes
    lastFile := .store 256 k.file.bytes
    lastMsg := k.msg.take klen ++ 0 :: d.lastMsg.drop (klen + 1)
    lastMsgLen := k.msg.length
    lastMs := nowMs }

/-- `dup_check_and_update`: whether the call is a suppressed duplicate, and the
summary of the run before. -/
def dupCheckAndUpdate (flush : Writer → Writer × List Record) (w : Writer) (k : DupKey) (checkedAt summaryAt : Moment) :
    Bool × Writer × List Record :=
  let d := w.dup
  if ¬d.enabled then (false, w, [])
  else if d.folds k checkedAt.ms then
    (true, { w with dup := { d with repeats := d.repeats + 1, lastMs := checkedAt.ms } }, [])
  else
    let w := { w with dup := d.restart k checkedAt.ms }
    (false, if 0 < d.repeats then dupEmitSummary flush w d.lastLevel d.lastLogger.bytes d.repeats summaryAt else (w, []))

/-! ## Writing -/

def stackBufSize : Nat := 1024

/-- The message of a call: the stack buffer, or a block on the heap up to its first NUL. -/
def messageBody (lineCap : Option UInt32) (heapOk : Bool) (text : Bytes) : Bytes :=
  if text.length < stackBufSize then text
  else if heapOk then (cut (hxClampLine lineCap (text.length + 1)) text).takeWhile (· ≠ 0)
  else text.take (stackBufSize - 1)

def Writer.effectiveLogger (w : Writer) (c : WriteCall) : CStr :=
  match c.loggerName with
  | some name => if name.bytes ≠ [] then name else w.loggerName
  | none => w.loggerName

/-- The level filter in front of any work. -/
def Writer.passes (w : Writer) (c : WriteCall) : Bool :=
  ¬(c.level < w.level ∨ (∃ l ∈ c.loggerLevel, c.level < l) ∨ c.level = levelOff)

def Writer.key (w : Writer) (c : WriteCall) (text : Bytes) : DupKey where
  level := c.level
  line := c.line
  logger := w.effectiveLogger c
  file := c.file.getD .empty
  msg := messageBody w.lineCap c.heapOk text

/-- The record of a call. -/
def Writer.record (w : Writer) (c : WriteCall) (text : Bytes) : Record :=
  recordOf c.level (some (w.effectiveLogger c)) c.file c.func c.line c.writtenAt (messageBody w.lineCap c.heapOk text)
    c.context

/-- `core_writev`, with the records it hands to the sinks. -/
def coreWritev (w : Writer) (c : WriteCall) : Writer × List Record :=
  if ¬w.initialized ∨ ¬w.passes c then (w, [])
  else
    match c.text with
    -- an encoding error is reported and the line dropped
    | none => (w, [])
    | some text =>
      let flush := hxClogFlush c.summaryAt flushDepth
      let r := w.record c text
      if w.dup.enabled then
        match dupCheckAndUpdate flush w (w.key c text) c.checkedAt c.summaryAt with
        | (true, w, out) => (w, out)
        | (false, w, out) =>
          let (w, more) := coreDispatchRecord flush w r
          (w, out ++ more)
      else coreDispatchRecord flush w r

/-- What a thread does one after the other. -/
inductive Event where
  | write (c : WriteCall)
  | flush (m : Moment)

def Event.run (w : Writer) : Event → Writer × List Record
  | .write c => coreWritev w c
  | .flush m => hxClogFlush m flushDepth w

def runEvents (w : Writer) : List Event → Writer × List Record
  | [] => (w, [])
  | e :: es =>
    let (w, out) := e.run w
    let (w, more) := runEvents w es
    (w, out ++ more)

end HxClog
