import HxClog.Dup
import HxClog.Lib.Transition

/-!
# Duplicate suppression with threads

What any number of threads do to `g_dup` through `core_writev`, `hx_clog_flush` and
`hx_clog_set_duplicate_suppression`. A step is one section under `g_dup.lock`, or the
dispatch of one record. `suppressed` and `out` are history variables.
-/

namespace HxClog

open C

inductive DupCall where
  | write (c : WriteCall)
  | flush (m : Moment)
  | setSuppression (enable : Bool) (windowMs : UInt32) (m : Moment)

/-- What a call still has to do: `dup_check_and_update`, `core_dispatch_record`,
`dup_emit_summary` with what was taken from `g_dup`, `hx_clog_flush`, `dup_flush_pending`,
and the section at the end of `hx_clog_set_duplicate_suppression`. -/
inductive DupTask where
  | check (c : WriteCall) (text : Bytes)
  | dispatch (c : WriteCall) (text : Bytes)
  | summary (level : Level) (loggerName : Bytes) (repeats : Nat) (m : Moment)
  | flush (m : Moment)
  | pending (m : Moment)
  | store (enable : Bool) (windowMs : UInt32)

inductive Dispatched where
  | line (r : Record)
  | summary (r : Record) (repeats : Nat)

structure DupThreads where
  writer : Writer
  threads : List (List DupTask)
  suppressed : Nat
  out : List Dispatched

/-! ## Calls -/

def DupCall.tasks (w : Writer) : DupCall → List DupTask
  | .write c =>
    if ¬w.initialized ∨ ¬w.passes c then []
    else
      match c.text with
      | none => []
      -- the flag is read without the lock
      | some text => if w.dup.enabled then [.check c text] else [.dispatch c text]
  | .flush m => [.flush m]
  | .setSuppression enable windowMs m =>
    if enable then [.store enable windowMs] else [.pending m, .store enable windowMs]

/-! ## Sections -/

structure Performed where
  writer : Writer
  next : List DupTask := []
  suppressed : Nat := 0
  out : List Dispatched := []

/-- A FATAL record is flushed at once. -/
def flushAfter (level : Level) (m : Moment) : List DupTask := if levelFatal ≤ level then [.flush m] else []

def DupState.takePending (d : DupState) (m : Moment) : List DupTask :=
  if 0 < d.repeats then [.summary d.lastLevel d.lastLogger.bytes d.repeats m] else []

def DupTask.perform (w : Writer) : DupTask → Performed
  | .check c text =>
    let d := w.dup
    let k := w.key c text
    if ¬d.enabled then { writer := w, next := [.dispatch c text] }
    else if d.folds k c.checkedAt.ms then
      { writer := { w with dup := { d with repeats := d.repeats + 1, lastMs := c.checkedAt.ms } }, suppressed := 1 }
    else
      { writer := { w with dup := d.restart k c.checkedAt.ms }
        next := d.takePending c.summaryAt ++ [.dispatch c text] }
  | .dispatch c text =>
    { writer := w, next := flushAfter c.level c.summaryAt, out := [.line (w.record c text)] }
  | .summary level loggerName repeats m =>
    if ¬w.initialized ∨ repeats = 0 then { writer := w }
    else
      { writer := w, next := flushAfter level m, out := [.summary (summaryRecord w level loggerName repeats m) repeats] }
  | .flush m => { writer := w, next := if w.initialized then [.pending m] else [] }
  | .pending m =>
    let d := w.dup
    if 0 < d.repeats then
      { writer := { w with dup := { d with repeats := 0, haveLast := false } }, next := d.takePending m }
    else { writer := w }
  | .store enable windowMs =>
    let d := { w.dup with enabled := enable, windowMs := if windowMs ≠ 0 then windowMs else 1000 }
    { writer := { w with dup := if enable then d else { d with haveLast := false, repeats := 0 } } }

/-! ## Steps -/

inductive DupMove where
  | call (thread : Nat) (c : DupCall)
  | go (thread : Nat)

namespace DupThreads

/-- `n` threads outside the library. The calls suppressed so far are those still pending. -/
def start (w : Writer) (n : Nat) : DupThreads := ⟨w, .replicate n [], w.dup.repeats, []⟩

def step (s : DupThreads) : DupMove → Option DupThreads
  | .call i c =>
    match s.threads[i]? with
    | some [] => some { s with threads := s.threads.set i (c.tasks s.writer) }
    | _ => none
  | .go i =>
    match s.threads[i]? with
    | some (t :: rest) =>
      let p := t.perform s.writer
      some ⟨p.writer, s.threads.set i (p.next ++ rest), s.suppressed + p.suppressed, s.out ++ p.out⟩
    | _ => none

/-- The thread that moves is about to turn the suppression off. -/
def turnsOff (s : DupThreads) : DupMove → Bool
  | .call _ _ => false
  | .go i =>
    match s.threads[i]? with
    | some (.store enable _ :: _) => !enable
    | _ => false

end DupThreads

/-! ## Accounts -/

def DupTask.repeats : DupTask → Nat
  | .summary _ _ repeats _ => repeats
  | _ => 0

def Dispatched.repeats : Dispatched → Nat
  | .line _ => 0
  | .summary _ repeats => repeats

def sumRepeats (ts : List DupTask) : Nat := (ts.map DupTask.repeats).sum

namespace DupThreads

/-- The repeats of the summaries that are dispatched. -/
def told (s : DupThreads) : Nat := (s.out.map Dispatched.repeats).sum

/-- The repeats of the summaries that are about to be dispatched. -/
def inHand (s : DupThreads) : Nat := (s.threads.map sumRepeats).sum

def Accounted (s : DupThreads) : Prop := s.suppressed = s.told + s.inHand + s.writer.dup.repeats

/-- In this run nothing is pending when a call turns the suppression off. -/
def NonePendingAtStop (s : DupThreads) (moves : List DupMove) : Prop :=
  ∀ pre a post t, moves = pre ++ a :: post → Transition.run step s pre = some t → t.turnsOff a = true →
    t.writer.dup.repeats = 0

end DupThreads

end HxClog
