import HxClog.Engine
import HxClog.Lib.Fifo

/-!
# Fork

A process with a file sink and the child it forks, seen from the lines. A line is in the
queue, in the worker's hand, in the buffer of the C library or in the file. The buffer is
copied by `fork` like all memory; what is written through at a `fwrite` is the library's
choice. A call of `hx_clog_write` is one step, at the moment in which it reaches the queue
or the sink, and so is the worker's way from one lock to the next.

The number of a line and the list of dropped ones are history.
-/

namespace HxClog

open C

structure Numbered where
  serial : Nat
  bytes : Bytes
  deriving DecidableEq

/-- A byte of the log file with the number of its line. -/
abbrev Mark := Nat × UInt8

def Numbered.marks (l : Numbered) : List Mark := l.bytes.map (l.serial, ·)

/-- Where `hx_clog_shutdown` stands. -/
inductive Stage where
  | up
  | stopping
  | closed
  deriving DecidableEq

structure Proc (cap : Nat) where
  mode : Mode
  overflow : OverflowPolicy
  running : Bool
  stage : Stage
  queue : Fifo.Queue Numbered cap
  hand : Option Numbered
  buffer : List Mark
  dropped : List Nat

/-- `through` is how much the C library hands on to the file at once. -/
inductive ProcAct where
  | log (bytes : Bytes) (alloc : Bool) (through : Nat)
  | pop
  -- the worker has no memory for the line
  | skip
  | emit (through : Nat)
  -- hx_core_flush_sinks, at the worker's tick or by hx_clog_flush
  | flush
  -- hx_clog_shutdown up to the join, and what it does with the sinks
  | stop
  | close

def ProcAct.logged : ProcAct → List Bytes
  | .log bytes _ _ => [bytes]
  | _ => []

section
variable {cap : Nat}

/-! ## One process -/

def Proc.fwrite (p : Proc cap) (through : Nat) (data : List Mark) : Proc cap × List Mark :=
  ({ p with buffer := (p.buffer ++ data).drop through }, (p.buffer ++ data).take through)

def Proc.fflush (p : Proc cap) : Proc cap × List Mark := ({ p with buffer := [] }, p.buffer)

def Proc.store (p : Proc cap) (l : Numbered) (alloc : Bool) : Option (Proc cap) :=
  if alloc then (Fifo.step p.queue (.push l)).map fun queue => { p with queue }
  else some { p with dropped := p.dropped ++ [l.serial] }

/-- The oldest line leaves the queue and is lost. -/
def Proc.lose (p : Proc cap) (f : Fifo.Fate) : Option (Proc cap) :=
  match p.queue.items with
  | [] => none
  | l :: _ => (Fifo.step p.queue (.leave l f)).map fun queue => { p with queue, dropped := p.dropped ++ [l.serial] }

/-- `hx_async_enqueue` of a running engine. -/
def Proc.enqueue (p : Proc cap) (l : Numbered) (alloc : Bool) : Option (Proc cap) :=
  if p.queue.full then
    match p.overflow with
    | .block => none
    | .dropNew => some { p with dropped := p.dropped ++ [l.serial] }
    | .dropOld => (p.lose .evicted).bind fun p => p.store l alloc
  else p.store l alloc

/-- The process behind a step, and what it appends to the file. -/
def Proc.step (p : Proc cap) (serial : Nat) : ProcAct → Option (Proc cap × List Mark)
  | .log bytes alloc through =>
    if p.stage = .closed then none
    else if p.mode = .async ∧ p.running = true ∧ p.stage = .up then (p.enqueue ⟨serial, bytes⟩ alloc).map (·, [])
    else some (p.fwrite through (Numbered.marks ⟨serial, bytes⟩))
  | .pop =>
    match p.hand, p.queue.items with
    | none, l :: _ => (Fifo.step p.queue (.leave l .taken)).map fun queue => ({ p with queue, hand := some l }, [])
    | _, _ => none
  | .skip =>
    match p.hand with
    | none => (p.lose .discarded).map (·, [])
    | some _ => none
  | .emit through => p.hand.map fun l => ({ p with hand := none } : Proc cap).fwrite through l.marks
  | .flush => if p.stage = .closed then none else some p.fflush
  | .stop => if p.stage = .up then some ({ p with stage := .stopping }, []) else none
  | .close =>
    if p.stage = .stopping ∧ p.queue.items = [] ∧ p.hand = none then
      some ({ p with stage := .closed, running := false } : Proc cap).fflush
    else none

/-- The child behind `fork` and `hx_clog_after_fork_child`. Only the forking thread is left,
so that nobody holds the line that was in the worker's hand. `hx_sink_file_after_fork` renews
the lock of the sink and nothing else. -/
def Proc.afterForkChild (p : Proc cap) (created : Bool) : Proc cap :=
  match p.mode with
  | .sync => { p with hand := none, dropped := [] }
  | .async => { p with hand := none, dropped := [], queue := .empty cap, running := p.running && created }

/-! ## Both processes -/

structure Forking (cap : Nat) where
  file : List Mark
  parent : Proc cap
  child : Option (Proc cap)
  lines : List Bytes

inductive ForkAct where
  | parent (a : ProcAct)
  | child (a : ProcAct)
  | fork (created : Bool)

def Forking.step (s : Forking cap) : ForkAct → Option (Forking cap)
  | .parent a => (s.parent.step s.lines.length a).map fun r =>
    { s with parent := r.1, file := s.file ++ r.2, lines := s.lines ++ a.logged }
  | .child a => s.child.bind fun c => (c.step s.lines.length a).map fun r =>
    { s with child := some r.1, file := s.file ++ r.2, lines := s.lines ++ a.logged }
  | .fork created =>
    match s.child with
    | none => some { s with child := some (s.parent.afterForkChild created) }
    | some _ => none

/-- The library is initialized. The file is what is written from now on. -/
def Forking.start (cap : Nat) (mode : Mode) (overflow : OverflowPolicy) : Forking cap where
  file := []
  parent := ⟨mode, overflow, mode == .async, .up, .empty cap, none, [], []⟩
  child := none
  lines := []

/-- Line `n` stands in the file once, unless the parent's queue dropped it. -/
def Forking.Once (s : Forking cap) (n : Nat) : Prop :=
  s.file.filter (·.1 = n) = if n ∈ s.parent.dropped then [] else Numbered.marks ⟨n, s.lines[n]?.getD []⟩

instance (s : Forking cap) (n : Nat) : Decidable (s.Once n) := inferInstanceAs (Decidable (_ = _))

/-- Both processes have shut down. -/
def Forking.Down (s : Forking cap) : Prop :=
  s.parent.stage = .closed ∧ ∃ c, s.child = some c ∧ c.stage = .closed

end

end HxClog
