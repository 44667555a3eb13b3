import HxClog.DupSound
import HxClog.Sinks

/-!
# Folding and sessions

`g_dup` lives as long as the process, the sinks only from `hx_clog_init` to
`hx_clog_shutdown`. A story is what can be told of a run from outside, with the
newest first: where sessions begin and end, which calls were written or folded,
and which counts were reported.
-/

namespace HxClog

open C

/-! ## The library -/

structure Library where
  core : Core
  lineCap : Option UInt32
  dup : DupState

/-- `g_dup` as `core_once_init` leaves it. -/
def zeroDup : DupState where
  enabled := false
  windowMs := 0
  haveLast := false
  lastLevel := 0
  lastLine := 0
  lastLogger := ⟨[], Nat.succ_pos _⟩
  lastFile := ⟨[], Nat.succ_pos _⟩
  lastMsg := List.replicate 256 0
  lastMsgLen := 0
  repeats := 0
  lastMs := 0

inductive SessionCall where
  | init (cfg : Option Config) (o : Outside)
  | log (c : WriteCall)
  | flush (m : Moment)
  | shutdown (m : Moment) (o : Outside)
  | setDuplicateSuppression (enable : Bool) (windowMs : UInt32) (m : Moment)

theorem name_fits (s : CStr) : (s.cut 128).bytes.length < 128 := by
  show (C.cut 128 s.bytes).length < 128
  rw [cut_length]
  omega

namespace Library

def start (lineCap : Option UInt32) : Library := ⟨coreOnceInit, lineCap, zeroDup⟩

/-- What writing sees. The name is in a `char[128]`. -/
def writer (l : Library) : Writer :=
  ⟨l.core.initialized, l.core.level, l.lineCap, l.core.loggerName.cut 128, name_fits l.core.loggerName, l.dup⟩

/-- `dup_flush_pending`, outside of any other call. -/
def flushPending (l : Library) (m : Moment) : Library × List Record :=
  let (w, out) := dupFlushPending (hxClogFlush m flushDepth) m l.writer
  ({ l with dup := w.dup }, out)

def setWindow (d : DupState) (enable : Bool) (windowMs : UInt32) : DupState :=
  let d := { d with enabled := enable, windowMs := if windowMs ≠ 0 then windowMs else 1000 }
  if enable then d else { d with haveLast := false, repeats := 0 }

def hxClogSetDuplicateSuppression (l : Library) (enable : Bool) (windowMs : UInt32) (m : Moment) :
    Library × List Record :=
  let (l, out) := if enable then (l, []) else l.flushPending m
  ({ l with dup := setWindow l.dup enable windowMs }, out)

/-- The records dispatched come with the call; what the sinks do with them is left out. -/
def step (l : Library) : SessionCall → Library × List Record
  | .init cfg o => ({ l with core := (l.core.hxClogInitLocked cfg o).1 }, [])
  | .log c =>
    let (w, out) := coreWritev l.writer c
    ({ l with dup := w.dup }, out)
  | .flush m =>
    let (w, out) := hxClogFlush m flushDepth l.writer
    ({ l with dup := w.dup }, out)
  | .shutdown m o =>
    if ¬l.core.initialized then (l, [])
    else
      let (l, out) := l.flushPending m
      ({ l with core := l.core.hxClogShutdown o }, out)
  | .setDuplicateSuppression enable windowMs m => l.hxClogSetDuplicateSuppression enable windowMs m

end Library

/-! ## Stories -/

inductive Happening where
  | began
  | ended
  /-- an accepted call that is dispatched -/
  | wrote (key : DupKey) (rec : Record)
  /-- an accepted call that is suppressed -/
  | folded (key : DupKey)
  /-- a `last message repeated` record -/
  | counted (repeats : Nat) (rec : Record)

def Happening.record : Happening → Option Record
  | .wrote _ rec => some rec
  | .counted _ rec => some rec
  | _ => none

def Happening.isBegan : Happening → Bool
  | .began => true
  | _ => false

def Happening.isAccepted : Happening → Bool
  | .wrote _ _ => true
  | .folded _ => true
  | _ => false

namespace Library

/-- The count of a run that is pending, while there are sinks. -/
def pendingCount (l : Library) (m : Moment) : List Happening :=
  if l.core.initialized ∧ 0 < l.dup.repeats then
    [.counted l.dup.repeats (summaryRecord l.writer l.dup.lastLevel l.dup.lastLogger.bytes l.dup.repeats m)]
  else []

/-- What happens in a call, in order. -/
def happenings (l : Library) : SessionCall → List Happening
  | .init cfg o => if (l.core.hxClogInitLocked cfg o).2 = .ok then [.began] else []
  | .log c =>
    match l.writer.accepted c with
    | none => []
    | some text =>
      if ¬l.core.initialized then []
      else if l.dup.enabled then
        if l.dup.folds (l.writer.key c text) c.checkedAt.ms then [.folded (l.writer.key c text)]
        else l.pendingCount c.summaryAt ++ [.wrote (l.writer.key c text) (l.writer.record c text)]
      else [.wrote (l.writer.key c text) (l.writer.record c text)]
  | .flush m => l.pendingCount m
  | .shutdown m _ => if l.core.initialized then l.pendingCount m ++ [.ended] else []
  | .setDuplicateSuppression enable _ m => if enable then [] else l.pendingCount m

/-- A run, and the story so far. -/
def tell (l : Library) (past : List Happening) : List SessionCall → Library × List Happening
  | [] => (l, past)
  | c :: cs => (l.step c).1.tell ((l.happenings c).reverse ++ past) cs

end Library

def thisSession (past : List Happening) : List Happening := past.takeWhile fun e => !e.isBegan

/-- No call has been accepted since the session began. -/
def Silent (past : List Happening) : Prop := ∀ e ∈ thisSession past, ¬e.isAccepted

/-- The run that is open in a session: its first message, and the calls that repeat it. -/
def OpenRun (recent : List Happening) (k₀ : DupKey) (repeats : Nat) : Prop :=
  ∃ (ks : List DupKey) (rec : Record) (rest : List Happening),
    recent = ks.map .folded ++ .wrote k₀ rec :: rest ∧ ks.length = repeats ∧ ∀ k ∈ ks, k₀.Agree k

/-- The first accepted call of a session is not suppressed, and a count is that of
the run right before it, whose first message was written in this session. -/
def NeverCrosses : List Happening → Prop
  | [] => True
  | .folded _ :: past => ¬Silent past ∧ NeverCrosses past
  | .counted repeats _ :: past => (∃ k₀, OpenRun (thisSession past) k₀ repeats) ∧ NeverCrosses past
  | _ :: past => NeverCrosses past

/-- Before the first accepted call of a session, `g_dup` holds nothing of an earlier
one that the call repeats within the window. -/
def Library.NothingLeft (l : Library) (past : List Happening) : SessionCall → Prop
  | .log c => ∀ text, l.core.initialized = true → l.writer.accepted c = some text → l.dup.enabled = true →
      Silent past → ¬l.dup.folds (l.writer.key c text) c.checkedAt.ms
  | _ => True

def Library.NothingEverLeft (l : Library) (past : List Happening) : List SessionCall → Prop
  | [] => True
  | c :: cs => l.NothingLeft past c ∧ (l.step c).1.NothingEverLeft ((l.happenings c).reverse ++ past) cs

end HxClog
