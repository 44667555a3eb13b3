import HxClog.Sinks
import HxClog.Lib.Dotted

/-!
# The logger registry

The list of named loggers behind `g_core.logger_head`, with the calls that look them
up and set their levels. A call that may create a logger brings the address that
`malloc` returns. `LevelMap` says what the registry is for: it maps names to levels.
-/

namespace HxClog

open C

def loggerNameMax : Nat := 128

/-- An entry of the list. `obj` is its address. -/
structure Logger where
  obj : Nat
  name : CStr
  level : Level
  fits : name.bytes.length < loggerNameMax

structure Registry where
  level : Level
  defaultLevel : Level
  loggerHead : List Logger
  loggerCount : Nat

inductive Handle where
  | default
  | logger (obj : Nat)
  deriving DecidableEq

def levelValid (l : Level) : Prop := levelTrace ≤ l ∧ l ≤ levelOff

instance (l : Level) : Decidable (levelValid l) := inferInstanceAs (Decidable (_ ∧ _))

/-- The name a null pointer or an empty name stands for. -/
def givenName (name : Option CStr) : CStr :=
  match name with
  | some n => if n.bytes = [] then defaultLoggerName else n
  | none => defaultLoggerName

/-- `strncpy(lg->name, name, sizeof(lg->name) - 1)` -/
def storedName (name : CStr) : CStr := CStr.cut loggerNameMax name

theorem storedName_fits (name : CStr) : (storedName name).bytes.length < loggerNameMax := by
  show (cut loggerNameMax name.bytes).length < loggerNameMax
  rw [cut_length]
  unfold loggerNameMax
  omega

namespace Registry

/-! ## The calls -/

def loggerFindLocked (g : Registry) (name : Bytes) : Option Logger := g.loggerHead.find? fun p => p.name.bytes = name

def levelOf (g : Registry) (name : Bytes) : Option Level := (g.loggerFindLocked name).map (·.level)

def loggerInheritedLevelLocked (g : Registry) (name : CStr) : Level :=
  let buf := cut loggerNameMax name.bytes
  (Dotted.climb (chr '.') g.levelOf buf.length buf).getD g.level

def hxClogLoggerGet (g : Registry) (name : Option CStr) (mem : Option Nat) : Registry × Option Nat :=
  let name := givenName name
  match g.loggerFindLocked name.bytes with
  | some lg => (g, some lg.obj)
  | none =>
    match mem with
    | none => (g, none)
    | some obj =>
      let lg := Logger.mk obj (storedName name) (g.loggerInheritedLevelLocked name) (storedName_fits name)
      ({ g with loggerHead := lg :: g.loggerHead, loggerCount := g.loggerCount + 1 }, some obj)

def hxClogLoggerFind (g : Registry) (name : Option CStr) : Option Nat :=
  name.bind fun n => (g.loggerFindLocked n.bytes).map (·.obj)

def hxClogLoggerCount (g : Registry) : Nat := g.loggerCount

/-- The loggers a prefix reaches: `strncmp(p->name, prefix, plen) == 0` and then NUL or a dot. -/
def prefixReaches (pre : Bytes) (p : Logger) : Bool :=
  pre.length = 0 ||
    strncmpEq pre.length p.name.bytes pre &&
      (p.name.bytes.getD pre.length 0 = 0 || p.name.bytes.getD pre.length 0 = chr '.')

def storeLevels (g : Registry) (hit : Logger → Bool) (level : Level) : Registry :=
  { g with loggerHead := g.loggerHead.map fun p => if hit p then { p with level := level } else p }

def hxClogSetLevelForPrefix (g : Registry) (pre : Option CStr) (level : Level) (mem : Option Nat) : Registry × Rc :=
  match pre with
  | none => (g, .invalidArgument)
  | some pre =>
    if ¬levelValid level then (g, .invalidArgument) else
    let g := if pre.bytes = [] then g else (g.hxClogLoggerGet (some pre) mem).1
    (g.storeLevels (prefixReaches pre.bytes) level, .ok)

def hxClogLoggerDropAll (g : Registry) : Registry := { g with loggerHead := [], loggerCount := 0 }

/-- A handle that the registry does not hold is that of `hx_clog_logger_create`. -/
def hxClogLoggerSetLevel (g : Registry) (logger : Option Handle) (level : Level) : Registry × Rc :=
  match logger with
  | none => (g, .invalidArgument)
  | some handle =>
    if ¬levelValid level then (g, .invalidArgument) else
    match handle with
    | .default => ({ g with defaultLevel := level, level := level }, .ok)
    | .logger obj => (g.storeLevels (fun p => p.obj = obj) level, .ok)

def hxClogSetLevel (g : Registry) (level : Level) : Registry := { g with level := level, defaultLevel := level }

end Registry

inductive LoggerCall where
  | get (name : Option CStr) (mem : Option Nat)
  | find (name : Option CStr)
  | count
  | setLevelForPrefix (pre : Option CStr) (level : Level) (mem : Option Nat)
  | loggerSetLevel (logger : Option Handle) (level : Level)
  | setLevel (level : Level)
  | dropAll

inductive Answer where
  | object (obj : Option Nat)
  | number (n : Nat)
  | code (rc : Rc)
  | nothing
  deriving DecidableEq

open Registry in
def LoggerCall.run (g : Registry) : LoggerCall → Registry × Answer
  | .get name mem => let r := g.hxClogLoggerGet name mem; (r.1, .object r.2)
  | .find name => (g, .object (g.hxClogLoggerFind name))
  | .count => (g, .number g.hxClogLoggerCount)
  | .setLevelForPrefix pre level mem => let r := g.hxClogSetLevelForPrefix pre level mem; (r.1, .code r.2)
  | .loggerSetLevel logger level => let r := g.hxClogLoggerSetLevel logger level; (r.1, .code r.2)
  | .setLevel level => (g.hxClogSetLevel level, .nothing)
  | .dropAll => (g.hxClogLoggerDropAll, .nothing)

def runLoggers (g : Registry) (calls : List LoggerCall) : Registry := calls.foldl (fun g c => (c.run g).1) g

def loggersAtStart (level : Level) : Registry := ⟨level, level, [], 0⟩

/-! ## What the registry is for -/

structure LevelEntry where
  obj : Nat
  level : Level

structure LevelMap where
  level : Level
  entries : Finmap fun _ : Bytes => LevelEntry

namespace LevelMap

def levelOf (m : LevelMap) (n : Bytes) : Option Level := (m.entries.lookup n).map (·.level)

/-- The level of the nearest registered ancestor, or the global one. -/
inductive Inherits (m : LevelMap) (n : Bytes) : Level → Prop where
  | ancestor {p : Bytes} {l : Level} (h : Dotted.Nearest (chr '.') m.levelOf n p l) : Inherits m n l
  | global (h : ∀ p, Dotted.Above (chr '.') p n → m.levelOf p = none) : Inherits m n m.level

/-- Looking a name up registers it. -/
inductive Gets (m : LevelMap) (n : Bytes) : LevelMap → Nat → Prop where
  | known {e : LevelEntry} (h : m.entries.lookup n = some e) : Gets m n m e.obj
  | new {obj : Nat} {l : Level} (h : m.entries.lookup n = none) (hobj : ∀ q e, m.entries.lookup q = some e → e.obj ≠ obj)
      (hl : m.Inherits n l) : Gets m n { m with entries := m.entries.insert n ⟨obj, l⟩ } obj

/-- Exactly the entries that satisfy `hit` get the level. -/
def Sets (m : LevelMap) (hit : Bytes → LevelEntry → Prop) (l : Level) (m' : LevelMap) : Prop :=
  m'.level = m.level ∧ ∀ q e', m'.entries.lookup q = some e' ↔
    ∃ e, m.entries.lookup q = some e ∧ (hit q e ∧ e' = { e with level := l } ∨ ¬hit q e ∧ e' = e)

/-- What a call does to the map, and what it returns. -/
inductive Does (m : LevelMap) : LoggerCall → LevelMap → Answer → Prop where
  | get {name : Option CStr} {mem : Option Nat} {m' : LevelMap} {obj : Nat}
      (h : m.Gets (givenName name).bytes m' obj) : Does m (.get name mem) m' (.object (some obj))
  | findNull : Does m (.find none) m (.object none)
  | find (n : CStr) : Does m (.find (some n)) m (.object ((m.entries.lookup n.bytes).map (·.obj)))
  | count : Does m .count m (.number m.entries.keys.card)
  | prefixBad {pre : Option CStr} {l : Level} {mem : Option Nat} (h : pre = none ∨ ¬levelValid l) :
      Does m (.setLevelForPrefix pre l mem) m (.code .invalidArgument)
  | all {pre : CStr} {l : Level} {mem : Option Nat} {m' : LevelMap} (hl : levelValid l) (hp : pre.bytes = [])
      (h : m.Sets (fun _ _ => True) l m') : Does m (.setLevelForPrefix (some pre) l mem) m' (.code .ok)
  | within {pre : CStr} {l : Level} {mem : Option Nat} {m₁ m' : LevelMap} {obj : Nat} (hl : levelValid l)
      (hp : pre.bytes ≠ []) (hg : m.Gets pre.bytes m₁ obj)
      (h : m₁.Sets (fun q _ => Dotted.Within (chr '.') pre.bytes q) l m') :
      Does m (.setLevelForPrefix (some pre) l mem) m' (.code .ok)
  | handleBad {handle : Option Handle} {l : Level} (h : handle = none ∨ ¬levelValid l) :
      Does m (.loggerSetLevel handle l) m (.code .invalidArgument)
  | setDefault {l : Level} (hl : levelValid l) :
      Does m (.loggerSetLevel (some .default) l) { m with level := l } (.code .ok)
  | setHandle {obj : Nat} {l : Level} {m' : LevelMap} (hl : levelValid l) (h : m.Sets (fun _ e => e.obj = obj) l m') :
      Does m (.loggerSetLevel (some (.logger obj)) l) m' (.code .ok)
  | setLevel (l : Level) : Does m (.setLevel l) { m with level := l } .nothing
  | dropAll : Does m .dropAll { m with entries := ∅ } .nothing

end LevelMap

end HxClog
