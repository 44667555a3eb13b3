import HxClog.Dispatch
import HxClog.Lib.Stamped
import HxClog.Lib.Transition

/-!
# The format settings and their copies

Five calls write the settings that a record is rendered with, and every thread that
logs keeps a copy of them, stamped with `format_gen`. A step is one section under
`sink_lock` or one write without it. `changes` counts the changes of `format_gen`.
-/

namespace HxClog

open C Stamped

/-! ## Settings -/

/-- The formatter and its user data are pointers. A mode that is neither is `none`. -/
structure FormatSettings where
  pattern : CStr
  loggerName : CStr
  mode : Option FormatMode
  formatter : Nat
  userData : Nat

inductive SettingWrite where
  | pattern (p : CStr)
  | loggerName (n : CStr)
  | mode (m : Option FormatMode)
  | formatter (f : Nat)
  | userData (u : Nat)

def FormatSettings.put (s : FormatSettings) : SettingWrite → FormatSettings
  | .pattern p => { s with pattern := p.cut 512 }
  | .loggerName n => { s with loggerName := n.cut 128 }
  | .mode m => { s with mode := m }
  | .formatter f => { s with formatter := f }
  | .userData u => { s with userData := u }

/-- The settings of a configuration, with its NULL fields filled. -/
structure FormatConfig where
  pattern : CStr
  loggerName : CStr
  mode : Option FormatMode
  formatter : Nat
  userData : Nat

/-- What `hx_clog_init_locked` does to them, without `sink_lock`. -/
inductive InitStep where
  | put (w : SettingWrite)
  | loadGen
  | storeGen

def FormatConfig.initSteps (cfg : FormatConfig) : List InitStep :=
  [.put (.pattern cfg.pattern), .put (.mode cfg.mode), .put (.formatter cfg.formatter), .put (.userData cfg.userData),
    .loadGen, .storeGen, .put (.loggerName cfg.loggerName)]

/-- What `hx_clog_reconfigure_locked` writes under `sink_lock`. Another mode was made a pattern before. -/
def FormatConfig.swapped (cfg : FormatConfig) (s : FormatSettings) : FormatSettings :=
  ((((s.put (.pattern cfg.pattern)).put (.mode (some (cfg.mode.getD .pattern)))).put (.formatter cfg.formatter)).put
    (.userData cfg.userData)).put (.loggerName cfg.loggerName)

/-! ## Threads -/

/-- Who has `init_lock`, and what an init still has to write. -/
inductive InitHolder where
  | free
  | init (rest : List InitStep) (loaded : Nat)
  | reconfigure
  | shutdown

/-- Where a thread is: a log call has passed the `initialized` check, or it has seen
another generation and waits for `sink_lock`. -/
inductive LogPc where
  | idle
  | logging
  | filling

structure FormatThreads where
  settings : FormatSettings
  gen : Nat
  initialized : Bool
  holder : InitHolder
  caches : Nat → Copy FormatSettings
  pcs : Nat → LogPc
  changes : Nat

inductive FormatMove where
  | setPattern (p : CStr)
  | setFormatMode (m : FormatMode)
  | setFormatter (f u : Nat)
  | initBegin (cfg : FormatConfig)
  | initStep
  | initEnd (ok : Bool)
  | reconfigureBegin
  | reconfigureSwap (cfg : FormatConfig)
  | reconfigureEnd
  | shutdownBegin
  | shutdownMark
  | shutdownEnd
  | check (i : Nat)
  | refresh (i : Nat)
  | fill (i : Nat)
  | finish (i : Nat)

def InitStep.apply (s : FormatSettings) : InitStep → FormatSettings
  | .put w => s.put w
  | _ => s

def InitStep.isStore : InitStep → Bool
  | .storeGen => true
  | _ => false

/-- What an init in progress still has to write. -/
def InitHolder.pending : InitHolder → List InitStep
  | .init rest _ => rest
  | _ => []

namespace FormatThreads

def emptySettings : FormatSettings := ⟨.empty, .empty, some .pattern, 0, 0⟩

/-- After `core_once_init`. No copy was ever filled. -/
def start : FormatThreads where
  settings := { emptySettings with loggerName := ⟨lit "hx_clog", by decide⟩ }
  gen := 1
  initialized := false
  holder := .free
  caches := fun _ => ⟨0, emptySettings⟩
  pcs := fun _ => .idle
  changes := 0

def nextGen (g : Nat) : Nat := (g + 1) % 2 ^ 32

/-- `bump_format_gen_locked` -/
def bumpFormatGenLocked (s : FormatThreads) : FormatThreads :=
  { s with gen := if nextGen s.gen = 0 then 1 else nextGen s.gen, changes := s.changes + 1 }

def change (s : FormatThreads) (settings : FormatSettings) : FormatThreads := { s with settings := settings }.bumpFormatGenLocked

def initMove (s : FormatThreads) (rest : List InitStep) (loaded : Nat) : InitStep → FormatThreads
  | .put w => { s with settings := s.settings.put w, holder := .init rest loaded }
  | .loadGen => { s with holder := .init rest s.gen }
  | .storeGen => { s with gen := nextGen loaded, holder := .init rest loaded, changes := s.changes + 1 }

def goto (s : FormatThreads) (i : Nat) (pc : LogPc) : FormatThreads := { s with pcs := Function.update s.pcs i pc }

/-- The section of `fmt_cache_refresh`. -/
def fillCache (s : FormatThreads) (i : Nat) : FormatThreads :=
  { s with caches := Function.update s.caches i ⟨s.gen, s.settings⟩ }

def step (s : FormatThreads) : FormatMove → Option FormatThreads
  | .setPattern p => some (s.change ((s.settings.put (.pattern p)).put (.mode (some .pattern))))
  | .setFormatMode m => some (s.change (s.settings.put (.mode (some m))))
  | .setFormatter f u => some (s.change ((s.settings.put (.formatter f)).put (.userData u)))
  | .initBegin cfg =>
    match s.holder with
    | .free => some (if s.initialized then s else { s with holder := .init cfg.initSteps 0 })
    | _ => none
  | .initStep =>
    match s.holder with
    | .init (w :: rest) loaded => some (s.initMove rest loaded w)
    | _ => none
  | .initEnd ok =>
    match s.holder with
    | .init [] _ => some { s with initialized := ok, holder := .free }
    | _ => none
  | .reconfigureBegin =>
    match s.holder with
    | .free => some (if s.initialized then { s with holder := .reconfigure } else s)
    | _ => none
  | .reconfigureSwap cfg =>
    match s.holder with
    | .reconfigure => some (s.change (cfg.swapped s.settings))
    | _ => none
  | .reconfigureEnd =>
    match s.holder with
    | .reconfigure => some { s with holder := .free }
    | _ => none
  | .shutdownBegin =>
    match s.holder with
    | .free => some (if s.initialized then { s with holder := .shutdown } else s)
    | _ => none
  | .shutdownMark =>
    match s.holder with
    | .shutdown => some { s with initialized := false }
    | _ => none
  | .shutdownEnd =>
    match s.holder with
    | .shutdown => some { s with holder := .free }
    | _ => none
  | .check i =>
    match s.pcs i with
    | .idle => some (if s.initialized then s.goto i .logging else s)
    | _ => none
  -- a log call refreshes before each use of the copy
  | .refresh i =>
    match s.pcs i with
    | .logging => some (if s.gen = (s.caches i).stamp then s else s.goto i .filling)
    | _ => none
  | .fill i =>
    match s.pcs i with
    | .filling => some ((s.fillCache i).goto i .logging)
    | _ => none
  | .finish i =>
    match s.pcs i with
    | .logging => some (s.goto i .idle)
    | _ => none

/-! ## What is asked of every state -/

/-- Outside of init and reconfigure, a copy of the current generation is of the current settings. -/
def Fresh (s : FormatThreads) : Prop :=
  (∀ rest loaded, s.holder ≠ .init rest loaded) → s.holder ≠ .reconfigure → Current s.gen s.settings s.caches

/-! ## The condition -/

/-- The settings once the init in progress has written all of them. -/
def target (s : FormatThreads) : FormatSettings := s.holder.pending.foldl InitStep.apply s.settings

/-- No copy is taken after an init has stored the new generation and before it has
written the last setting, unless that one stays as it is; and the generation stored
is the next one, no setter came in between. -/
def Keeps (s : FormatThreads) : FormatMove → Prop
  | .fill _ => (∀ w ∈ s.holder.pending, ¬w.isStore) → s.target = s.settings
  | .initStep => ∀ rest loaded, s.holder = .init (.storeGen :: rest) loaded → loaded = s.gen
  | _ => True

def AllKeep (s : FormatThreads) : List FormatMove → Prop
  | [] => True
  | a :: as => s.Keeps a ∧ ∀ t, s.step a = some t → t.AllKeep as

end FormatThreads

end HxClog
