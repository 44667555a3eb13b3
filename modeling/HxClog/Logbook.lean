import HxClog.SizeTruth

/-!
# What becomes of the lines

A file sink without daily folders, with the history of its files: what the active file
held when the sink opened it first, which lines it has got since, and with which lines
each archive was made.
-/

namespace HxClog

open C Posix

/-! ## The history -/

/-- A line, and the last reading of the clock in its `file_write`. -/
structure Entry where
  line : Bytes
  second : Int
  deriving DecidableEq

/-- An archive: its path, the content that the rename moved there, what of it the sink had found
in the active file, and the lines it wrote to it. -/
structure Archived where
  target : Bytes
  content : Bytes
  found : Bytes
  lines : List Entry

structure Logbook where
  sink : FileSink × World
  archives : List Archived
  found : Bytes
  lines : List Entry
  since : Int

def textOf (entries : List Entry) : Bytes := entries.flatMap Entry.line

theorem textOf_append (es fs : List Entry) : textOf (es ++ fs) = textOf es ++ textOf fs := List.flatMap_append

theorem textOf_singleton (e : Entry) : textOf [e] = e.line := List.flatMap_singleton _ _

namespace FileCall

variable (localtime : Int → Tm)

/-- The target that the call hands to `hx_rename`, if it comes to that. -/
def target (s : FileSink × World) : FileCall → Option Bytes
  | .write env data => (Rotation.maybe data.length.toUInt32).target localtime env.rotating s.1
  | .reopen _ => none
  | .force env time => (Rotation.force time).target localtime env s.1

/-- The second in which a rotation opens the next file. -/
def opens : FileCall → Int
  | .write env _ => env.rotating.opening.now
  | .reopen o => o.now
  | .force env _ => env.opening.now

/-- What the call writes. The clock is read again when it rotates. -/
def entries (rotates : Bool) : FileCall → List Entry
  | .write env data => [⟨data, if rotates then env.rotating.opening.now else env.rotating.now⟩]
  | _ => []

/-- The target of a rename is another file, and the cleanup behind it leaves the active file alone. -/
def Apart (s : FileSink × World) (c : FileCall) : Prop :=
  ∀ target ∈ c.target localtime s, resolve target ≠ resolve s.1.activePath.bytes ∧
    match c with
    | .write env _ => CleanupSpares localtime env.rotating s.1
    | .reopen _ => True
    | .force env _ => CleanupSpares localtime env s.1

end FileCall

namespace Logbook

/-- A sink that has just opened its file. -/
def opened (now : Int) (found : Bytes) (s : FileSink × World) : Logbook := ⟨s, [], found, [], now⟩

/-- The file is renamed. A rename onto itself moves nothing. -/
def moved (b : Logbook) (target : Option Bytes) (now : Int) : Logbook :=
  match target with
  | none => b
  | some target =>
    if resolve target = resolve b.sink.1.activePath.bytes then b
    else
      { b with
        archives := b.archives ++ [⟨target, contentAt b.sink.2.disk b.sink.1.activePath.bytes, b.found, b.lines⟩]
        found := []
        lines := []
        since := now }

/-- A call that succeeds. -/
def step (localtime : Int → Tm) (b : Logbook) (c : FileCall) : Option Logbook :=
  (fileStep localtime b.sink c).map fun s =>
    let target := c.target localtime b.sink
    let b := b.moved target c.opens
    { b with sink := s, lines := b.lines ++ c.entries target.isSome }

def write (localtime : Int → Tm) (b : Logbook) (c : Writing × Bytes) : Option Logbook :=
  b.step localtime (.write c.1 c.2)

end Logbook

/-! ## The sink -/

variable {localtime : Int → Tm}

/-- What a configuration decides for good. -/
def FileSink.settings (fs : FileSink) : FileConfig × Bytes × Bytes :=
  (⟨fs.policy, fs.maxFileSize, fs.maxBackupFiles, fs.maxBackupDays, fs.rotateDaily, fs.rotateIntervalSeconds,
    fs.rotateAlign, fs.rotateOnStartup, fs.maxCompressedFiles, fs.dateSubdir⟩, fs.dir.bytes, fs.baseName.bytes)

/-- The sink stands where it opened its file, and no rotation has failed. -/
structure Home (localtime : Int → Tm) (fs : FileSink) : Prop where
  flat : fs.dateSubdir = false
  dir : fs.activeDir = fs.dir
  path : fs.activePath = joinPath pathMax fs.dir.bytes fs.baseName.bytes
  fp : fs.fp = resolve fs.activePath.bytes
  year : fs.curYear = (localtime fs.openedSec).year
  yday : fs.curYday = (localtime fs.openedSec).yday
  failSec : fs.rotateFailSec = 0

theorem dirAt_flat {fs : FileSink} (h : fs.dateSubdir = false) (now : Int) : fs.dirAt localtime now = fs.dir := by
  unfold FileSink.dirAt
  rw [h, if_neg Bool.false_ne_true]

theorem pathAt_flat {fs : FileSink} (h : fs.dateSubdir = false) (now : Int) :
    fs.pathAt localtime now = joinPath pathMax fs.dir.bytes fs.baseName.bytes := by
  unfold FileSink.pathAt
  rw [dirAt_flat h]

theorem Home.pathAt {fs : FileSink} (h : Home localtime fs) (now : Int) : fs.pathAt localtime now = fs.activePath :=
  (pathAt_flat h.flat now).trans h.path.symm

/-- A sink is home when it has opened its file. -/
theorem openedAt_home {fs : FileSink} {now : Int} {p : Path} (size : UInt64) (hflat : fs.dateSubdir = false)
    (hfail : fs.rotateFailSec = 0) (hp : resolve (fs.pathAt localtime now).bytes = some p) :
    Home localtime (fs.openedAt localtime now p size) where
  flat := hflat
  dir := dirAt_flat hflat now
  path := pathAt_flat hflat now
  fp := hp.symm
  year := rfl
  yday := rfl
  failSec := hfail

end HxClog
