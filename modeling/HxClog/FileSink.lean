import HxClog.Lib.Posix
import HxClog.Names

/-!
# The file sink

The state of a file sink, and opening its active file. What the clock reads and
what each system call returns is an argument.
-/

namespace HxClog

open C Posix

abbrev pathMax : Nat := 1024

instance pathMax_neZero : NeZero pathMax := ⟨by decide⟩

instance nameMax_neZero : NeZero 256 := ⟨by decide⟩

inductive RotatePolicy where
  | none
  | bySize
  | byTime
  | bySizeAndTime
  deriving DecidableEq, Repr

inductive Status where
  | ok
  | outOfMemory
  | openFileFailed
  | platform
  deriving DecidableEq, Repr

/-- `struct hx_file_sink_impl`. `fp` is the file the stream appends to. -/
structure FileSink where
  fp : Option Path
  dir : Buf pathMax
  activeDir : Buf pathMax
  baseName : Buf 256
  activePath : Buf pathMax
  currentSize : UInt64
  policy : RotatePolicy
  maxFileSize : UInt64
  maxBackupFiles : Int
  maxBackupDays : Int
  rotateDaily : Bool
  rotateIntervalSeconds : UInt32
  rotateAlign : Bool
  rotateOnStartup : Bool
  maxCompressedFiles : Int
  dateSubdir : Bool
  curYear : Int
  curYday : Int
  openedSec : Int
  writeFailing : Bool
  renameFailing : Bool
  rotateFailSec : Int

/-- The disk, what was handed to the error handler, and the counter of rotations. -/
structure World where
  disk : Disk
  reports : List (Status × String)
  rotated : Nat

def World.report (w : World) (code : Status) (message : String) : World :=
  { w with reports := w.reports ++ [(code, message)] }

def joinPath (cap : Nat) [NeZero cap] (dir name : Bytes) : Buf cap :=
  let out := cut cap dir
  let out := if out ≠ [] ∧ out.getLast? ≠ some slash ∧ out.getLast? ≠ some (chr '\\') then out ++ [slash] else out
  .store cap (out ++ name)

/-- `"%s/%s"` in a `char[HX_CLOG_PATH_MAX]`. -/
def dirEntry (dir name : Bytes) : Bytes := cut pathMax (dir ++ slash :: name)

/-- The environment of one call of `hx_file_open_active`: the clock, and whether
`hx_mkdir_p` or `hx_file_exists`, `hx_fopen` and `hx_file_size` succeed. -/
structure Opening where
  now : Int
  mkdirOk : Bool
  openOk : Bool
  sizeOk : Bool

/-- The size of a file as an `unsigned long long`. -/
def fileSize (f : File) : UInt64 := f.content.length.toUInt64

def hxFileOpenActive (localtime : Int → Tm) (o : Opening) (fs : FileSink) (w : World) : Status × FileSink × World :=
  let tm := localtime o.now
  let fs := { fs with
    activeDir := if fs.dateSubdir then joinPath pathMax fs.dir.bytes (cut 16 (dateText tm)) else fs.dir }
  if fs.dateSubdir ∧ ¬o.mkdirOk then (.openFileFailed, fs, w)
  else
    let fs := { fs with activePath := joinPath pathMax fs.activeDir.bytes fs.baseName.bytes }
    let (disk, fp) := w.disk.openAppend o.openOk o.now fs.activePath.bytes
    let fs := { fs with fp }
    let w := { w with disk }
    match fp with
    | none => (.openFileFailed, fs, w)
    | some _ =>
      let size := if o.sizeOk then ((w.disk.file fs.activePath.bytes).map fileSize).getD 0 else 0
      (.ok, { fs with currentSize := size, curYear := tm.year, curYday := tm.yday, openedSec := o.now }, w)

end HxClog
