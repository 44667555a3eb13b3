import HxClog.Cleanup
import HxClog.Lib.Transition

/-!
# Rotation and writing

Creating a file sink, writing a line to it, archiving its active file and opening it
again. What the clock reads and what each system call returns is an argument.
-/

namespace HxClog

open C Posix

/-! ## Archiving -/

/-- The environment of one rotation: the first reading of the clock, what `list_dir` finds
for the index, the outcome of the rename, opening the new file, and cleaning up. -/
structure Rotating where
  now : Int
  listing : Option (List FileName)
  renameOk : Bool
  opening : Opening
  cleaning : Cleaning

/-- The target of the rename: the next free index of the date `cur`. -/
def archiveTarget (fs : FileSink) (cur : Tm) (listing : Option (List FileName)) : Bytes :=
  let dateTag := cut 16 (dateText cur)
  let (stem, ext) := splitName fs.baseName.bytes 256 64
  let maxIndex := listDir listing (indexCb stem dateTag) 0
  let archive := makeArchiveName pathMax stem ext cur (Int.bmod (maxIndex + 1) (2 ^ 32))
  dirEntry fs.activeDir.bytes archive

def reopenFailed : String := "rotation: reopening the active log file failed"

def archiveFailed : String :=
  "rotation: archiving the active log file failed (locked by another process or no permission)"

/-- What `hx_rotate_maybe` and `hx_rotate_force` share, from the choice of the archive's name
on. `failSec` is the second kept when the rename fails. -/
def archiveActive (localtime : Int → Tm) (env : Rotating) (cur : Tm) (failSec : Int) (fs : FileSink) (w : World) :
    Status × FileSink × World :=
  let target := archiveTarget fs cur env.listing
  let fs := { fs with fp := none }
  let (disk, renamed) := w.disk.rename env.renameOk fs.activePath.bytes target
  let w := { w with disk }
  if ¬renamed then
    let firstFailure := !fs.renameFailing
    let fs := { fs with renameFailing := true, rotateFailSec := failSec }
    match hxFileOpenActive localtime env.opening fs w with
    | (.ok, fs, w) => (.platform, fs, if firstFailure then w.report .platform archiveFailed else w)
    | (_, fs, w) => (.openFileFailed, fs, w.report .openFileFailed reopenFailed)
  else
    let fs := { fs with renameFailing := false, rotateFailSec := 0 }
    match hxFileOpenActive localtime env.opening fs w with
    | (.ok, fs, w) =>
      let fs := { fs with currentSize := 0 }
      (.ok, fs, hxRotateCleanup env.cleaning fs { w with rotated := w.rotated + 1 })
    | (_, fs, w) => (.openFileFailed, fs, w.report .openFileFailed reopenFailed)

/-! ## Triggers -/

def FileSink.bySize (fs : FileSink) : Bool := fs.policy = .bySize || fs.policy = .bySizeAndTime

def FileSink.byTime (fs : FileSink) : Bool := fs.policy = .byTime || fs.policy = .bySizeAndTime

def FileSink.needSize (fs : FileSink) (incoming : UInt32) : Bool :=
  fs.bySize && 0 < fs.maxFileSize && fs.maxFileSize < fs.currentSize + incoming.toUInt64 && 0 < fs.currentSize

/-- The sink compares the day. -/
def FileSink.looksAtDay (fs : FileSink) : Bool := fs.rotateDaily || fs.byTime

def FileSink.needDaily (fs : FileSink) (tm : Tm) : Bool :=
  fs.looksAtDay && (tm.yday ≠ fs.curYday || tm.year ≠ fs.curYear)

/-- `aligned` compares buckets of wall-clock time, otherwise the interval starts with the file. -/
def FileSink.needInterval (fs : FileSink) (now : Int) : Bool :=
  let interval : Int := fs.rotateIntervalSeconds.toNat
  fs.byTime && 0 < interval && 0 < fs.currentSize &&
    if fs.rotateAlign then now.tdiv interval ≠ fs.openedSec.tdiv interval else fs.openedSec + interval ≤ now

/-- A failed rotation is not tried again within the same second. -/
def FileSink.deferred (fs : FileSink) (now : Int) : Bool := fs.rotateFailSec ≠ 0 && now ≤ fs.rotateFailSec

def FileSink.due (fs : FileSink) (localtime : Int → Tm) (now : Int) (incoming : UInt32) : Bool :=
  !fs.deferred now && (fs.needSize incoming || fs.needDaily (localtime now) || fs.needInterval now)

def rolloverFailed : String := "date-subdir rollover: opening the new day's log file failed"

/-- The date of the archive: that of the file for a time trigger, else today's. -/
def FileSink.archiveDate (fs : FileSink) (localtime : Int → Tm) (now : Int) : Tm :=
  if (fs.needDaily (localtime now) || fs.needInterval now) && 0 < fs.openedSec then localtime fs.openedSec
  else localtime now

def hxRotateMaybe (localtime : Int → Tm) (env : Rotating) (incoming : UInt32) (fs : FileSink) (w : World) :
    Status × FileSink × World :=
  if ¬fs.due localtime env.now incoming then (.ok, fs, w)
  else if fs.dateSubdir && fs.needDaily (localtime env.now) then
    match hxFileOpenActive localtime env.opening { fs with fp := none } w with
    | (.ok, fs, w) => (.ok, { fs with currentSize := 0 }, { w with rotated := w.rotated + 1 })
    | (_, fs, w) => (.openFileFailed, fs, w.report .openFileFailed rolloverFailed)
  else archiveActive localtime env (fs.archiveDate localtime env.now) env.now fs w

/-- The target that `hx_rotate_maybe` hands to `hx_rename`, if it comes to that. -/
def renameTarget (localtime : Int → Tm) (env : Rotating) (incoming : UInt32) (fs : FileSink) : Option Bytes :=
  if fs.due localtime env.now incoming && !(fs.dateSubdir && fs.needDaily (localtime env.now)) then
    some (archiveTarget fs (fs.archiveDate localtime env.now) env.listing)
  else none

/-- `time` is what `time(NULL)` returns. -/
def hxRotateForce (localtime : Int → Tm) (env : Rotating) (time : Int) (fs : FileSink) (w : World) :
    Status × FileSink × World :=
  if fs.fp.isNone ∨ fs.currentSize = 0 then (.ok, fs, w)
  else archiveActive localtime env (localtime (if 0 < fs.openedSec then fs.openedSec else time)) time fs w

/-! ## Writing -/

/-- The environment of one `file_write`: what `fwrite` takes, and when. -/
structure Writing where
  rotating : Rotating
  written : Nat
  mtime : Int

def writeFailed : String := "file sink: write failed (disk full or device error)"

/-- The part of `file_write` behind the rotation. -/
def fwriteActive (env : Writing) (data : Bytes) (fs : FileSink) (w : World) : Status × FileSink × World :=
  match fs.fp with
  | none => (.openFileFailed, fs, w)
  | some p =>
    let written := min env.written data.length
    let w := { w with disk := w.disk.append env.mtime p (data.take written) }
    let fs := { fs with currentSize := fs.currentSize + written.toUInt64 }
    if written ≠ data.length then
      (.platform, { fs with writeFailing := true }, if fs.writeFailing then w else w.report .platform writeFailed)
    else (.ok, { fs with writeFailing := false }, w)

def fileWrite (localtime : Int → Tm) (env : Writing) (data : Bytes) (fs : FileSink) (w : World) :
    Status × FileSink × World :=
  let (fs, w) :=
    if fs.policy ≠ .none ∨ fs.rotateDaily then (hxRotateMaybe localtime env.rotating data.length.toUInt32 fs w).2
    else (fs, w)
  fwriteActive env data fs w

/-- `hx_sink_file_reopen` of a file sink. -/
def hxSinkFileReopen (localtime : Int → Tm) (o : Opening) (fs : FileSink) (w : World) : Status × FileSink × World :=
  hxFileOpenActive localtime o { fs with fp := none } w

/-! ## Creating -/

/-- The fields of `hx_clog_config_t` that the file sink reads. -/
structure FileConfig where
  rotatePolicy : RotatePolicy
  maxFileSize : UInt64
  maxBackupFiles : Int
  maxBackupDays : Int
  rotateDaily : Bool
  rotateIntervalSeconds : UInt32
  rotateAlign : Bool
  rotateOnStartup : Bool
  maxCompressedFiles : Int
  dateSubdir : Bool

/-- Without a configuration. -/
def FileConfig.absent : FileConfig where
  rotatePolicy := .none
  maxFileSize := 0
  maxBackupFiles := -1
  maxBackupDays := 0
  rotateDaily := false
  rotateIntervalSeconds := 0
  rotateAlign := false
  rotateOnStartup := false
  maxCompressedFiles := -1
  dateSubdir := false

/-- The environment of one `hx_sink_file_create`: `hx_mkdir_p` or `hx_file_exists`, the two
allocations, opening the file, rotating it on startup, and `time(NULL)`. -/
structure Creating where
  mkdirOk : Bool
  allocOk : Bool
  opening : Opening
  rotating : Rotating
  time : Int

def newFileSink (dir fileName : Option Bytes) (cfg : Option FileConfig) : FileSink :=
  let cfg := cfg.getD .absent
  { fp := none
    dir := .store pathMax (dir.getD (lit "./logs"))
    activeDir := .store pathMax []
    baseName := .store 256 (fileName.getD (lit "app.log"))
    activePath := .store pathMax []
    currentSize := 0
    policy := cfg.rotatePolicy
    maxFileSize := cfg.maxFileSize
    maxBackupFiles := cfg.maxBackupFiles
    maxBackupDays := cfg.maxBackupDays
    rotateDaily := cfg.rotateDaily
    rotateIntervalSeconds := cfg.rotateIntervalSeconds
    rotateAlign := cfg.rotateAlign
    rotateOnStartup := cfg.rotateOnStartup
    maxCompressedFiles := cfg.maxCompressedFiles
    dateSubdir := cfg.dateSubdir
    curYear := 0
    curYday := 0
    openedSec := 0
    writeFailing := false
    renameFailing := false
    rotateFailSec := 0 }

def hxSinkFileCreate (localtime : Int → Tm) (env : Creating) (dir fileName : Option Bytes) (cfg : Option FileConfig)
    (w : World) : Option (FileSink × World) :=
  if ¬env.mkdirOk ∨ ¬env.allocOk then none
  else
    match hxFileOpenActive localtime env.opening (newFileSink dir fileName cfg) w with
    | (.ok, fs, w) =>
      if fs.rotateOnStartup ∧ 0 < fs.currentSize then some (hxRotateForce localtime env.rotating env.time fs w).2
      else some (fs, w)
    | _ => none

end HxClog
