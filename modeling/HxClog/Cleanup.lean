import HxClog.FileSink

/-!
# Retention

`hx_rotate_cleanup`: the archives of a directory are collected into four
parallel arrays, sorted by their order key, aged out, compacted, and trimmed
twice, once to compress plain archives and once to delete compressed ones.
-/

namespace HxClog

open C Posix

/-! ## Compressing one archive -/

/-- What the calls of one `gzip_file` return. `readStop k` and `writeOk k` are
about the `k`-th turn of the copy loop; a read that stops early leaves an error. -/
structure GzRun where
  now : Int
  srcOk : Bool
  removeOld : Bool
  gzopenOk : Bool
  readStop : Nat → Option Nat
  writeOk : Nat → Bool
  closeOk : Bool
  removeBad : Bool
  removeSrc : Bool

def gzBuf : Nat := 16 * 1024

/-- The copy loop: the blocks handed to `gzwrite`, and `ok`. `fuel` is more than
the blocks there are. -/
def copyLoop (g : GzRun) : Nat → Nat → Bytes → List Bytes × Bool
  | 0, _, _ => ([], true)
  | fuel + 1, k, rest =>
    let buf := rest.take (match g.readStop k with | none => gzBuf | some m => min m (gzBuf - 1))
    if buf ≠ [] ∧ ¬g.writeOk k then ([], false)
    else
      let written := if buf ≠ [] then [buf] else []
      if buf.length < gzBuf then (written, (g.readStop k).isNone)
      else
        let (more, ok) := copyLoop g fuel (k + 1) (rest.drop buf.length)
        (written ++ more, ok)

/-- What can be read of the file after `gzopen`, which empties a file that is there still, the source too. -/
def gzSource (src : Bytes) (q : Path) (removed : Bool) (f : File) : Bytes :=
  if resolve src = some q ∧ ¬removed then [] else f.content

/-- `zlib` is the file that `gzwrite` calls with these blocks make. -/
def gzipFile (zlib : List Bytes → Bytes) (g : GzRun) (d : Disk) (src dst : Bytes) : Disk × Bool :=
  match d.file src with
  | none => (d, false)
  | some f =>
    if ¬g.srcOk then (d, false)
    else
      let (d, removed) := d.remove g.removeOld dst
      match resolve dst with
      | none => (d, false)
      | some q =>
        if ¬g.gzopenOk then (d, false)
        else
          let content := gzSource src q removed f
          let (written, ok) := copyLoop g (content.length + 1) 0 content
          let d : Disk := d.insert q ⟨zlib written, g.now⟩
          if ok ∧ g.closeOk then d.remove g.removeSrc src
          else ((d.remove g.removeBad dst).1, false)

/-- `zlib = none` is a build without it. -/
def compressOrDeleteBackup (zlib : Option (List Bytes → Bytes)) (g : GzRun) (d : Disk) (dir name : Bytes) :
    Disk × Bool :=
  let src := dirEntry dir name
  match zlib with
  | some zlib => gzipFile zlib g d src (dirEntry dir (name ++ lit ".gz"))
  | none => d.remove g.removeSrc src

/-! ## The working set -/

/-- One archive. `compressed` is 0 for a plain file, 1 for a `.gz` on disk and 2
for one compressed just now, whose name lacks the suffix. -/
structure Row where
  name : Bytes
  mtime : Int
  key : Int
  compressed : Nat
  deriving DecidableEq

/-- The file of a compressed archive. -/
def Row.gzFile (r : Row) : Bytes := if r.compressed = 2 then r.name ++ lit ".gz" else r.name

structure Arrays where
  names : List Bytes
  mtimes : List Int
  keys : List Int
  compressed : List Nat

namespace Arrays

def row (a : Arrays) (i : Nat) : Row :=
  ⟨a.names.getD i [], a.mtimes.getD i 0, a.keys.getD i 0, a.compressed.getD i 0⟩

def put (a : Arrays) (i : Nat) (r : Row) : Arrays where
  names := a.names.set i r.name
  mtimes := a.mtimes.set i r.mtime
  keys := a.keys.set i r.key
  compressed := a.compressed.set i r.compressed

/-- `names[i][0] = '\0'`. -/
def clearName (a : Arrays) (i : Nat) : Arrays := { a with names := a.names.set i [] }

def setCompressed (a : Arrays) (i v : Nat) : Arrays := { a with compressed := a.compressed.set i v }

/-- Arrays of `n` entries. -/
def blank (n : Nat) : Arrays where
  names := List.replicate n []
  mtimes := List.replicate n 0
  keys := List.replicate n 0
  compressed := List.replicate n 0

end Arrays

/-! ## Collecting -/

/-- The environment of one `hx_rotate_cleanup`. The allocations number 0 for the
initial arrays and `k` for the `k`-th growth; `listing` is `none` when `opendir`
fails; the outcomes of the removals are given for each name. -/
structure Cleaning where
  zlib : Option (List Bytes → Bytes)
  alloc : Nat → Bool
  listing : Option (List FileName)
  now : Int
  ageOk : Bytes → Bool
  gz : Bytes → GzRun
  capOk : Bytes → Bool

/-- `collect_ctx`. `grows` counts the calls of `collect_grow` that succeeded. -/
structure CollectCtx where
  pre : Bytes
  ext : Bytes
  dir : Bytes
  active : Bytes
  arrays : Arrays
  count : Nat
  cap : Nat
  oom : Bool
  grows : Nat

/-- No allocation succeeds once the capacity leaves the range of `int`. -/
def collectGrow (alloc : Nat → Bool) (c : CollectCtx) : CollectCtx :=
  let nc := c.cap * 2
  if alloc (c.grows + 1) ∧ nc < 2 ^ 31 then
    { c with
      arrays := {
        names := c.arrays.names ++ List.replicate c.cap []
        mtimes := c.arrays.mtimes ++ List.replicate c.cap 0
        keys := c.arrays.keys ++ List.replicate c.cap 0
        compressed := c.arrays.compressed ++ List.replicate c.cap 0 }
      cap := nc
      grows := c.grows + 1 }
  else { c with oom := true }

/-- What `collect_cb` stores for a name that it accepts. -/
def collectRow (d : Disk) (dir pre fname : Bytes) (isCompressed : Bool) : Row :=
  let mt := ((d.file (dirEntry dir fname)).map File.mtime).getD 0
  ⟨cut 256 fname, mt, archiveOrderKey fname pre mt, if isCompressed then 1 else 0⟩

def collectStore (c : CollectCtx) (r : Row) : CollectCtx :=
  { c with arrays := c.arrays.put c.count r, count := c.count + 1 }

def collectCb (alloc : Nat → Bool) (d : Disk) (c : CollectCtx) (fname : Bytes) : CollectCtx :=
  if c.oom then c
  else if fname = c.active then c
  else
    match archiveNameMatch fname c.pre c.ext with
    | none => c
    | some isCompressed =>
      let c := if c.count ≥ c.cap then collectGrow alloc c else c
      if c.oom then c else collectStore c (collectRow d c.dir c.pre fname isCompressed)

/-- `list_dir` with the names it hands to its callback. -/
def listDir {σ : Type} (listing : Option (List FileName)) (cb : σ → Bytes → σ) (s : σ) : σ :=
  match listing with
  | none => s
  | some names => (names.map FileName.bytes).foldl cb s

def initBackups : Nat := 512

/-! ## Sorting -/

/-- The inner loop with `hole = j + 1`: entries with a larger key move up. -/
def shiftUp (key : Int) : Nat → Arrays → Arrays × Nat
  | 0, a => (a, 0)
  | j + 1, a => if a.keys.getD j 0 > key then shiftUp key j (a.put (j + 1) (a.row j)) else (a, j + 1)

def sortStep (a : Arrays) (i : Nat) : Arrays :=
  let r := a.row i
  let (a, hole) := shiftUp r.key i a
  a.put hole r

/-- `for (i = 1; i < count; ++i)`. -/
def sortArrays (a : Arrays) (count : Nat) : Arrays := (List.range' 1 (count - 1)).foldl sortStep a

/-! ## The passes -/

/-- Delete by age. -/
def ageStep (env : Cleaning) (dir : Bytes) (cutoff : Int) (s : Disk × Arrays) (i : Nat) : Disk × Arrays :=
  let (d, a) := s
  if a.mtimes.getD i 0 > 0 ∧ a.mtimes.getD i 0 < cutoff then
    let name := a.names.getD i []
    ((d.remove (env.ageOk name) (dirEntry dir name)).1, a.clearName i)
  else (d, a)

/-- Compaction, with `n` entries kept so far. -/
def compactStep (s : Nat × Arrays) (i : Nat) : Nat × Arrays :=
  let (n, a) := s
  if a.names.getD i [] ≠ [] then (n + 1, if n ≠ i then a.put n (a.row i) else a) else (n, a)

/-- Compress the oldest plain archives; the loop ends when `left` is 0. -/
def compressStep (env : Cleaning) (dir : Bytes) (s : (Int × Disk) × Arrays) (i : Nat) : (Int × Disk) × Arrays :=
  let ((left, d), a) := s
  let name := a.names.getD i []
  if left > 0 ∧ a.compressed.getD i 0 = 0 ∧ name ≠ [] then
    let (d, done) := compressOrDeleteBackup env.zlib (env.gz name) d dir name
    if done then ((left - 1, d), if env.zlib.isSome then a.setCompressed i 2 else a.clearName i)
    else ((left, d), a)
  else s

/-- Delete the oldest compressed archives, `left = gz_count - gz_cap`. -/
def capStep (env : Cleaning) (dir : Bytes) (s : (Int × Disk) × Arrays) (i : Nat) : (Int × Disk) × Arrays :=
  let ((left, d), a) := s
  let name := a.names.getD i []
  if left > 0 ∧ name ≠ [] ∧ a.compressed.getD i 0 ≠ 0 then
    let (d, done) := d.remove (env.capOk name) (dirEntry dir (a.row i).gzFile)
    if done then ((left - 1, d), a.clearName i) else ((left, d), a)
  else s

/-- The number of entries that satisfy `p`. -/
def countRows (p : Row → Bool) (a : Arrays) (count : Nat) : Nat := ((List.range count).filter (p ∘ a.row)).length

def gzCap (fs : FileSink) : Int :=
  if fs.maxCompressedFiles < 0 then -1
  else if fs.maxCompressedFiles > 0 then fs.maxCompressedFiles
  else fs.maxBackupFiles

def agePass (env : Cleaning) (fs : FileSink) (s : Disk × Arrays) (count : Nat) : Disk × Arrays :=
  if fs.maxBackupDays > 0 then
    (List.range count).foldl (ageStep env fs.activeDir.bytes (env.now - fs.maxBackupDays * 86400)) s
  else s

def compactPass (a : Arrays) (count : Nat) : Nat × Arrays := (List.range count).foldl compactStep (0, a)

def compressPass (env : Cleaning) (fs : FileSink) (s : Disk × Arrays) (count : Nat) : Disk × Arrays :=
  if fs.maxBackupFiles > 0 then
    let plainCount := countRows (·.compressed = 0) s.2 count
    let ((_, d), a) :=
      (List.range count).foldl (compressStep env fs.activeDir.bytes) ((plainCount - fs.maxBackupFiles, s.1), s.2)
    (d, a)
  else s

def capPass (env : Cleaning) (fs : FileSink) (s : Disk × Arrays) (count : Nat) : Disk × Arrays :=
  if gzCap fs > 0 then
    let gzCount := countRows (fun r => r.name ≠ [] ∧ r.compressed ≠ 0) s.2 count
    let ((_, d), a) := (List.range count).foldl (capStep env fs.activeDir.bytes) ((gzCount - gzCap fs, s.1), s.2)
    (d, a)
  else s

/-- The context that the scan of the directory starts from. -/
def collectInit (fs : FileSink) : CollectCtx :=
  let (stem, ext) := splitName fs.baseName.bytes 256 64
  { pre := cut 256 (stem ++ [chr '.'])
    ext := cut 64 ext
    dir := fs.activeDir.bytes
    active := fs.baseName.bytes
    arrays := .blank initBackups
    count := 0
    cap := initBackups
    oom := false
    grows := 0 }

def hxRotateCleanup (env : Cleaning) (fs : FileSink) (w : World) : World :=
  if ¬env.alloc 0 then
    w.report .outOfMemory ("rotation cleanup skipped: out of memory allocating " ++
      "the backup working set; old backups may accumulate")
  else
    let c := listDir env.listing (collectCb env.alloc w.disk) (collectInit fs)
    let w := if c.oom then
        w.report .outOfMemory ("rotation cleanup: out of memory enumerating backups;" ++
          " some old backups may not be cleaned this round")
      else w
    let arrays := sortArrays c.arrays c.count
    let (disk, arrays) := agePass env fs (w.disk, arrays) c.count
    let (count, arrays) := compactPass arrays c.count
    let (disk, arrays) := compressPass env fs (disk, arrays) count
    let (disk, _) := capPass env fs (disk, arrays) count
    { w with disk }

/-! ## When everything succeeds -/

def GzRun.smooth : GzRun where
  now := 0
  srcOk := true
  removeOld := true
  gzopenOk := true
  readStop _ := none
  writeOk _ := true
  closeOk := true
  removeBad := true
  removeSrc := true

/-- A cleanup of these names in which every call succeeds. -/
def Cleaning.smooth (names : List FileName) : Cleaning where
  zlib := some List.flatten
  alloc _ := true
  listing := some names
  now := 0
  ageOk _ := true
  gz _ := .smooth
  capOk _ := true

end HxClog
