import HxClog.ArchiveDates
import HxClog.RecognizerSound

/-!
# Calls on a file sink and the disk

What `file_write`, `hx_sink_file_reopen` and `hx_rotate_force` leave on the disk when
their system calls succeed. Every stream is closed before the size of its file is read,
so what is buffered counts as written.
-/

namespace HxClog

open C Posix

/-! ## Calls -/

inductive FileCall where
  | write (env : Writing) (data : Bytes)
  | reopen (o : Opening)
  | force (env : Rotating) (time : Int)

/-- The content of the file that a path names. -/
def contentAt (d : Disk) (path : Bytes) : Bytes := ((d.file path).map File.content).getD []

/-- The file behind `fs->fp`. -/
def fileBehind (s : FileSink × World) : Option File := s.1.fp.bind s.2.disk.lookup

namespace FileCall

variable (localtime : Int → Tm)

def run (s : FileSink × World) : FileCall → Status × FileSink × World
  | .write env data => fileWrite localtime env data s.1 s.2
  | .reopen o => hxSinkFileReopen localtime o s.1 s.2
  | .force env time => hxRotateForce localtime env time s.1 s.2

/-- The system calls of a call succeed, those of a rotation included. A line is as long as
an `unsigned int` can say, and no file outgrows an `off_t`. -/
def Succeeds (s : FileSink × World) (c : FileCall) : Prop :=
  (c.run localtime s).1 = .ok ∧ (∀ f ∈ fileBehind (c.run localtime s).2, f.content.length < 2 ^ 63) ∧
    match c with
    | .write env data => (hxRotateMaybe localtime env.rotating data.length.toUInt32 s.1 s.2).1 = .ok ∧
        env.rotating.opening.sizeOk = true ∧ data.length < 2 ^ 32
    | .reopen o => o.sizeOk = true
    | .force env _ => env.opening.sizeOk = true

instance (s : FileSink × World) (c : FileCall) : Decidable (c.Succeeds localtime s) := by
  unfold Succeeds
  cases c <;> infer_instance

end FileCall

def fileStep (localtime : Int → Tm) (s : FileSink × World) (c : FileCall) : Option (FileSink × World) :=
  if c.Succeeds localtime s then some (c.run localtime s).2 else none

/-! ## The condition on paths -/

/-- No path of an archive that the cleanup of this rotation meets is that of the active file. -/
def CleanupSpares (localtime : Int → Tm) (env : Rotating) (fs : FileSink) : Prop :=
  ∀ names, env.cleaning.listing = some names → ∀ m ∈ names, fs.archive m = true →
    resolve (dirEntry (fs.dirAt localtime env.opening.now).bytes m.bytes) ≠
        resolve (fs.pathAt localtime env.opening.now).bytes ∧
      resolve (dirEntry (fs.dirAt localtime env.opening.now).bytes (m.bytes ++ lit ".gz")) ≠
        resolve (fs.pathAt localtime env.opening.now).bytes

/-- Once the active file is renamed, nothing is found where the next one is opened, and the
cleanup leaves that one alone. -/
def ArchivesClear (localtime : Int → Tm) (env : Rotating) (cur : Tm) (fs : FileSink) (w : World) : Prop :=
  contentAt (w.disk.rename env.renameOk fs.activePath.bytes (archiveTarget fs cur env.listing)).1
      (fs.pathAt localtime env.opening.now).bytes = [] ∧
    CleanupSpares localtime env fs

/-- Whatever file a rotation opens is new or empty. -/
def FileCall.Clear (localtime : Int → Tm) (s : FileSink × World) : FileCall → Prop
  | .write env data =>
    s.1.due localtime env.rotating.now data.length.toUInt32 = true →
      if s.1.dateSubdir && s.1.needDaily (localtime env.rotating.now) then
        contentAt s.2.disk (s.1.pathAt localtime env.rotating.opening.now).bytes = []
      else ArchivesClear localtime env.rotating (s.1.archiveDate localtime env.rotating.now) s.1 s.2
  | .reopen _ => True
  | .force env time =>
    s.1.fp.isSome = true → s.1.currentSize ≠ 0 →
      ArchivesClear localtime env ((Rotation.force time).date localtime env.now s.1) s.1 s.2

/-! ## Opening -/

variable {localtime : Int → Tm}

/-- The disk with a file at `p`. -/
def Disk.touched (d : Disk) (p : Path) (now : Int) : Disk := if (d.lookup p).isSome then d else d.insert p ⟨[], now⟩

theorem touched_lookup (d : Disk) (p : Path) (now : Int) :
    ∃ f, (Disk.touched d p now).lookup p = some f ∧ f.content = ((d.lookup p).map File.content).getD [] := by
  unfold Disk.touched
  cases h : d.lookup p with
  | none => exact ⟨_, Finmap.lookup_insert d, rfl⟩
  | some f => exact ⟨f, h, rfl⟩

theorem touched_lookup_ne (d : Disk) {p q : Path} (h : q ≠ p) (now : Int) :
    (Disk.touched d p now).lookup q = d.lookup q := by
  unfold Disk.touched
  split
  · rfl
  · exact Finmap.lookup_insert_of_ne d h

theorem contentAt_resolve {d : Disk} {path : Bytes} {p : Path} (h : resolve path = some p) :
    contentAt d path = ((d.lookup p).map File.content).getD [] := by
  unfold contentAt Disk.file
  rw [h, Option.bind_some]

section
variable {o : Opening} {fs fs' : FileSink} {w w' : World}

theorem open_spec (h : hxFileOpenActive localtime o fs w = (.ok, fs', w')) (hsize : o.sizeOk = true) :
    ∃ p f, resolve (fs.pathAt localtime o.now).bytes = some p ∧ w'.disk = Disk.touched w.disk p o.now ∧
      w'.disk.lookup p = some f ∧ f.content = contentAt w.disk (fs.pathAt localtime o.now).bytes ∧
      fs' = fs.openedAt localtime o.now p (fileSize f) := by
  obtain ⟨p, size, hp, hfs, -⟩ := open_ok h
  obtain ⟨f, hf, hcontent⟩ := touched_lookup w.disk p o.now
  have hdisk : w'.disk = Disk.touched w.disk p o.now ∧
      fs'.currentSize = ((w'.disk.file (fs.pathAt localtime o.now).bytes).map fileSize).getD 0 := by
    unfold hxFileOpenActive at h
    simp only at h
    split at h
    · cases h
    · have hpath : joinPath pathMax (if fs.dateSubdir = true then
          joinPath pathMax fs.dir.bytes (cut 16 (dateText (localtime o.now))) else fs.dir).bytes fs.baseName.bytes =
          fs.pathAt localtime o.now := rfl
      rw [hpath] at h
      by_cases hok : o.openOk = true
      · simp only [Disk.openAppend, hp, hok, if_true, Prod.mk.injEq, true_and] at h
        obtain ⟨rfl, rfl⟩ := h
        exact ⟨rfl, rfl⟩
      · simp only [Disk.openAppend, hp, hok] at h
        cases h
  refine ⟨p, f, hp, hdisk.1, ?_, ?_, ?_⟩
  · rw [hdisk.1]
    exact hf
  · rw [hcontent, contentAt_resolve hp]
  · have hcur : size = fileSize f := by
      have hcur := hdisk.2
      rw [hfs, hdisk.1, Disk.file, hp, Option.bind_some, hf] at hcur
      exact hcur
    rw [hfs, hcur]

theorem fileSize_toNat {f : File} (h : f.content.length < 2 ^ 63) : (fileSize f).toNat = f.content.length := by
  unfold fileSize
  exact UInt64.toNat_ofNat_of_lt' (Nat.lt_trans h (by decide))

/-! ## Archiving -/

variable {env : Rotating} {cur : Tm} {failSec : Int}

theorem rename_ok {d : Disk} {ok : Bool} {src dst : Bytes} (h : (d.rename ok src dst).2 = true) :
    ∃ p q f, resolve src = some p ∧ resolve dst = some q ∧ d.lookup p = some f ∧
      (d.rename ok src dst).1 = (d.erase p).insert q f := by
  unfold Disk.rename at h ⊢
  cases hp : resolve src with
  | none => simp [hp] at h
  | some p =>
    cases hq : resolve dst with
    | none => simp [hp, hq] at h
    | some q =>
      cases hf : d.lookup p with
      | none => simp [hp, hq, hf] at h
      | some f =>
        simp only [hp, hq, hf] at h
        have hok : ok = true := by
          by_contra hno
          rw [if_neg hno] at h
          cases h
        refine ⟨p, q, f, rfl, rfl, hf, ?_⟩
        simp only [hf]
        rw [if_pos hok]

/-- A rotation that succeeds: the rename, then the new file, then the cleanup. -/
theorem archive_disk (h : archiveActive localtime env cur failSec fs w = (.ok, fs', w'))
    (hsize : env.opening.sizeOk = true) :
    (w.disk.rename env.renameOk fs.activePath.bytes (archiveTarget fs cur env.listing)).2 = true ∧
      ∃ p w₁, resolve (fs.pathAt localtime env.opening.now).bytes = some p ∧
        w₁.disk = Disk.touched (w.disk.rename env.renameOk fs.activePath.bytes (archiveTarget fs cur env.listing)).1 p
          env.opening.now ∧
        fs' = { fs.openedAt localtime env.opening.now p 0 with renameFailing := false, rotateFailSec := 0 } ∧
        w' = hxRotateCleanup env.cleaning fs' w₁ := by
  unfold archiveActive at h
  simp only at h
  split at h
  · split at h <;> cases h
  · rename_i hren
    refine ⟨not_not.mp hren, ?_⟩
    cases ho : hxFileOpenActive localtime env.opening
        { fs with fp := none, renameFailing := false, rotateFailSec := 0 }
        { w with disk := (w.disk.rename env.renameOk fs.activePath.bytes (archiveTarget fs cur env.listing)).1 } with
    | mk st r =>
      simp only [ho] at h
      cases st with
      | ok =>
        obtain ⟨p, f, hp, hdisk, -, -, hfs⟩ := open_spec ho hsize
        simp only [Prod.mk.injEq, true_and] at h
        obtain ⟨rfl, rfl⟩ := h
        refine ⟨p, { r.2 with rotated := r.2.rotated + 1 }, hp, hdisk, ?_, rfl⟩
        rw [hfs]
        rfl
      | outOfMemory => cases h
      | openFileFailed => cases h
      | platform => cases h

/-- Where nothing is in the way the new file is empty. -/
theorem archive_empty (h : archiveActive localtime env cur failSec fs w = (.ok, fs', w'))
    (hsize : env.opening.sizeOk = true) (hc : ArchivesClear localtime env cur fs w) :
    ∃ f, fileBehind (fs', w') = some f ∧ f.content = [] := by
  obtain ⟨-, p, w₁, hp, hdisk, hfs, hw⟩ := archive_disk h hsize
  obtain ⟨f, hf, hcontent⟩ := touched_lookup
    (w.disk.rename env.renameOk fs.activePath.bytes (archiveTarget fs cur env.listing)).1 p env.opening.now
  refine ⟨f, ?_, ?_⟩
  · have hfp : fs'.fp = some p := by
      rw [hfs]
      rfl
    have hdir : fs'.activeDir = fs.dirAt localtime env.opening.now := by
      rw [hfs]
      rfl
    have harchive (m : FileName) : fs'.archive m = fs.archive m := by
      rw [hfs]
      rfl
    have hspared : w'.disk.lookup p = w₁.disk.lookup p := by
      rw [hw]
      refine cleanup_spares env.cleaning w₁ fun names hn m hm ha => ?_
      rw [harchive] at ha
      have hspares := hc.2 names hn m hm ha
      rw [hp] at hspares
      rw [hdir]
      exact hspares
    unfold fileBehind
    rw [hfp, Option.bind_some]
    exact hspared.trans (hdisk ▸ hf)
  · rw [hcontent, ← contentAt_resolve hp]
    exact hc.1

/-! ## Writing -/

variable {wr : Writing} {data : Bytes}

/-- A write to the open file that succeeds. -/
theorem fwrite_ok (h : (fwriteActive wr data fs w).1 = .ok) :
    ∃ p, fs.fp = some p ∧ (fwriteActive wr data fs w).2 =
      ({ fs with currentSize := fs.currentSize + data.length.toUInt64, writeFailing := false },
        { w with disk := w.disk.append wr.mtime p data }) := by
  unfold fwriteActive at h ⊢
  split at h
  · cases h
  · rename_i p hp
    simp only [hp]
    simp only at h
    split at h
    · cases h
    · rename_i hw
      rw [not_not] at hw
      refine ⟨p, rfl, ?_⟩
      rw [if_neg (not_not_intro hw), hw, List.take_length]

/-- The file behind the stream grows by the line. -/
theorem fwrite_behind {f : File} (h : (fwriteActive wr data fs w).1 = .ok) (hf : fileBehind (fs, w) = some f) :
    ∃ f', fileBehind (fwriteActive wr data fs w).2 = some f' ∧ f'.content = f.content ++ data := by
  obtain ⟨p, hp, heq⟩ := fwrite_ok h
  have hlookup : w.disk.lookup p = some f := by
    unfold fileBehind at hf
    rwa [hp, Option.bind_some] at hf
  refine ⟨⟨f.content ++ data, wr.mtime⟩, ?_, rfl⟩
  rw [heq]
  unfold fileBehind Disk.append
  simp only [hp, Option.bind_some, hlookup]
  exact Finmap.lookup_insert w.disk

end

end HxClog
