import HxClog.Rotate

/-!
# What opening and rotating leave in the sink

Opening the active file decides which day and which path the sink stands for. A
rotation leaves the sink as it was, or opens it again.
-/

namespace HxClog

open C Posix

variable {localtime : Int → Tm}

/-! ## Opening -/

/-- The directory of the active file when it is opened at `now`. -/
def FileSink.dirAt (localtime : Int → Tm) (fs : FileSink) (now : Int) : Buf pathMax :=
  if fs.dateSubdir then joinPath pathMax fs.dir.bytes (cut 16 (dateText (localtime now))) else fs.dir

def FileSink.pathAt (localtime : Int → Tm) (fs : FileSink) (now : Int) : Buf pathMax :=
  joinPath pathMax (fs.dirAt localtime now).bytes fs.baseName.bytes

/-- The sink after its file was opened at `now`. -/
def FileSink.openedAt (localtime : Int → Tm) (fs : FileSink) (now : Int) (p : Path) (size : UInt64) : FileSink :=
  { fs with
    fp := some p
    activeDir := fs.dirAt localtime now
    activePath := fs.pathAt localtime now
    currentSize := size
    curYear := (localtime now).year
    curYday := (localtime now).yday
    openedSec := now }

section
variable {o : Opening} {fs fs' : FileSink} {w w' : World} {st : Status}

theorem openAppend_path {d d' : Disk} {ok : Bool} {now : Int} {path : Bytes} {p : Path}
    (h : d.openAppend ok now path = (d', some p)) : resolve path = some p := by
  unfold Disk.openAppend at h
  split at h
  · rename_i q hq
    split at h
    · cases h
      exact hq
    · cases h
  · cases h

theorem open_ok (h : hxFileOpenActive localtime o fs w = (.ok, fs', w')) :
    ∃ p size, resolve (fs.pathAt localtime o.now).bytes = some p ∧ fs' = fs.openedAt localtime o.now p size ∧
      w'.rotated = w.rotated := by
  unfold hxFileOpenActive at h
  simp only at h
  split at h
  · cases h
  · cases ho : w.disk.openAppend o.openOk o.now (fs.pathAt localtime o.now).bytes with
    | mk d fp =>
      simp only [FileSink.pathAt, FileSink.dirAt] at ho
      simp only [ho] at h
      cases fp with
      | none => cases h
      | some p =>
        simp only [Prod.mk.injEq, true_and] at h
        obtain ⟨rfl, rfl⟩ := h
        exact ⟨p, _, openAppend_path ho, rfl, rfl⟩

/-! ## Archiving -/

variable {env : Rotating} {cur : Tm} {failSec : Int} {incoming : UInt32}

/-- A rotation that succeeds starts an empty file. -/
theorem archive_ok (h : archiveActive localtime env cur failSec fs w = (.ok, fs', w')) :
    ∃ p, resolve (fs.pathAt localtime env.opening.now).bytes = some p ∧
      fs' = { fs.openedAt localtime env.opening.now p 0 with renameFailing := false, rotateFailSec := 0 } := by
  unfold archiveActive at h
  simp only at h
  split at h
  · split at h <;> cases h
  · cases ho : hxFileOpenActive localtime env.opening
        { fs with fp := none, renameFailing := false, rotateFailSec := 0 }
        { w with disk := (w.disk.rename env.renameOk fs.activePath.bytes (archiveTarget fs cur env.listing)).1 } with
    | mk st r =>
      simp only [ho] at h
      cases st with
      | ok =>
        obtain ⟨p, size, hp, hfs, -⟩ := open_ok ho
        simp only [Prod.mk.injEq, true_and] at h
        refine ⟨p, hp, ?_⟩
        rw [← h.1, hfs]
        rfl
      | outOfMemory => cases h
      | openFileFailed => cases h
      | platform => cases h

/-- A rotation whose rename fails goes on with the file that was to be archived. -/
theorem archive_failed (h : archiveActive localtime env cur failSec fs w = (.platform, fs', w')) :
    ∃ p size, resolve (fs.pathAt localtime env.opening.now).bytes = some p ∧
      fs' = { fs.openedAt localtime env.opening.now p size with renameFailing := true, rotateFailSec := failSec } := by
  unfold archiveActive at h
  simp only at h
  split at h
  · cases ho : hxFileOpenActive localtime env.opening
        { fs with fp := none, renameFailing := true, rotateFailSec := failSec }
        { w with disk := (w.disk.rename env.renameOk fs.activePath.bytes (archiveTarget fs cur env.listing)).1 } with
    | mk st r =>
      simp only [ho] at h
      cases st with
      | ok =>
        obtain ⟨p, size, hp, hfs, -⟩ := open_ok ho
        simp only [Prod.mk.injEq, true_and] at h
        refine ⟨p, size, hp, ?_⟩
        rw [← h.1, hfs]
        rfl
      | outOfMemory => cases h
      | openFileFailed => cases h
      | platform => cases h
  · split at h <;> cases h

/-! ## Rotating -/

/-- `renameTarget` is the target of the rename, and without one nothing is renamed. -/
theorem rotate_renames {target : Bytes} (h : renameTarget localtime env incoming fs = some target) :
    target = archiveTarget fs (fs.archiveDate localtime env.now) env.listing ∧
      hxRotateMaybe localtime env incoming fs w =
        archiveActive localtime env (fs.archiveDate localtime env.now) env.now fs w := by
  unfold renameTarget at h
  split at h
  · rename_i hd
    simp only [Bool.and_eq_true, Bool.not_eq_true'] at hd
    cases h
    unfold hxRotateMaybe
    rw [if_neg (by simp [hd.1]), if_neg (by simp [hd.2])]
    exact ⟨rfl, rfl⟩
  · cases h

theorem rotate_not_due (hd : fs.due localtime env.now incoming = false) :
    hxRotateMaybe localtime env incoming fs w = (.ok, fs, w) := by
  unfold hxRotateMaybe
  simp [hd]

/-- A call of `hx_rotate_maybe` that is due and succeeds. -/
theorem rotate_ok (hd : fs.due localtime env.now incoming = true)
    (h : hxRotateMaybe localtime env incoming fs w = (.ok, fs', w')) :
    ∃ p b sec, resolve (fs.pathAt localtime env.opening.now).bytes = some p ∧
      fs' = { fs.openedAt localtime env.opening.now p 0 with renameFailing := b, rotateFailSec := sec } := by
  unfold hxRotateMaybe at h
  rw [if_neg (by simp [hd])] at h
  split at h
  · cases ho : hxFileOpenActive localtime env.opening { fs with fp := none } w with
    | mk st r =>
      simp only [ho] at h
      cases st with
      | ok =>
        obtain ⟨p, size, hp, hfs, -⟩ := open_ok ho
        simp only [Prod.mk.injEq, true_and] at h
        refine ⟨p, fs.renameFailing, fs.rotateFailSec, hp, ?_⟩
        rw [← h.1, hfs]
        rfl
      | outOfMemory => cases h
      | openFileFailed => cases h
      | platform => cases h
  · obtain ⟨p, hp, hfs⟩ := archive_ok h
    exact ⟨p, false, 0, hp, hfs⟩

/-- A call of `hx_rotate_maybe` whose rename failed and that could open the file again. -/
theorem rotate_failed (h : hxRotateMaybe localtime env incoming fs w = (.platform, fs', w')) :
    fs.due localtime env.now incoming = true ∧ ∃ p size,
      resolve (fs.pathAt localtime env.opening.now).bytes = some p ∧
      fs' = { fs.openedAt localtime env.opening.now p size with renameFailing := true, rotateFailSec := env.now } := by
  unfold hxRotateMaybe at h
  split at h
  · cases h
  · rename_i hd
    refine ⟨by simpa using hd, ?_⟩
    split at h
    · split at h <;> cases h
    · exact archive_failed h

/-! ## Writing -/

variable {wr : Writing} {data : Bytes}

theorem fwrite_keeps (wr : Writing) (data : Bytes) (fs : FileSink) (w : World) :
    ∃ size failing, (fwriteActive wr data fs w).2.1 = { fs with currentSize := size, writeFailing := failing } := by
  unfold fwriteActive
  split
  · exact ⟨fs.currentSize, fs.writeFailing, rfl⟩
  · simp only
    split
    · exact ⟨_, _, rfl⟩
    · exact ⟨_, _, rfl⟩

/-- Whatever is due is looked at. -/
theorem due_looks {now : Int} (hd : fs.due localtime now incoming = true) : fs.policy ≠ .none ∨ fs.rotateDaily = true := by
  by_contra hno
  rw [not_or, not_not] at hno
  simp [FileSink.due, FileSink.needSize, FileSink.needDaily, FileSink.needInterval, FileSink.looksAtDay,
    FileSink.bySize, FileSink.byTime, hno.1, hno.2] at hd

/-- A write whose rotation is due. -/
theorem write_due (hd : fs.due localtime wr.rotating.now data.length.toUInt32 = true) :
    fileWrite localtime wr data fs w =
      let r := hxRotateMaybe localtime wr.rotating data.length.toUInt32 fs w
      fwriteActive wr data r.2.1 r.2.2 := by
  unfold fileWrite
  rw [if_pos (due_looks hd)]

/-- A write that does not rotate. -/
theorem write_not_due (hd : fs.due localtime wr.rotating.now data.length.toUInt32 = false) :
    fileWrite localtime wr data fs w = fwriteActive wr data fs w := by
  unfold fileWrite
  rw [rotate_not_due hd, ite_self]

end

end HxClog
