import HxClog.FileCalls

/-!
# Writing again after a failed opening

A sink whose file could not be opened goes on without one. Nothing opens it but a
rotation, so the next line is stored only if one is due.
-/

namespace HxClog

open C Posix

variable {localtime : Int → Tm}

/-- The file-system calls on the active file succeed during a write: it can be opened, the whole line is
taken, and the cleanup does not meet it under the name of an archive. -/
structure WriteSucceeds (localtime : Int → Tm) (env : Writing) (data : Bytes) (fs : FileSink) : Prop where
  mkdir : env.rotating.opening.mkdirOk = true
  opens : env.rotating.opening.openOk = true
  path : (resolve (fs.pathAt localtime env.rotating.opening.now).bytes).isSome = true
  written : data.length ≤ env.written
  spares : CleanupSpares localtime env.rotating fs

/-- The write returns `HX_CLOG_OK`, and its line is the end of the file behind the stream. -/
def LineStored (data : Bytes) (r : Status × FileSink × World) : Prop :=
  r.1 = .ok ∧ ∃ f, fileBehind r.2 = some f ∧ data <:+ f.content

/-- What can make a rotation due once the second of the last failure is over. -/
def FileSink.triggered (fs : FileSink) (localtime : Int → Tm) (now : Int) (incoming : UInt32) : Bool :=
  fs.needSize incoming || fs.needDaily (localtime now) || fs.needInterval now

theorem due_later {fs : FileSink} {now : Int} {incoming : UInt32} (h : fs.rotateFailSec < now) :
    fs.due localtime now incoming = fs.triggered localtime now incoming := by
  unfold FileSink.due FileSink.triggered FileSink.deferred
  rw [decide_eq_false (not_le.mpr h), Bool.and_false, Bool.not_false, Bool.true_and]

/-! ## A file to write to -/

section
variable {fs : FileSink} {w : World} {o : Opening} {env : Writing} {data : Bytes}

/-- The file of the sink is open at `p`. -/
def OpenAt (p : Path) (s : FileSink × World) : Prop := s.1.fp = some p ∧ (s.2.disk.lookup p).isSome = true

theorem open_succeeds (fs : FileSink) (w : World) {p : Path} (hmkdir : o.mkdirOk = true) (hopen : o.openOk = true)
    (hp : resolve (fs.pathAt localtime o.now).bytes = some p) :
    ∃ s, hxFileOpenActive localtime o fs w = (.ok, s) ∧ OpenAt p s ∧
      ∃ size, s.1 = fs.openedAt localtime o.now p size := by
  unfold hxFileOpenActive
  simp only
  rw [if_neg (by simp [hmkdir])]
  have hpath : joinPath pathMax (if fs.dateSubdir = true then
      joinPath pathMax fs.dir.bytes (cut 16 (dateText (localtime o.now))) else fs.dir).bytes fs.baseName.bytes =
      fs.pathAt localtime o.now := rfl
  rw [hpath]
  simp only [Disk.openAppend, hp, hopen, if_true]
  obtain ⟨f, hf, -⟩ := touched_lookup w.disk p o.now
  refine ⟨_, rfl, ⟨rfl, ?_⟩, _, rfl⟩
  show ((Disk.touched w.disk p o.now).lookup p).isSome = true
  rw [hf]
  rfl

/-- A line that a stream takes is the end of its file. -/
theorem fwrite_stored {p : Path} {s : FileSink × World} (h : OpenAt p s) (hw : data.length ≤ env.written) :
    LineStored data (fwriteActive env data s.1 s.2) := by
  obtain ⟨hfp, hfile⟩ := h
  obtain ⟨f, hf⟩ := Option.isSome_iff_exists.mp hfile
  have hok : (fwriteActive env data s.1 s.2).1 = .ok := by
    unfold fwriteActive
    rw [hfp]
    simp only [min_eq_right hw]
    rw [if_neg (fun h => h rfl)]
  have hbehind : fileBehind s = some f := by
    unfold fileBehind
    rw [hfp]
    exact hf
  obtain ⟨f', hf', hcontent⟩ := fwrite_behind hok hbehind
  exact ⟨hok, f', hf', hcontent ▸ List.suffix_append _ _⟩

/-- An archiving opens the file again, whether the rename succeeds or not. -/
theorem archive_opens {cur : Tm} {failSec : Int} {p : Path} (h : WriteSucceeds localtime env data fs)
    (hp : resolve (fs.pathAt localtime env.rotating.opening.now).bytes = some p) :
    OpenAt p (archiveActive localtime env.rotating cur failSec fs w).2 := by
  unfold archiveActive
  simp only
  split
  · obtain ⟨s, ho, hs, -⟩ := open_succeeds { fs with fp := none, renameFailing := true, rotateFailSec := failSec }
      { w with disk := (w.disk.rename env.rotating.renameOk fs.activePath.bytes
        (archiveTarget fs cur env.rotating.listing)).1 } h.mkdir h.opens hp
    simp only [ho]
    split
    · exact hs
    · exact hs
  · obtain ⟨s, ho, hs, size, hfs⟩ := open_succeeds { fs with fp := none, renameFailing := false, rotateFailSec := 0 }
      { w with disk := (w.disk.rename env.rotating.renameOk fs.activePath.bytes
        (archiveTarget fs cur env.rotating.listing)).1 } h.mkdir h.opens hp
    simp only [ho]
    refine ⟨hs.1, ?_⟩
    rw [cleanup_spares]
    · exact hs.2
    · intro names hnames m hm ha
      have hdir : s.1.activeDir = fs.dirAt localtime env.rotating.opening.now := by
        rw [hfs]
        rfl
      have harchive : s.1.archive m = fs.archive m := by
        rw [hfs]
        rfl
      have hspares := h.spares names hnames m hm (harchive ▸ ha)
      rw [hp, ← hdir] at hspares
      exact hspares

/-- A rotation that is due opens the file. -/
theorem rotate_opens {incoming : UInt32} {p : Path} (h : WriteSucceeds localtime env data fs)
    (hp : resolve (fs.pathAt localtime env.rotating.opening.now).bytes = some p)
    (hd : fs.due localtime env.rotating.now incoming = true) :
    OpenAt p (hxRotateMaybe localtime env.rotating incoming fs w).2 := by
  unfold hxRotateMaybe
  rw [if_neg (not_not_intro hd)]
  split
  · obtain ⟨s, ho, hs, -⟩ := open_succeeds { fs with fp := none } w h.mkdir h.opens hp
    rw [ho]
    exact hs
  · exact archive_opens h hp

end

/-- A sink without a file stores the next line after the second of the last failure if and only
if a rotation is due. -/
theorem heals_iff {fs : FileSink} {w : World} {env : Writing} {data : Bytes} (hfp : fs.fp = none)
    (hlater : fs.rotateFailSec < env.rotating.now) (h : WriteSucceeds localtime env data fs) :
    LineStored data (fileWrite localtime env data fs w) ↔
      fs.triggered localtime env.rotating.now data.length.toUInt32 = true := by
  rw [← due_later hlater]
  obtain ⟨p, hp⟩ := Option.isSome_iff_exists.mp h.path
  by_cases hd : fs.due localtime env.rotating.now data.length.toUInt32 = true
  · rw [write_due hd]
    exact iff_of_true (fwrite_stored (rotate_opens h hp hd) h.written) hd
  · refine iff_of_false (fun hs => ?_) hd
    have hfailed : (fileWrite localtime env data fs w).1 = .openFileFailed := by
      rw [write_not_due (Bool.eq_false_of_not_eq_true hd)]
      unfold fwriteActive
      rw [hfp]
    have hok := hs.1
    rw [hfailed] at hok
    cases hok

/-! ## A reopening that fails -/

/-- A sink with one line, whose file could not be opened again. -/
def closedSink : Option (FileSink × World) :=
  (sinkSince dailyConfig 10).map fun s => (hxSinkFileReopen january1970 ⟨13, true, false, true⟩ s.1 s.2).2

/-- On the next day it stores lines again. -/
theorem heals_next_day : ∃ s, closedSink = some s ∧
    (LineStored [98] (fileWrite january1970 (writesAt 86400 true) [98] s.1 s.2) ↔
      s.1.triggered january1970 86400 [98].length.toUInt32 = true) := by
  refine ⟨_, rfl, heals_iff rfl ?_ ⟨rfl, rfl, ?_, ?_, fun names hnames m hm => ?_⟩⟩
  · decide +kernel
  · decide +kernel
  · decide
  · cases hnames
    cases hm

/-- Until then it drops them. -/
theorem reopening_never_healed : ∃ s, closedSink = some s ∧ s.1.fp = none ∧ s.1.rotateFailSec < 14 ∧
    WriteSucceeds january1970 (writesAt 14 true) [98] s.1 ∧
    ¬LineStored [98] (fileWrite january1970 (writesAt 14 true) [98] s.1 s.2) := by
  refine ⟨_, rfl, rfl, ?_, ⟨rfl, rfl, ?_, ?_, fun names hnames m hm => ?_⟩, fun h => ?_⟩
  · decide +kernel
  · decide +kernel
  · decide
  · cases hnames
    cases hm
  · have hok := h.1
    revert hok
    decide +kernel

end HxClog
