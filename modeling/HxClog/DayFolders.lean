import HxClog.NamesSound
import HxClog.Retry

/-!
# Folders for days

With `date_subdir` the active file lies in a folder named after the day on which it was
opened. A line lands in the folder of its own day if the file was opened on that day.
-/

namespace HxClog

open C Posix Scan

/-! ## Paths -/

/-- A directory with what separates it from the names in it. -/
def withSlash (dir : Bytes) : Bytes :=
  if dir ≠ [] ∧ dir.getLast? ≠ some slash ∧ dir.getLast? ≠ some (chr '\\') then dir ++ [slash] else dir

/-- `<log_dir>/<YYYY-MM-DD>`. -/
def dayFolder (dir : Bytes) (tm : Tm) : Bytes := withSlash dir ++ dateText tm

/-- Neither kind of slash. -/
def Plain (s : Bytes) : Prop := ∀ c ∈ s, c ≠ slash ∧ c ≠ chr '\\'

theorem plain_digits {s : Bytes} (h : ∀ c ∈ s, isDigit c) : Plain s := by
  intro c hc
  have hd := h c hc
  refine ⟨?_, ?_⟩ <;>
  · rintro rfl
    revert hd
    decide

theorem plain_dash {s : Bytes} (h : Plain s) : Plain (chr '-' :: s) := by
  intro c hc
  rcases List.mem_cons.mp hc with rfl | hc
  · decide
  · exact h c hc

theorem plain_append {s t : Bytes} (hs : Plain s) (ht : Plain t) : Plain (s ++ t) := by
  intro c hc
  rcases List.mem_append.mp hc with hc | hc
  · exact hs c hc
  · exact ht c hc

theorem plain_padInt (width : Nat) (v : Int) : Plain (padInt width v) := by
  unfold padInt
  split
  · exact plain_dash (plain_digits (padded_digit _ _))
  · exact plain_digits (padded_digit _ _)

theorem plain_date (tm : Tm) : Plain (dateText tm) :=
  plain_append (plain_padInt 4 _) (plain_dash (plain_append (plain_padInt 2 _) (plain_dash (plain_padInt 2 _))))

theorem date_ne_nil (tm : Tm) : dateText tm ≠ [] := by
  unfold dateText
  simp

/-- What stands in front of the next slash. -/
theorem plain_unique {s t u v : Bytes} (hs : Plain s) (ht : Plain t) (h : s ++ slash :: u = t ++ slash :: v) : s = t := by
  have hstop : ∀ {s u : Bytes}, Plain s → (s ++ slash :: u).takeWhile (· ≠ slash) = s := by
    intro s u hs
    refine takeWhile_append_stop (fun c hc => ?_) ?_
    · simpa using (hs c hc).1
    · simp
  rw [← hstop hs (u := u), h, hstop ht]

theorem joinPath_bytes {dir : Bytes} (h : dir.length < pathMax) (name : Bytes) :
    (joinPath pathMax dir name).bytes = cut pathMax (withSlash dir ++ name) := by
  unfold joinPath withSlash
  rw [cut_of_lt h]
  rfl

theorem withSlash_plain {dir s : Bytes} (hs : Plain s) (hne : s ≠ []) : withSlash (dir ++ s) = dir ++ s ++ [slash] := by
  obtain ⟨init, c, rfl⟩ := List.eq_nil_or_concat s |>.resolve_left hne
  obtain ⟨hc, hb⟩ := hs c (by simp)
  have hlast : (dir ++ init.concat c).getLast? = some c := by simp
  unfold withSlash
  rw [if_pos]
  rw [hlast]
  refine ⟨by simp, ?_, ?_⟩
  · simpa using hc
  · simpa using hb

theorem withSlash_extends (s : Bytes) : ∃ z, withSlash s = s ++ z := by
  unfold withSlash
  split
  · exact ⟨[slash], rfl⟩
  · exact ⟨[], (List.append_nil s).symm⟩

theorem cut_full {cap : Nat} {s t : Bytes} (h : cap - 1 ≤ s.length) : cut cap (cut cap s ++ t) = cut cap s := by
  unfold cut
  rw [List.take_append_of_le_length (by rw [List.length_take]; omega), List.take_take, min_self]

/-- The name of the active file stands behind the folder's, unless there is no room for it. -/
theorem path_in_folder {cap : Nat} {folder base : Bytes} (hs : withSlash folder = folder ++ [slash])
    (h : cut cap (withSlash (cut cap folder) ++ base) ≠ cut cap folder) :
    ∃ rest, cut cap (withSlash (cut cap folder) ++ base) = folder ++ slash :: rest := by
  by_cases hlen : folder.length < cap - 1
  · have hcut : cut cap folder = folder := cut_of_lt (by omega)
    refine ⟨base.take (cap - 1 - (folder.length + 1)), ?_⟩
    rw [hcut, hs]
    unfold cut
    rw [List.take_append, List.take_of_length_le (by simp; omega)]
    simp
  · obtain ⟨z, hz⟩ := withSlash_extends (cut cap folder)
    rw [hz, List.append_assoc, cut_full (by omega)] at h
    exact absurd rfl h

/-! ## Opening the file again -/

variable {localtime : Int → Tm}

/-- A call that closed the file of `fs` and opened it at `now`. -/
def Reopened (localtime : Int → Tm) (fs : FileSink) (now : Int) (fs' : FileSink) : Prop :=
  ∃ p size failing sec, resolve (fs.pathAt localtime now).bytes = some p ∧
    fs' = { fs.openedAt localtime now p size with renameFailing := failing, rotateFailSec := sec }

section
variable {o : Opening} {fs fs' : FileSink} {w : World}

/-- Opening leaves no stream unless it succeeds. -/
theorem open_cases (localtime : Int → Tm) (o : Opening) (w : World) {fs : FileSink} (hfp : fs.fp = none) :
    (∃ fs' w', hxFileOpenActive localtime o fs w = (.ok, fs', w') ∧ Reopened localtime fs o.now fs') ∨
    (∃ fs' w', hxFileOpenActive localtime o fs w = (.openFileFailed, fs', w') ∧ fs'.fp = none) := by
  cases hr : hxFileOpenActive localtime o fs w with
  | mk st r =>
    by_cases hst : st = .ok
    · subst hst
      obtain ⟨p, size, hp, hfs, -⟩ := open_ok hr
      exact .inl ⟨r.1, r.2, rfl, p, size, fs.renameFailing, fs.rotateFailSec, hp, hfs⟩
    · right
      refine ⟨r.1, r.2, ?_, ?_⟩
      all_goals
        unfold hxFileOpenActive at hr
        simp only at hr
        split at hr
        · cases hr
          first | rfl | exact hfp
        · split at hr
          · cases hr
            first | rfl | assumption
          · cases hr
            exact absurd rfl hst

/-- A stream after a call that opened the file again shows that this succeeded. -/
theorem reopen_reopened (h : (hxSinkFileReopen localtime o fs w).2.1.fp.isSome = true) :
    Reopened localtime fs o.now (hxSinkFileReopen localtime o fs w).2.1 := by
  unfold hxSinkFileReopen at h ⊢
  have hfp : { fs with fp := none }.fp = none := rfl
  rcases open_cases localtime o w hfp with ⟨fs', w', ho, hre⟩ | ⟨fs', w', ho, hnone⟩
  · rw [ho]
    exact hre
  · rw [ho, hnone] at h
    cases h

variable {env : Rotating} {cur : Tm} {failSec : Int} {incoming : UInt32}

/-- Whether or not the rename succeeds, the file is opened again. -/
theorem archive_reopened (h : (archiveActive localtime env cur failSec fs w).2.1.fp.isSome = true) :
    Reopened localtime fs env.opening.now (archiveActive localtime env cur failSec fs w).2.1 := by
  unfold archiveActive at h ⊢
  simp only at h ⊢
  generalize hw : w.disk.rename env.renameOk fs.activePath.bytes (archiveTarget fs cur env.listing) = r at h ⊢
  by_cases hren : r.2 = true
  · rw [if_neg (by simp [hren])] at h ⊢
    have hfp : { fs with fp := none, renameFailing := false, rotateFailSec := 0 }.fp = none := rfl
    rcases open_cases localtime env.opening { w with disk := r.1 } hfp with
      ⟨fs', w', ho, p, size, failing, sec, hp, hfs⟩ | ⟨fs', w', ho, hnone⟩
    · simp only [ho]
      refine ⟨p, 0, failing, sec, hp, ?_⟩
      rw [hfs]
      rfl
    · simp only [ho, hnone] at h
      cases h
  · rw [if_pos hren] at h ⊢
    have hfp : { fs with fp := none, renameFailing := true, rotateFailSec := failSec }.fp = none := rfl
    rcases open_cases localtime env.opening { w with disk := r.1 } hfp with
      ⟨fs', w', ho, hre⟩ | ⟨fs', w', ho, hnone⟩
    · simp only [ho]
      exact hre
    · simp only [ho, hnone] at h
      cases h

theorem rotate_reopened (hd : fs.due localtime env.now incoming = true)
    (h : (hxRotateMaybe localtime env incoming fs w).2.1.fp.isSome = true) :
    Reopened localtime fs env.opening.now (hxRotateMaybe localtime env incoming fs w).2.1 := by
  unfold hxRotateMaybe at h ⊢
  rw [if_neg (by simp [hd])] at h ⊢
  by_cases hroll : (fs.dateSubdir && fs.needDaily (localtime env.now)) = true
  · rw [if_pos hroll] at h ⊢
    have hfp : { fs with fp := none }.fp = none := rfl
    rcases open_cases localtime env.opening w hfp with
      ⟨fs', w', ho, p, size, failing, sec, hp, hfs⟩ | ⟨fs', w', ho, hnone⟩
    · simp only [ho]
      refine ⟨p, 0, failing, sec, hp, ?_⟩
      rw [hfs]
      rfl
    · simp only [ho, hnone] at h
      cases h
  · rw [if_neg hroll] at h ⊢
    exact archive_reopened h

end

/-! ## Where a write goes -/

/-- The active file stands where the sink opened it at `openedSec`. -/
structure Placed (localtime : Int → Tm) (fs : FileSink) : Prop where
  subdir : fs.dateSubdir = true
  stream : fs.fp = resolve fs.activePath.bytes
  opened : fs.fp.isSome = true
  path : fs.activePath = fs.pathAt localtime fs.openedSec
  dir : fs.activeDir = fs.dirAt localtime fs.openedSec
  file : fs.activePath.bytes ≠ fs.activeDir.bytes
  year : fs.curYear = (localtime fs.openedSec).year
  yday : fs.curYday = (localtime fs.openedSec).yday

/-- The name of the folder for a file opened at `opened` is the date of `now`. -/
def SameDate (localtime : Int → Tm) (now opened : Int) : Prop :=
  dateText (localtime now) = cut 16 (dateText (localtime opened))

instance (now opened : Int) : Decidable (SameDate localtime now opened) := inferInstanceAs (Decidable (_ = _))

/-- What `fwriteActive` appends to lies under the folder of `tm`. -/
def LiesUnder (dir : Bytes) (tm : Tm) (fs : FileSink) : Prop :=
  ∃ p, fs.fp = some p ∧ resolve fs.activePath.bytes = some p ∧ dayFolder dir tm ++ [slash] <+: fs.activePath.bytes

theorem placed_path {fs : FileSink} (h : Placed localtime fs) : ∃ rest, fs.activePath.bytes =
    withSlash fs.dir.bytes ++ cut 16 (dateText (localtime fs.openedSec)) ++ slash :: rest := by
  have hplain : Plain (cut 16 (dateText (localtime fs.openedSec))) :=
    fun c hc => plain_date _ c (List.mem_of_mem_take hc)
  have hne : cut 16 (dateText (localtime fs.openedSec)) ≠ [] := by
    unfold cut
    simp [date_ne_nil]
  have hdir : fs.activeDir.bytes = cut pathMax (withSlash fs.dir.bytes ++ cut 16 (dateText (localtime fs.openedSec))) := by
    rw [h.dir, FileSink.dirAt, if_pos h.subdir, joinPath_bytes fs.dir.fits]
  have hpath : fs.activePath.bytes = cut pathMax (withSlash fs.activeDir.bytes ++ fs.baseName.bytes) := by
    have hat := joinPath_bytes fs.activeDir.fits fs.baseName.bytes
    rw [← hat, h.path, FileSink.pathAt, ← h.dir]
  have hfile := h.file
  rw [hpath, hdir] at hfile
  rw [hpath, hdir]
  exact path_in_folder (withSlash_plain hplain hne) hfile

/-- The file of a sink lies under the folders of the date on which it was opened, and no other. -/
theorem placed_lies_under {fs : FileSink} (h : Placed localtime fs) (now : Int) :
    LiesUnder fs.dir.bytes (localtime now) fs ↔ SameDate localtime now fs.openedSec := by
  obtain ⟨rest, hpath⟩ := placed_path h
  constructor
  · rintro ⟨p, -, -, v, hv⟩
    rw [hpath] at hv
    unfold dayFolder at hv
    simp only [List.append_assoc, List.singleton_append, List.append_cancel_left_eq] at hv
    exact plain_unique (plain_date _) (fun c hc => plain_date _ c (List.mem_of_mem_take hc)) hv
  · intro hsame
    obtain ⟨p, hp⟩ := Option.isSome_iff_exists.mp h.opened
    refine ⟨p, hp, h.stream.symm.trans hp, rest, ?_⟩
    rw [hpath, ← show dateText (localtime now) = _ from hsame]
    unfold dayFolder
    simp

theorem placed_reopened {fs fs' : FileSink} {now : Int} (hsub : fs.dateSubdir = true)
    (h : Reopened localtime fs now fs') (hfile : fs'.activePath.bytes ≠ fs'.activeDir.bytes) :
    Placed localtime fs' ∧ fs'.dir = fs.dir ∧ fs'.openedSec = now := by
  obtain ⟨p, size, failing, sec, hp, rfl⟩ := h
  exact ⟨⟨hsub, hp.symm, rfl, rfl, rfl, hfile, rfl, rfl⟩, rfl, rfl⟩

theorem Placed.wrote {fs : FileSink} (h : Placed localtime fs) (env : Writing) (data : Bytes) (w : World) :
    Placed localtime (fwriteActive env data fs w).2.1 := by
  obtain ⟨size, failing, heq⟩ := fwrite_keeps env data fs w
  rw [heq]
  exact ⟨h.subdir, h.stream, h.opened, h.path, h.dir, h.file, h.year, h.yday⟩

/-! ## Runs -/

/-- A call on a file sink. `called` is when `file_write` is called. -/
inductive SinkCall where
  | write (called : Int) (env : Writing) (data : Bytes)
  | reopen (o : Opening)

def sinkStep (localtime : Int → Tm) (s : FileSink × World) : SinkCall → FileSink × World
  | .write _ env data => (fileWrite localtime env data s.1 s.2).2
  | .reopen o => (hxSinkFileReopen localtime o s.1 s.2).2

/-- The active file is open. A directory cannot be opened for writing. -/
def HasFile (s : FileSink × World) : Prop := s.1.fp.isSome = true ∧ s.1.activePath.bytes ≠ s.1.activeDir.bytes

instance (s : FileSink × World) : Decidable (HasFile s) := inferInstanceAs (Decidable (_ ∧ _))

/-- The calls that do not lose the active file. -/
def openStep (localtime : Int → Tm) (s : FileSink × World) (c : SinkCall) : Option (FileSink × World) :=
  if HasFile (sinkStep localtime s c) then some (sinkStep localtime s c) else none

theorem openStep_of_file {s : FileSink × World} {c : SinkCall} (h : HasFile (sinkStep localtime s c)) :
    openStep localtime s c = some (sinkStep localtime s c) := if_pos h

/-- A write that rotates does so on the date of the call, any other comes on the date on which
the file was opened. -/
def Timely (localtime : Int → Tm) (fs : FileSink) (called : Int) (env : Writing) (data : Bytes) : Prop :=
  SameDate localtime called
    (if fs.due localtime env.rotating.now data.length.toUInt32 then env.rotating.opening.now else fs.openedSec)

instance (fs : FileSink) (called : Int) (env : Writing) (data : Bytes) : Decidable (Timely localtime fs called env data) :=
  inferInstanceAs (Decidable (SameDate ..))

section
variable {s s' : FileSink × World} {called : Int} {env : Writing} {data : Bytes}

/-- Where one write goes. -/
theorem write_placed (h : Placed localtime s.1) (hfile : HasFile (fileWrite localtime env data s.1 s.2).2) :
    Placed localtime (fileWrite localtime env data s.1 s.2).2.1 ∧
      (fileWrite localtime env data s.1 s.2).2.1.dir = s.1.dir ∧
      (fileWrite localtime env data s.1 s.2).2.1.openedSec =
        if s.1.due localtime env.rotating.now data.length.toUInt32 then env.rotating.opening.now else s.1.openedSec := by
  by_cases hd : s.1.due localtime env.rotating.now data.length.toUInt32 = true
  · rw [write_due hd] at hfile ⊢
    simp only [hd, if_true] at hfile ⊢
    generalize hr : hxRotateMaybe localtime env.rotating data.length.toUInt32 s.1 s.2 = r at hfile ⊢
    obtain ⟨size, failing, heq⟩ := fwrite_keeps env data r.2.1 r.2.2
    have hopen : r.2.1.fp.isSome = true := by simpa [heq] using hfile.1
    have hpath : r.2.1.activePath.bytes ≠ r.2.1.activeDir.bytes := by simpa [heq] using hfile.2
    rw [← hr] at hopen hpath
    obtain ⟨hp, hdir, hsec⟩ := placed_reopened h.subdir (rotate_reopened hd hopen) hpath
    rw [hr] at hp hdir hsec
    refine ⟨hp.wrote env data r.2.2, ?_, ?_⟩
    · rw [heq]
      exact hdir
    · rw [heq]
      exact hsec
  · rw [Bool.not_eq_true] at hd
    rw [write_not_due hd] at hfile ⊢
    obtain ⟨size, failing, heq⟩ := fwrite_keeps env data s.1 s.2
    refine ⟨h.wrote env data s.2, ?_, ?_⟩
    · rw [heq]
    · rw [heq, hd]
      rfl

theorem placed_step {c : SinkCall} (h : Placed localtime s.1) (hs : openStep localtime s c = some s') :
    Placed localtime s'.1 ∧ s'.1.dir = s.1.dir := by
  unfold openStep at hs
  split at hs
  · rename_i hfile
    cases hs
    cases c with
    | write called env data =>
      obtain ⟨hp, hdir, -⟩ := write_placed h hfile
      exact ⟨hp, hdir⟩
    | reopen o =>
      obtain ⟨hp, hdir, -⟩ := placed_reopened h.subdir (reopen_reopened hfile.1) hfile.2
      exact ⟨hp, hdir⟩
  · cases hs

theorem placed_run {calls : List SinkCall} (h : Placed localtime s.1)
    (hr : Transition.run (openStep localtime) s calls = some s') : Placed localtime s'.1 ∧ s'.1.dir = s.1.dir := by
  refine Transition.run_invariant (I := fun t => Placed localtime t.1 ∧ t.1.dir = s.1.dir) ?_ calls s s' ⟨h, rfl⟩ hr
  intro t c t' ht hst
  obtain ⟨hp, hdir⟩ := placed_step ht.1 hst
  exact ⟨hp, hdir.trans ht.2⟩

variable {create : Creating} {dir fileName : Option Bytes} {cfg : FileConfig} {w : World}

theorem placed_created (hc : hxSinkFileCreate localtime create dir fileName (some cfg) w = some s)
    (hsub : cfg.dateSubdir = true) (hfile : HasFile s) : Placed localtime s.1 := by
  unfold hxSinkFileCreate at hc
  split at hc
  · cases hc
  · have hfp : (newFileSink dir fileName (some cfg)).fp = none := rfl
    rcases open_cases localtime create.opening w hfp with ⟨fs, w', ho, hre⟩ | ⟨fs, w', ho, -⟩
    · have hfs : fs.dateSubdir = true := by
        obtain ⟨p, size, failing, sec, -, rfl⟩ := hre
        exact hsub
      simp only [ho] at hc
      split at hc
      · rename_i hstart
        have hopen : fs.fp.isNone = false := by
          obtain ⟨p, size, failing, sec, -, rfl⟩ := hre
          rfl
        have hsize : ¬fs.currentSize = 0 := by
          have := hstart.2
          rintro hzero
          simp [hzero] at this
        have hforce : hxRotateForce localtime create.rotating create.time fs w' = archiveActive localtime create.rotating
            (localtime (if 0 < fs.openedSec then fs.openedSec else create.time)) create.time fs w' := by
          unfold hxRotateForce
          rw [if_neg (by simp [hopen, hsize])]
        rw [hforce] at hc
        cases hc
        exact (placed_reopened hfs (archive_reopened hfile.1) hfile.2).1
      · cases hc
        exact (placed_reopened hsub hre hfile.2).1
    · simp only [ho] at hc
      cases hc

/-- In every run with open files a line goes under the folder of its date if and only if its
write is timely. -/
theorem day_folder_iff (hc : hxSinkFileCreate localtime create dir fileName (some cfg) w = some s)
    (hsub : cfg.dateSubdir = true) (hfile : HasFile s) (calls : List SinkCall)
    (hr : Transition.run (openStep localtime) s calls = some s')
    (hwrite : HasFile (fileWrite localtime env data s'.1 s'.2).2) :
    LiesUnder s.1.dir.bytes (localtime called) (fileWrite localtime env data s'.1 s'.2).2.1 ↔
      Timely localtime s'.1 called env data := by
  obtain ⟨hplaced, hdir⟩ := placed_run (placed_created hc hsub hfile) hr
  obtain ⟨hp, hsame, hsec⟩ := write_placed hplaced hwrite
  rw [← hdir, ← hsame, placed_lies_under hp, hsec]
  rfl

end

/-! ## Sinks that look at the day -/

/-- The text of a date that fits into its buffer, for two times of one day. -/
def Calendar (localtime : Int → Tm) : Prop := ∀ a b, SameDay localtime a b → SameDate localtime a b

/-- A sink that compares the day puts every line into the right folder, except around midnight. -/
theorem timely_of_looks {fs : FileSink} {called : Int} {env : Writing} {data : Bytes} (hcal : Calendar localtime)
    (h : Placed localtime fs) (hlooks : fs.looksAtDay = true) (hfail : fs.rotateFailSec = 0)
    (hnow : SameDay localtime called env.rotating.now) (hopen : SameDay localtime called env.rotating.opening.now) :
    Timely localtime fs called env data := by
  refine hcal _ _ ?_
  by_cases hd : fs.due localtime env.rotating.now data.length.toUInt32 = true
  · rw [if_pos hd]
    exact hopen
  · rw [if_neg hd]
    have hdaily : ¬fs.needDaily (localtime env.rotating.now) = true := by
      intro hneed
      apply hd
      simp [FileSink.due, FileSink.deferred, hfail, hneed]
    rw [needDaily_iff, h.year, h.yday, not_and, not_not] at hdaily
    obtain ⟨hy, hday⟩ := hdaily hlooks
    exact ⟨hnow.1.trans hy, hnow.2.trans hday⟩

/-! ## A sink that does not -/

/-- `date_subdir = 1` under `rotate_policy = NONE`. -/
def subdirConfig : FileConfig := { FileConfig.absent with dateSubdir := true }

def subdirSink (now : Int) : Option (FileSink × World) :=
  hxSinkFileCreate january1970 ⟨true, true, succeedsAt now, rotatesAt now true, now⟩ (some (lit "l")) (some (lit "a"))
    (some subdirConfig) emptyWorld

/-- A second line of the day. -/
theorem day_folder_second : ∃ s s', subdirSink 10 = some s ∧
    Transition.run (openStep january1970) s [.write 20 (writesAt 20 true) [97]] = some s' ∧
    (LiesUnder s.1.dir.bytes (january1970 30) (fileWrite january1970 (writesAt 30 true) [98] s'.1 s'.2).2.1 ↔
      Timely january1970 s'.1 30 (writesAt 30 true) [98]) := by
  have hc : subdirSink 10 = some ((subdirSink 10).get (by decide +kernel)) := Option.some_get _ |>.symm
  have hrun := Transition.run_snoc (Transition.run_nil (openStep january1970) _)
    (openStep_of_file (s := (subdirSink 10).get (by decide +kernel)) (c := .write 20 (writesAt 20 true) [97])
      (by decide +kernel))
  have hsub : subdirConfig.dateSubdir = true := rfl
  exact ⟨_, _, hc, hrun, day_folder_iff hc hsub (by decide +kernel) _ hrun (by decide +kernel)⟩

/-- Ten seconds before midnight the sink is created, and at midnight it writes into the folder
of the day before. -/
theorem day_folder_stays : ∃ s, subdirSink 86390 = some s ∧ HasFile s ∧
    HasFile (fileWrite january1970 (writesAt 86400 true) [97] s.1 s.2).2 ∧
    ¬LiesUnder s.1.dir.bytes (january1970 86400) (fileWrite january1970 (writesAt 86400 true) [97] s.1 s.2).2.1 := by
  refine ⟨_, rfl, by decide +kernel, by decide +kernel, ?_⟩
  rintro ⟨p, -, -, hpre⟩
  revert hpre
  decide +kernel

end HxClog
