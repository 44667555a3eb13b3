import HxClog.Logbook

/-!
# The history is that of the files

In every run whose renames go elsewhere the active file and every archive hold what the
history says they do. A line goes to the active file, or a rotation is due and it is the
first of a new one.
-/

namespace HxClog

open C Posix

variable {localtime : Int → Tm}

/-- The history says what the files hold. -/
structure Logbook.Kept (localtime : Int → Tm) (b : Logbook) : Prop where
  home : Home localtime b.sink.1
  size : SizeTrue b.sink
  text : ∀ f, fileBehind b.sink = some f → f.content = b.found ++ textOf b.lines
  archived : ∀ a ∈ b.archives, a.content = a.found ++ textOf a.lines

/-! ## Rotations -/

section
variable {fs fs' : FileSink} {w w' : World} {env : Rotating} {cur : Tm} {failSec : Int}

theorem active_content (h : Home localtime fs) {f : File} (hf : fileBehind (fs, w) = some f) :
    contentAt w.disk fs.activePath.bytes = f.content := by
  unfold fileBehind at hf
  rw [h.fp] at hf
  unfold contentAt Disk.file
  rw [hf]
  rfl

/-- The renamed file is no longer there. -/
theorem renamed_away {d : Disk} {ok : Bool} {src dst : Bytes} (h : (d.rename ok src dst).2 = true)
    (hne : resolve dst ≠ resolve src) : contentAt (d.rename ok src dst).1 src = [] := by
  obtain ⟨p, q, f, hp, hq, -, hdisk⟩ := rename_ok h
  have hpq : p ≠ q := by
    rintro rfl
    exact hne (hq.trans hp.symm)
  rw [contentAt_resolve hp, hdisk, Finmap.lookup_insert_of_ne _ hpq, Finmap.lookup_erase]
  rfl

theorem archive_clear (hh : Home localtime fs) (h : archiveActive localtime env cur failSec fs w = (.ok, fs', w'))
    (hsize : env.opening.sizeOk = true)
    (hne : resolve (archiveTarget fs cur env.listing) ≠ resolve fs.activePath.bytes) (hc : CleanupSpares localtime env fs) :
    ArchivesClear localtime env cur fs w := by
  refine ⟨?_, hc⟩
  rw [hh.pathAt]
  exact renamed_away (archive_disk h hsize).1 hne

/-- After a rotation the sink is home, and its settings are what they were. -/
theorem archive_home (hh : Home localtime fs) (h : archiveActive localtime env cur failSec fs w = (.ok, fs', w')) :
    Home localtime fs' ∧ fs'.settings = fs.settings ∧ fs'.openedSec = env.opening.now := by
  obtain ⟨p, hp, rfl⟩ := archive_ok h
  exact ⟨@openedAt_home _ { fs with renameFailing := false, rotateFailSec := 0 } _ _ 0 hh.flat rfl hp, rfl, rfl⟩

theorem fwrite_home {wr : Writing} {data : Bytes} (hh : Home localtime fs) (h : (fwriteActive wr data fs w).1 = .ok) :
    Home localtime (fwriteActive wr data fs w).2.1 ∧ (fwriteActive wr data fs w).2.1.settings = fs.settings ∧
      (fwriteActive wr data fs w).2.1.openedSec = fs.openedSec := by
  obtain ⟨p, -, heq⟩ := fwrite_ok h
  rw [heq]
  exact ⟨⟨hh.flat, hh.dir, hh.path, hh.fp, hh.year, hh.yday, hh.failSec⟩, rfl, rfl⟩

end

/-! ## Targets -/

section
variable {s : FileSink × World} {env : Rotating} {incoming : UInt32} {wr : Writing} {data : Bytes}

theorem target_flat (h : s.1.dateSubdir = false) : (FileCall.write wr data).target localtime s =
    if s.1.due localtime wr.rotating.now data.length.toUInt32 = true then
      some (archiveTarget s.1 (s.1.archiveDate localtime wr.rotating.now) wr.rotating.listing) else none := by
  show renameTarget localtime wr.rotating data.length.toUInt32 s.1 = _
  unfold renameTarget
  rw [h, Bool.false_and, Bool.not_false, Bool.and_true]

theorem rotate_flat (h : s.1.dateSubdir = false) (hd : s.1.due localtime env.now incoming = true) :
    hxRotateMaybe localtime env incoming s.1 s.2 =
      archiveActive localtime env (s.1.archiveDate localtime env.now) env.now s.1 s.2 := by
  unfold hxRotateMaybe
  rw [if_neg (not_not_intro hd), h, Bool.false_and, if_neg Bool.false_ne_true]

/-- A write that succeeds and rotates is an archiving that succeeds and a write to the new file. -/
theorem write_archives (hflat : s.1.dateSubdir = false) (hs : (FileCall.write wr data).Succeeds localtime s)
    (hd : s.1.due localtime wr.rotating.now data.length.toUInt32 = true) :
    ∃ t : FileSink × World, archiveActive localtime wr.rotating (s.1.archiveDate localtime wr.rotating.now) wr.rotating.now
        s.1 s.2 = (.ok, t) ∧
      (FileCall.write wr data).run localtime s = fwriteActive wr data t.1 t.2 := by
  obtain ⟨-, -, hrotate, -⟩ := hs
  rw [rotate_flat hflat hd] at hrotate
  cases ha : archiveActive localtime wr.rotating (s.1.archiveDate localtime wr.rotating.now) wr.rotating.now s.1 s.2 with
  | mk st t =>
    rw [ha] at hrotate
    obtain rfl : st = .ok := hrotate
    refine ⟨t, rfl, ?_⟩
    show fileWrite localtime wr data s.1 s.2 = _
    rw [write_due hd, rotate_flat hflat hd, ha]

/-- With a target a forced rotation is an archiving that succeeds. -/
theorem force_archives {time : Int} (hs : (FileCall.force env time).Succeeds localtime s)
    (hopen : ¬(s.1.fp.isNone = true ∨ s.1.currentSize = 0)) :
    ∃ t : FileSink × World, archiveActive localtime env ((Rotation.force time).date localtime env.now s.1) time s.1 s.2 =
        (.ok, t) ∧ (FileCall.force env time).run localtime s = (.ok, t) := by
  obtain ⟨hok, -, -⟩ := hs
  have hrun : (FileCall.force env time).run localtime s =
      archiveActive localtime env ((Rotation.force time).date localtime env.now s.1) time s.1 s.2 := by
    show hxRotateForce localtime env time s.1 s.2 = _
    unfold hxRotateForce
    rw [if_neg hopen]
    rfl
  rw [hrun] at hok ⊢
  cases ha : archiveActive localtime env ((Rotation.force time).date localtime env.now s.1) time s.1 s.2 with
  | mk st t =>
    rw [ha] at hok
    obtain rfl : st = .ok := hok
    exact ⟨t, rfl, rfl⟩

/-- Where the renames go elsewhere, whatever file a rotation opens is new. -/
theorem Home.clear {c : FileCall} (h : Home localtime s.1) (hs : c.Succeeds localtime s) (ha : c.Apart localtime s) :
    c.Clear localtime s := by
  cases c with
  | write env data =>
    intro hd
    rw [h.flat, Bool.false_and, if_neg Bool.false_ne_true]
    obtain ⟨hne, hspares⟩ := ha _ ((target_flat h.flat).trans (if_pos hd))
    obtain ⟨t, harchive, -⟩ := write_archives h.flat hs hd
    exact archive_clear h harchive hs.2.2.2.1 hne hspares
  | reopen o => trivial
  | force env time =>
    intro hopen hsize
    have hno : ¬(s.1.fp.isNone = true ∨ s.1.currentSize = 0) := by
      rw [not_or]
      exact ⟨by simpa [Option.isSome_iff_ne_none] using hopen, hsize⟩
    obtain ⟨hne, hspares⟩ := ha _ (if_neg hno)
    obtain ⟨t, harchive, -⟩ := force_archives hs hno
    exact archive_clear h harchive hs.2.2 hne hspares

end

/-! ## One call -/

namespace Logbook

variable {b b' : Logbook} {env : Writing} {data : Bytes}

theorem step_some {c : FileCall} (h : b.step localtime c = some b') : c.Succeeds localtime b.sink ∧
    b' = { b.moved (c.target localtime b.sink) c.opens with
      sink := (c.run localtime b.sink).2
      lines := (b.moved (c.target localtime b.sink) c.opens).lines ++ c.entries (c.target localtime b.sink).isSome } := by
  unfold step at h
  obtain ⟨s, hs, rfl⟩ := Option.map_eq_some_iff.mp h
  obtain ⟨hok, rfl⟩ := fileStep_some hs
  exact ⟨hok, rfl⟩

/-- The archive that a rename makes of the active file. -/
def archivedAs (b : Logbook) (target : Bytes) : Archived :=
  ⟨target, contentAt b.sink.2.disk b.sink.1.activePath.bytes, b.found, b.lines⟩

theorem moved_away {target : Bytes} {now : Int} (h : resolve target ≠ resolve b.sink.1.activePath.bytes) :
    b.moved (some target) now =
      { b with archives := b.archives ++ [b.archivedAs target], found := [], lines := [], since := now } :=
  if_neg h

theorem Kept.archivedAs {target : Bytes} (hk : b.Kept localtime) :
    (b.archivedAs target).content = (b.archivedAs target).found ++ textOf (b.archivedAs target).lines := by
  obtain ⟨f, hf, -⟩ := hk.size
  exact (active_content hk.home hf).trans (hk.text f hf)

/-- A write that is not due goes to the active file. -/
structure Stays (localtime : Int → Tm) (b b' : Logbook) (env : Writing) (data : Bytes) : Prop where
  due : b.sink.1.due localtime env.rotating.now data.length.toUInt32 = false
  archives : b'.archives = b.archives
  found : b'.found = b.found
  since : b'.since = b.since
  lines : b'.lines = b.lines ++ [⟨data, env.rotating.now⟩]
  opened : b'.sink.1.openedSec = b.sink.1.openedSec

/-- A write that is due makes an archive, and its line is the first of the new file. -/
structure Rotates (localtime : Int → Tm) (b b' : Logbook) (env : Writing) (data : Bytes) : Prop where
  due : b.sink.1.due localtime env.rotating.now data.length.toUInt32 = true
  archives : b'.archives = b.archives ++ [b.archivedAs
    (archiveTarget b.sink.1 (b.sink.1.archiveDate localtime env.rotating.now) env.rotating.listing)]
  found : b'.found = []
  since : b'.since = env.rotating.opening.now
  lines : b'.lines = [⟨data, env.rotating.opening.now⟩]
  opened : b'.sink.1.openedSec = env.rotating.opening.now

/-- What a write can do. -/
theorem write_cases (hh : Home localtime b.sink.1) (h : b.step localtime (.write env data) = some b')
    (ha : (FileCall.write env data).Apart localtime b.sink) :
    (Stays localtime b b' env data ∨ Rotates localtime b b' env data) ∧
      Home localtime b'.sink.1 ∧ b'.sink.1.settings = b.sink.1.settings := by
  obtain ⟨hs, rfl⟩ := step_some h
  have htarget := @target_flat localtime b.sink env data hh.flat
  by_cases hd : b.sink.1.due localtime env.rotating.now data.length.toUInt32 = true
  · rw [if_pos hd] at htarget
    obtain ⟨t, harchive, hrun⟩ := write_archives hh.flat hs hd
    obtain ⟨hhome, hset, hopened⟩ := archive_home hh harchive
    have hok := hs.1
    rw [hrun] at hok
    obtain ⟨hhome', hset', hopened'⟩ := fwrite_home hhome hok
    simp only [htarget, moved_away (ha _ htarget).1, hrun]
    exact ⟨.inr ⟨hd, rfl, rfl, rfl, rfl, hopened'.trans hopened⟩, hhome', hset'.trans hset⟩
  · rw [if_neg hd] at htarget
    rw [Bool.not_eq_true] at hd
    have hrun : (FileCall.write env data).run localtime b.sink = fwriteActive env data b.sink.1 b.sink.2 :=
      write_not_due hd
    have hok := hs.1
    rw [hrun] at hok
    obtain ⟨hhome, hset, hopened⟩ := fwrite_home hh hok
    simp only [htarget, hrun]
    exact ⟨.inl ⟨hd, rfl, rfl, rfl, rfl, hopened⟩, hhome, hset⟩

/-- What a reopening leaves. -/
theorem reopen_home {o : Opening} (hh : Home localtime b.sink.1) (h : b.step localtime (.reopen o) = some b') :
    Home localtime b'.sink.1 ∧ b'.sink.1.settings = b.sink.1.settings ∧ b'.sink.1.openedSec = o.now ∧
      b'.archives = b.archives ∧ b'.found = b.found ∧ b'.since = b.since ∧ b'.lines = b.lines := by
  obtain ⟨hs, rfl⟩ := step_some h
  cases ho : hxSinkFileReopen localtime o b.sink.1 b.sink.2 with
  | mk st t =>
    have hok := hs.1
    rw [show (FileCall.reopen o).run localtime b.sink = (st, t) from ho] at hok ⊢
    obtain rfl : st = .ok := hok
    obtain ⟨p, size, hp, hfs, -⟩ := open_ok ho
    have hhome : Home localtime t.1 := by
      rw [hfs]
      exact @openedAt_home _ { b.sink.1 with fp := none } _ _ size hh.flat hh.failSec hp
    have hset : t.1.settings = b.sink.1.settings := by
      rw [hfs]
      rfl
    have hopened : t.1.openedSec = o.now := by
      rw [hfs]
      rfl
    exact ⟨hhome, hset, hopened, rfl, rfl, rfl, List.append_nil _⟩

/-- A rotation on demand archives what is in the file, if anything is. -/
theorem force_cases {env : Rotating} {time : Int} (hh : Home localtime b.sink.1)
    (h : b.step localtime (.force env time) = some b') (ha : (FileCall.force env time).Apart localtime b.sink) :
    b' = b ∨ (Home localtime b'.sink.1 ∧ b'.sink.1.settings = b.sink.1.settings ∧ (∃ target,
      b'.archives = b.archives ++ [b.archivedAs target]) ∧ b'.found = [] ∧ b'.lines = [] ∧
        ∃ f, fileBehind b'.sink = some f ∧ f.content = []) := by
  obtain ⟨hs, rfl⟩ := step_some h
  by_cases hopen : b.sink.1.fp.isNone = true ∨ b.sink.1.currentSize = 0
  · left
    have htarget : (FileCall.force env time).target localtime b.sink = none := if_pos hopen
    have hrun : (FileCall.force env time).run localtime b.sink = (.ok, b.sink) := if_pos hopen
    rw [htarget, hrun]
    exact congrArg (fun l => { b with lines := l }) (List.append_nil _)
  · right
    have htarget : (FileCall.force env time).target localtime b.sink =
        some (archiveTarget b.sink.1 ((Rotation.force time).date localtime env.now b.sink.1) env.listing) := if_neg hopen
    obtain ⟨t, harchive, hrun⟩ := force_archives hs hopen
    obtain ⟨hhome, hset, -⟩ := archive_home hh harchive
    have hnew := hh.clear hs ha (by simpa [Option.isSome_iff_ne_none] using (not_or.mp hopen).1) (not_or.mp hopen).2
    rw [htarget, moved_away (ha _ htarget).1, hrun]
    exact ⟨hhome, hset, ⟨_, rfl⟩, rfl, rfl, archive_empty harchive hs.2.2 hnew⟩

/-- After a rotation and a write the file holds the line alone. -/
theorem rotated_text {t : FileSink × World} {cur : Tm} {failSec : Int}
    (h : archiveActive localtime env.rotating cur failSec b.sink.1 b.sink.2 = (.ok, t))
    (hsize : env.rotating.opening.sizeOk = true) (hc : ArchivesClear localtime env.rotating cur b.sink.1 b.sink.2)
    (hok : (fwriteActive env data t.1 t.2).1 = .ok) {f : File} (hf : fileBehind (fwriteActive env data t.1 t.2).2 = some f) :
    f.content = data := by
  obtain ⟨g, hg, hnil⟩ := archive_empty h hsize hc
  obtain ⟨f', hf', hcontent⟩ := fwrite_behind hok hg
  rw [hf] at hf'
  cases hf'
  rw [hcontent, hnil, List.nil_append]

theorem step_text {c : FileCall} (hk : b.Kept localtime) (h : b.step localtime c = some b')
    (ha : c.Apart localtime b.sink) {f : File} (hf : fileBehind b'.sink = some f) : f.content = b'.found ++ textOf b'.lines := by
  have hstep := h
  obtain ⟨hs, hb⟩ := step_some h
  have hclear := hk.home.clear hs ha
  have hsink : b'.sink = (c.run localtime b.sink).2 := congrArg Logbook.sink hb
  rw [hsink] at hf
  obtain ⟨g, hg, -⟩ := hk.size
  have hbefore := hk.text g hg
  cases c with
  | write env data =>
    have hok := hs.1
    obtain ⟨hstays | hrotates, -⟩ := write_cases hk.home hstep ha
    · have hrun : (FileCall.write env data).run localtime b.sink = fwriteActive env data b.sink.1 b.sink.2 :=
        write_not_due hstays.due
      rw [hrun] at hf hok
      obtain ⟨f', hf', hcontent⟩ := fwrite_behind hok hg
      rw [hf] at hf'
      cases hf'
      rw [hcontent, hbefore, hstays.found, hstays.lines, textOf_append, textOf_singleton, List.append_assoc]
    · obtain ⟨t, harchive, hrun⟩ := write_archives hk.home.flat hs hrotates.due
      rw [hrun] at hf hok
      have hnew := hclear hrotates.due
      rw [hk.home.flat, Bool.false_and, if_neg Bool.false_ne_true] at hnew
      rw [hrotates.found, hrotates.lines, textOf_singleton, List.nil_append]
      exact rotated_text harchive hs.2.2.2.1 hnew hok hf
  | reopen o =>
    obtain ⟨-, -, -, -, hfound, -, hlines⟩ := reopen_home hk.home hstep
    rw [hfound, hlines, ← hbefore]
    cases ho : hxSinkFileReopen localtime o b.sink.1 b.sink.2 with
    | mk st t =>
      have hok := hs.1
      rw [show (FileCall.reopen o).run localtime b.sink = (st, t) from ho] at hok hf
      obtain rfl : st = .ok := hok
      obtain ⟨p, f', -, -, hf', hcontent, hfs⟩ := open_spec ho hs.2.2
      have hbehind : fileBehind t = some f' := by
        unfold fileBehind
        rw [hfs]
        exact hf'
      rw [hf] at hbehind
      cases hbehind
      rw [hcontent]
      show contentAt b.sink.2.disk (b.sink.1.pathAt localtime o.now).bytes = _
      rw [hk.home.pathAt]
      exact active_content hk.home hg
  | force env time =>
    rw [← hsink] at hf
    obtain hsame | ⟨-, -, -, hfound, hlines, f', hf', hnil⟩ := force_cases hk.home hstep ha
    · rw [hsame] at hf ⊢
      exact hk.text f hf
    · rw [hf] at hf'
      cases hf'
      rw [hfound, hlines, hnil]
      rfl

theorem step_kept {c : FileCall} (hk : b.Kept localtime) (h : b.step localtime c = some b')
    (ha : c.Apart localtime b.sink) : b'.Kept localtime ∧ b'.sink.1.settings = b.sink.1.settings := by
  obtain ⟨hs, hb⟩ := step_some h
  have hsize : SizeTrue b'.sink := by
    rw [show b'.sink = (c.run localtime b.sink).2 from congrArg Logbook.sink hb]
    exact call_sizeTrue hk.size hs (hk.home.clear hs ha)
  have hmade : ∀ target, ∀ a ∈ b.archives ++ [b.archivedAs target], a.content = a.found ++ textOf a.lines := by
    intro target a ha
    rcases List.mem_append.mp ha with ha | ha
    · exact hk.archived a ha
    · rw [List.mem_singleton] at ha
      subst ha
      exact hk.archivedAs
  have htext := fun f => step_text hk h ha (f := f)
  cases c with
  | write env data =>
    obtain ⟨hcases, hhome, hset⟩ := write_cases hk.home h ha
    refine ⟨⟨hhome, hsize, htext, ?_⟩, hset⟩
    rcases hcases with hstays | hrotates
    · rw [hstays.archives]
      exact hk.archived
    · rw [hrotates.archives]
      exact hmade _
  | reopen o =>
    obtain ⟨hhome, hset, -, harchives, -⟩ := reopen_home hk.home h
    exact ⟨⟨hhome, hsize, htext, harchives ▸ hk.archived⟩, hset⟩
  | force env time =>
    obtain hsame | ⟨hhome, hset, ⟨target, harchives⟩, -⟩ := force_cases hk.home h ha
    · exact ⟨hsame ▸ hk, congrArg (fun b : Logbook => b.sink.1.settings) hsame⟩
    · exact ⟨⟨hhome, hsize, htext, harchives ▸ hmade target⟩, hset⟩

/-! ## The start -/

/-- A sink that has just opened its file. -/
theorem opened_kept {o : Opening} {dir fileName : Option Bytes} {cfg : FileConfig} {w : World} {s : FileSink × World}
    (ho : hxFileOpenActive localtime o (newFileSink dir fileName (some cfg)) w = (.ok, s)) (hsize : o.sizeOk = true)
    (hbound : ∀ f, fileBehind s = some f → f.content.length < 2 ^ 63) (hflat : cfg.dateSubdir = false) :
    (opened o.now (contentAt w.disk ((newFileSink dir fileName (some cfg)).pathAt localtime o.now).bytes) s).Kept
      localtime where
  home := by
    obtain ⟨p, size, hp, hfs, -⟩ := open_ok ho
    show Home localtime s.1
    rw [hfs]
    exact @openedAt_home _ (newFileSink dir fileName (some cfg)) _ _ size hflat rfl hp
  size := open_sizeTrue ho hsize hbound
  text := by
    intro f hf
    obtain ⟨p, g, -, -, hg, hcontent, hfs⟩ := open_spec ho hsize
    have hbehind : fileBehind s = some g := by
      unfold fileBehind
      rw [hfs]
      exact hg
    rw [hf.symm.trans hbehind |> Option.some.inj, hcontent]
    exact (List.append_nil _).symm
  archived := by
    intro a ha
    cases ha

theorem contentAt_none {d : Disk} {path : Bytes} (h : d.file path = none) : contentAt d path = [] := by
  unfold contentAt
  rw [h]
  rfl

/-- A sink that finds no active file, or an empty one, is created with an empty one. -/
theorem created_opened {create : Creating} {dir fileName : Option Bytes} {cfg : FileConfig} {w : World}
    {s : FileSink × World} (h : hxSinkFileCreate localtime create dir fileName (some cfg) w = some s)
    (hsize : create.opening.sizeOk = true)
    (hempty : contentAt w.disk ((newFileSink dir fileName (some cfg)).pathAt localtime create.opening.now).bytes = []) :
    hxFileOpenActive localtime create.opening (newFileSink dir fileName (some cfg)) w = (.ok, s) ∧
      ∀ f, fileBehind s = some f → f.content = [] := by
  obtain ⟨s₀, ho, hs⟩ := create_opened h
  obtain ⟨p, g, -, -, hg, hcontent, hfs⟩ := open_spec ho hsize
  have hnil : g.content = [] := hcontent.trans hempty
  have hstays : ¬(s₀.1.rotateOnStartup = true ∧ 0 < s₀.1.currentSize) := by
    rintro ⟨-, hpos⟩
    have hzero : s₀.1.currentSize = 0 := by
      rw [hfs]
      show fileSize g = 0
      unfold fileSize
      rw [hnil]
      rfl
    rw [hzero] at hpos
    exact absurd hpos (by decide)
  rw [if_neg hstays] at hs
  subst hs
  refine ⟨ho, fun f hf => ?_⟩
  have hbehind : fileBehind s = some g := by
    unfold fileBehind
    rw [hfs]
    exact hg
  rw [hf.symm.trans hbehind |> Option.some.inj, hnil]

/-- Its history starts empty. -/
theorem created_kept {create : Creating} {dir fileName : Option Bytes} {cfg : FileConfig} {w : World}
    {s : FileSink × World} (h : hxSinkFileCreate localtime create dir fileName (some cfg) w = some s)
    (hsize : create.opening.sizeOk = true)
    (hempty : contentAt w.disk ((newFileSink dir fileName (some cfg)).pathAt localtime create.opening.now).bytes = [])
    (hflat : cfg.dateSubdir = false) : (opened create.opening.now [] s).Kept localtime ∧
      s.1.settings = (newFileSink dir fileName (some cfg)).settings ∧ s.1.openedSec = create.opening.now := by
  obtain ⟨ho, hnil⟩ := created_opened h hsize hempty
  obtain ⟨p, size, -, hfs, -⟩ := open_ok ho
  have hbound : ∀ f, fileBehind s = some f → f.content.length < 2 ^ 63 := by
    intro f hf
    rw [hnil f hf]
    decide
  have hkept := opened_kept ho hsize hbound hflat
  refine ⟨⟨hkept.home, hkept.size, fun f hf => hnil f hf, hkept.archived⟩, ?_, ?_⟩
  · rw [hfs]
    rfl
  · rw [hfs]
    rfl

end Logbook

end HxClog
