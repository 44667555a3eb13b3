import HxClog.Fitting

/-!
# One day in a file

A sink that compares the day never lets a line into a file that was opened on another
one, whatever else makes it rotate. The date of an archive is then that of its lines.
-/

namespace HxClog

open C Posix Scan

variable {localtime : Int → Tm}

/-- All lines are of one day. -/
def OneDay (localtime : Int → Tm) (lines : List Entry) : Prop :=
  ∀ e ∈ lines, ∀ e' ∈ lines, SameDay localtime e.second e'.second

/-- Within a year the day decides the date. -/
def DayDecidesDate (localtime : Int → Tm) : Prop :=
  ∀ a b, SameDay localtime a b → dateText (localtime a) = dateText (localtime b)

/-- The paths of the write fit if it rotates. -/
def WriteFits (localtime : Int → Tm) (b : Logbook) (c : Writing × Bytes) : Prop :=
  b.sink.1.due localtime c.1.rotating.now c.2.length.toUInt32 = true →
    PathsFit b.sink.1 (b.sink.1.archiveDate localtime c.1.rotating.now) c.1.rotating

/-! ## The day of a file -/

theorem SameDay.symm {a b : Int} (h : SameDay localtime a b) : SameDay localtime b a := ⟨h.1.symm, h.2.symm⟩

theorem SameDay.trans {a b c : Int} (h : SameDay localtime a b) (h' : SameDay localtime b c) : SameDay localtime a c :=
  ⟨h.1.trans h'.1, h.2.trans h'.2⟩

theorem oneDay_of {lines : List Entry} {day : Int} (h : ∀ e ∈ lines, SameDay localtime e.second day) : OneDay localtime lines :=
  fun _ he _ he' => (h _ he).trans (h _ he').symm

section
variable {fs fs' : FileSink} {now : Int} {incoming : UInt32}

/-- What is not due is of the day of the file. -/
theorem same_day_of_not_due (hh : Home localtime fs) (hlooks : fs.looksAtDay = true)
    (hd : fs.due localtime now incoming = false) : SameDay localtime now fs.openedSec := by
  have hdaily : ¬fs.needDaily (localtime now) = true := by
    intro hneed
    simp [FileSink.due, FileSink.deferred, hh.failSec, hneed] at hd
  rw [needDaily_iff, hh.year, hh.yday, not_and, not_not] at hdaily
  exact hdaily hlooks

/-- The date of the archive is that of the file. -/
theorem archive_date (hdates : DayDecidesDate localtime) (hh : Home localtime fs) (hlooks : fs.looksAtDay = true)
    (hpos : 0 < fs.openedSec) : dateText (fs.archiveDate localtime now) = dateText (localtime fs.openedSec) := by
  unfold FileSink.archiveDate
  by_cases hdaily : fs.needDaily (localtime now) = true
  · rw [hdaily, Bool.true_or, Bool.true_and, if_pos (by simpa using hpos)]
  · have hday := hdaily
    rw [needDaily_iff, hh.year, hh.yday, not_and, not_not] at hday
    split
    · rfl
    · exact hdates _ _ (hday hlooks)

theorem looksAtDay_congr (h : fs'.settings = fs.settings) : fs'.looksAtDay = fs.looksAtDay := by
  have hdaily : fs'.rotateDaily = fs.rotateDaily := congrArg (fun s => s.1.rotateDaily) h
  have hpolicy : fs'.policy = fs.policy := congrArg (fun s => s.1.rotatePolicy) h
  unfold FileSink.looksAtDay FileSink.byTime
  rw [hdaily, hpolicy]

theorem datedPath_congr (hh : Home localtime fs) (hh' : Home localtime fs') (h : fs'.settings = fs.settings) (tm : Tm) :
    fs'.datedPath tm = fs.datedPath tm := by
  have hdir : fs'.dir.bytes = fs.dir.bytes := congrArg (fun s => s.2.1) h
  have hbase : fs'.baseName.bytes = fs.baseName.bytes := congrArg (fun s => s.2.2) h
  unfold FileSink.datedPath FileSink.stem
  rw [hh.dir, hh'.dir, hdir, hbase]

/-- A path that fits carries its date. -/
theorem PathsFit.carries {cur tm : Tm} {env : Rotating} (h : PathsFit fs cur env) (hdate : dateText cur = dateText tm) :
    CarriesDate fs tm (archiveTarget fs cur env.listing) := by
  refine (target_carries_iff fs cur tm env.listing).mpr ⟨hdate, ?_⟩
  have hroom := h.target
  unfold FileSink.indexed at hroom
  unfold FileSink.datedPath
  rw [← hdate]
  simp only [List.length_append, List.length_cons, List.length_nil] at hroom ⊢
  omega

end

/-! ## Every write -/

/-- The lines of a file are of the day on which it was opened. -/
structure DaysApart (localtime : Int → Tm) (b : Logbook) : Prop where
  kept : b.Kept localtime
  looks : b.sink.1.looksAtDay = true
  dir : b.sink.1.dir.bytes ≠ []
  positive : 0 < b.sink.1.openedSec
  found : b.found = []
  lines : ∀ e ∈ b.lines, SameDay localtime e.second b.sink.1.openedSec
  archives : ∀ a ∈ b.archives, a.found = [] ∧ ∃ day, (∀ e ∈ a.lines, SameDay localtime e.second day) ∧
    CarriesDate b.sink.1 (localtime day) a.target

section
variable {b b' : Logbook} {c : Writing × Bytes}

theorem WriteFits.apart (h : WriteFits localtime b c) (hk : b.Kept localtime) (hdir : b.sink.1.dir.bytes ≠ []) :
    (FileCall.write c.1 c.2).Apart localtime b.sink := by
  intro target htarget
  rw [target_flat hk.home.flat] at htarget
  split at htarget
  · rename_i hd
    cases htarget
    obtain ⟨f, hf, -⟩ := hk.size
    obtain ⟨p, hp, -⟩ := Option.bind_eq_some_iff.mp hf
    exact (h hd).names.apart hk.home hdir (hk.home.fp.symm.trans hp)
  · cases htarget

theorem write_daysApart (hdates : DayDecidesDate localtime) (h : DaysApart localtime b)
    (hpos : 0 < c.1.rotating.opening.now) (hfits : WriteFits localtime b c) (hs : b.write localtime c = some b') :
    DaysApart localtime b' := by
  have hapart := hfits.apart h.kept h.dir
  obtain ⟨hkept, hset⟩ := Logbook.step_kept h.kept hs hapart
  obtain ⟨hcases, -⟩ := Logbook.write_cases h.kept.home hs hapart
  have hlooks : b'.sink.1.looksAtDay = true := (looksAtDay_congr hset).trans h.looks
  have hdir : b'.sink.1.dir.bytes ≠ [] := by
    rw [show b'.sink.1.dir.bytes = b.sink.1.dir.bytes from congrArg (fun s => s.2.1) hset]
    exact h.dir
  have hcarries : ∀ {tm : Tm} {target : Bytes}, CarriesDate b.sink.1 tm target → CarriesDate b'.sink.1 tm target := by
    intro tm target hc
    unfold CarriesDate at hc ⊢
    rwa [datedPath_congr h.kept.home hkept.home hset]
  rcases hcases with hstays | hrotates
  · refine ⟨hkept, hlooks, hdir, hstays.opened ▸ h.positive, hstays.found.trans h.found, fun e he => ?_, fun a ha => ?_⟩
    · rw [hstays.lines] at he
      rw [hstays.opened]
      rcases List.mem_append.mp he with he | he
      · exact h.lines e he
      · rw [List.mem_singleton] at he
        subst he
        exact same_day_of_not_due h.kept.home h.looks hstays.due
    · rw [hstays.archives] at ha
      obtain ⟨hfound, day, hlines, hdate⟩ := h.archives a ha
      exact ⟨hfound, day, hlines, hcarries hdate⟩
  · refine ⟨hkept, hlooks, hdir, hrotates.opened ▸ hpos, hrotates.found, fun e he => ?_, fun a ha => ?_⟩
    · rw [hrotates.lines, List.mem_singleton] at he
      subst he
      rw [hrotates.opened]
      exact ⟨rfl, rfl⟩
    · rw [hrotates.archives] at ha
      rcases List.mem_append.mp ha with ha | ha
      · obtain ⟨hfound, day, hlines, hdate⟩ := h.archives a ha
        exact ⟨hfound, day, hlines, hcarries hdate⟩
      · rw [List.mem_singleton] at ha
        subst ha
        refine ⟨h.found, b.sink.1.openedSec, h.lines, hcarries ?_⟩
        exact (hfits hrotates.due).carries (archive_date hdates h.kept.home h.looks h.positive)

end

theorem days_created {create : Creating} {dir fileName : Option Bytes} {cfg : FileConfig} {w : World} {s : FileSink × World}
    (hlooks : (newFileSink dir fileName (some cfg)).looksAtDay = true) (hflat : cfg.dateSubdir = false)
    (hmkdir : create.mkdirOk = true → dir ≠ some [])
    (hcreate : hxSinkFileCreate localtime create dir fileName (some cfg) w = some s) (hsize : create.opening.sizeOk = true)
    (hnew : w.disk.file ((newFileSink dir fileName (some cfg)).pathAt localtime create.opening.now).bytes = none)
    (hpos : 0 < create.opening.now) : DaysApart localtime (.opened create.opening.now [] s) := by
  obtain ⟨hkept, hset, hopened⟩ := Logbook.created_kept hcreate hsize (Logbook.contentAt_none hnew) hflat
  refine ⟨hkept, (looksAtDay_congr hset).trans hlooks, (created_alive hmkdir hcreate).named.1, ?_, rfl, ?_, ?_⟩
  · rwa [show (Logbook.opened create.opening.now [] s).sink.1.openedSec = create.opening.now from hopened]
  · intro e he
    cases he
  · intro a ha
    cases ha

/-- In every run from a new file on whose paths fit, the active file and every archive hold lines of
one day, and the archive carries that day. -/
theorem days_separated {create : Creating} {dir fileName : Option Bytes} {cfg : FileConfig} {w : World}
    {s : FileSink × World} {calls : List (Writing × Bytes)} {b : Logbook} (hdates : DayDecidesDate localtime)
    (hlooks : (newFileSink dir fileName (some cfg)).looksAtDay = true) (hflat : cfg.dateSubdir = false)
    (hmkdir : create.mkdirOk = true → dir ≠ some [])
    (hcreate : hxSinkFileCreate localtime create dir fileName (some cfg) w = some s) (hsize : create.opening.sizeOk = true)
    (hnew : w.disk.file ((newFileSink dir fileName (some cfg)).pathAt localtime create.opening.now).bytes = none)
    (hpos : 0 < create.opening.now)
    (hcalls : Transition.Along (Logbook.write localtime) (fun b c => 0 < c.1.rotating.opening.now ∧ WriteFits localtime b c)
      (.opened create.opening.now [] s) calls)
    (hr : Transition.run (Logbook.write localtime) (.opened create.opening.now [] s) calls = some b) :
    (OneDay localtime b.lines ∧ contentAt b.sink.2.disk b.sink.1.activePath.bytes = textOf b.lines) ∧
      ∀ a ∈ b.archives, OneDay localtime a.lines ∧ a.content = textOf a.lines ∧
        ∀ e ∈ a.lines, CarriesDate b.sink.1 (localtime e.second) a.target := by
  have hb : DaysApart localtime b := Transition.run_along
    (fun _ _ _ h hc hs => write_daysApart hdates h hc.1 hc.2 hs) calls _ _ hcalls
    (days_created hlooks hflat hmkdir hcreate hsize hnew hpos) hr
  refine ⟨⟨oneDay_of hb.lines, ?_⟩, fun a ha => ?_⟩
  · obtain ⟨f, hf, -⟩ := hb.kept.size
    rw [active_content hb.kept.home hf, hb.kept.text f hf, hb.found, List.nil_append]
  · obtain ⟨hfound, day, hlines, hcarries⟩ := hb.archives a ha
    refine ⟨oneDay_of hlines, ?_, fun e he => ?_⟩
    · rw [hb.kept.archived a ha, hfound, List.nil_append]
    · unfold CarriesDate FileSink.datedPath at hcarries ⊢
      rwa [hdates _ _ (hlines e he)]

/-! ## Midnight -/

theorem january_dates : DayDecidesDate january1970 := by
  intro a b h
  have hday : a / 86400 % 31 = b / 86400 % 31 := h.2
  unfold dateText january1970
  simp only [hday]

def dailyCreate : Creating := ⟨true, true, succeedsAt 10, rotatesAt 10 true, 10⟩

/-- A sink is created on the first day and written to on the second. -/
theorem days_separated_midnight : ∃ s b, hxSinkFileCreate january1970 dailyCreate (some (lit "l")) (some (lit "a"))
      (some dailyConfig) emptyWorld = some s ∧
    Transition.run (Logbook.write january1970) (.opened 10 [] s) [(writesAt 86400 true, [97])] = some b ∧
    ((OneDay january1970 b.lines ∧ contentAt b.sink.2.disk b.sink.1.activePath.bytes = textOf b.lines) ∧
      ∀ a ∈ b.archives, OneDay january1970 a.lines ∧ a.content = textOf a.lines ∧
        ∀ e ∈ a.lines, CarriesDate b.sink.1 (january1970 e.second) a.target) := by
  refine ⟨_, _, rfl, rfl, @days_separated january1970 dailyCreate (some (lit "l")) (some (lit "a")) dailyConfig
    emptyWorld _ [(writesAt 86400 true, [97])] _ january_dates rfl rfl (fun _ => ?_) rfl rfl ?_ ?_ ⟨⟨?_, fun _ => ?_⟩, fun _ _ => trivial⟩ rfl⟩
  · decide
  · decide +kernel
  · decide
  · decide
  · refine ⟨?_, ?_, fun names hn m hm => ?_⟩
    · decide +kernel
    · decide +kernel
    · cases hn
      cases hm

end HxClog
