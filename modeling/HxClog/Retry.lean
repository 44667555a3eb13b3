import HxClog.RotateSound

/-!
# Trying a failed rotation again

When the rename fails the active file is opened again, and with it the day and the
second from which the sink counts start again too. What is left of the reason to rotate
is its size.
-/

namespace HxClog

open C Posix

variable {localtime : Int → Tm}

/-! ## The condition -/

def SameDay (localtime : Int → Tm) (a b : Int) : Prop :=
  (localtime a).year = (localtime b).year ∧ (localtime a).yday = (localtime b).yday

instance (a b : Int) : Decidable (SameDay localtime a b) := inferInstanceAs (Decidable (_ ∧ _))

/-- A rotation is due at `now` for a file of this size that was opened at `opened`. -/
def DueSince (localtime : Int → Tm) (fs : FileSink) (opened : Int) (size : UInt64) (now : Int) (incoming : UInt32) :
    Prop :=
  let interval : Int := fs.rotateIntervalSeconds.toNat
  (fs.bySize = true ∧ 0 < fs.maxFileSize ∧ 0 < size ∧ fs.maxFileSize < size + incoming.toUInt64) ∨
  (fs.looksAtDay = true ∧ ¬SameDay localtime now opened) ∨
  (fs.byTime = true ∧ 0 < interval ∧ 0 < size ∧
    if fs.rotateAlign then now.tdiv interval ≠ opened.tdiv interval else opened + interval ≤ now)

def writeStep (localtime : Int → Tm) (s : FileSink × World) (c : Writing × Bytes) : Option (FileSink × World) :=
  some (fileWrite localtime c.1 c.2 s.1 s.2).2

/-- A write up to the second of the failure, which does not rotate. -/
def waits (localtime : Int → Tm) (s : FileSink × World) (c : Writing × Bytes) : Bool :=
  c.1.rotating.now ≤ s.1.rotateFailSec && !s.1.due localtime c.1.rotating.now c.2.length.toUInt32

/-! ## What the later write sees -/

section
variable {fs : FileSink} {now : Int} {incoming : UInt32}

theorem needSize_iff : fs.needSize incoming = true ↔
    fs.bySize = true ∧ 0 < fs.maxFileSize ∧ 0 < fs.currentSize ∧
      fs.maxFileSize < fs.currentSize + incoming.toUInt64 := by
  simp only [FileSink.needSize, Bool.and_eq_true, decide_eq_true_eq]
  constructor
  · rintro ⟨⟨⟨hp, hm⟩, hover⟩, hs⟩
    exact ⟨hp, hm, hs, hover⟩
  · rintro ⟨hp, hm, hs, hover⟩
    exact ⟨⟨⟨hp, hm⟩, hover⟩, hs⟩

theorem needDaily_iff {tm : Tm} : fs.needDaily tm = true ↔
    fs.looksAtDay = true ∧ ¬(tm.year = fs.curYear ∧ tm.yday = fs.curYday) := by
  simp only [FileSink.needDaily, Bool.and_eq_true, Bool.or_eq_true, decide_eq_true_eq, ne_eq]
  rw [and_comm (a := tm.year = fs.curYear), not_and_or]

theorem needInterval_iff : fs.needInterval now = true ↔
    fs.byTime = true ∧ 0 < (fs.rotateIntervalSeconds.toNat : Int) ∧ 0 < fs.currentSize ∧
      if fs.rotateAlign then now.tdiv fs.rotateIntervalSeconds.toNat ≠ fs.openedSec.tdiv fs.rotateIntervalSeconds.toNat
      else fs.openedSec + fs.rotateIntervalSeconds.toNat ≤ now := by
  simp only [FileSink.needInterval, Bool.and_eq_true, decide_eq_true_eq, and_assoc]
  cases fs.rotateAlign <;> simp

/-- Where no failure puts it off, what is due is what is due since the file was opened. -/
theorem due_since_iff {opened : Int} (hy : fs.curYear = (localtime opened).year)
    (hd : fs.curYday = (localtime opened).yday) (ho : fs.openedSec = opened) (hlate : fs.deferred now = false) :
    fs.due localtime now incoming = true ↔ DueSince localtime fs opened fs.currentSize now incoming := by
  have hdue : fs.due localtime now incoming = true ↔
      fs.needSize incoming = true ∨ fs.needDaily (localtime now) = true ∨ fs.needInterval now = true := by
    simp [FileSink.due, hlate, or_assoc]
  rw [hdue, needSize_iff, needDaily_iff, needInterval_iff, hy, hd, ho]
  rfl

end

/-! ## From the failure to the later write -/

/-- The sink still stands where the failed rotation left it. -/
structure Waiting (localtime : Int → Tm) (fs₀ : FileSink) (opened failSec : Int) (fs : FileSink) : Prop where
  config : (fs.policy, fs.maxFileSize, fs.rotateDaily, fs.rotateIntervalSeconds, fs.rotateAlign, fs.dateSubdir) =
    (fs₀.policy, fs₀.maxFileSize, fs₀.rotateDaily, fs₀.rotateIntervalSeconds, fs₀.rotateAlign, fs₀.dateSubdir)
  year : fs.curYear = (localtime opened).year
  yday : fs.curYday = (localtime opened).yday
  opened : fs.openedSec = opened
  failed : fs.rotateFailSec = failSec

section
variable {fs₀ fs : FileSink} {w w₀ : World} {opened failSec : Int} {env : Writing} {data : Bytes}

theorem Waiting.wrote (h : Waiting localtime fs₀ opened failSec fs) (wr : Writing) (data : Bytes) (w : World) :
    Waiting localtime fs₀ opened failSec (fwriteActive wr data fs w).2.1 := by
  obtain ⟨size, failing, heq⟩ := fwrite_keeps wr data fs w
  rw [heq]
  exact ⟨h.config, h.year, h.yday, h.opened, h.failed⟩

/-- What the write during which the rotation failed leaves. -/
theorem waiting_failed
    (hfail : (hxRotateMaybe localtime env.rotating data.length.toUInt32 fs₀ w₀).1 = .platform) :
    Waiting localtime fs₀ env.rotating.opening.now env.rotating.now (fileWrite localtime env data fs₀ w₀).2.1 := by
  cases hr : hxRotateMaybe localtime env.rotating data.length.toUInt32 fs₀ w₀ with
  | mk st r =>
    rw [hr] at hfail
    obtain rfl : st = .platform := hfail
    obtain ⟨hd, p, size, -, hfs⟩ := rotate_failed hr
    rw [write_due hd]
    simp only [hr]
    refine Waiting.wrote ?_ env data r.2
    rw [hfs]
    exact ⟨rfl, rfl, rfl, rfl, rfl⟩

theorem waiting_run {between : List (Writing × Bytes)} {s s' : FileSink × World}
    (h : Waiting localtime fs₀ opened failSec s.1)
    (hr : Transition.run (Transition.restrict (waits localtime) (writeStep localtime)) s between = some s') :
    Waiting localtime fs₀ opened failSec s'.1 := by
  refine Transition.run_invariant (I := fun s => Waiting localtime fs₀ opened failSec s.1) ?_ between s s' h hr
  intro s c t hs hst
  obtain ⟨hok, hst⟩ := Transition.restrict_some hst
  unfold waits at hok
  rw [Bool.and_eq_true, Bool.not_eq_true'] at hok
  cases hst
  rw [write_not_due hok.2]
  exact hs.wrote c.1 c.2 s.2

/-- After a rotation whose rename failed, the first write in a later second tries again if
and only if a rotation is due since the file was opened again. -/
theorem failed_rotation_retried_iff (hsub : fs₀.dateSubdir = false)
    (hfail : (hxRotateMaybe localtime env.rotating data.length.toUInt32 fs₀ w₀).1 = .platform)
    (between : List (Writing × Bytes)) {s : FileSink × World}
    (hr : Transition.run (Transition.restrict (waits localtime) (writeStep localtime))
      (fileWrite localtime env data fs₀ w₀).2 between = some s)
    (later : Rotating) (incoming : UInt32) (hlater : s.1.rotateFailSec < later.now) :
    (renameTarget localtime later incoming s.1).isSome = true ↔
      DueSince localtime fs₀ env.rotating.opening.now s.1.currentSize later.now incoming := by
  obtain ⟨hconfig, hy, hd, ho, -⟩ := waiting_run (waiting_failed hfail) hr
  simp only [Prod.mk.injEq] at hconfig
  obtain ⟨hp, hm, hdaily, hi, ha, hs⟩ := hconfig
  have hsame : renameTarget localtime later incoming s.1 =
      if s.1.due localtime later.now incoming then
        some (archiveTarget s.1 (s.1.archiveDate localtime later.now) later.listing) else none := by
    unfold renameTarget
    simp [hs, hsub]
  have hkept : DueSince localtime s.1 env.rotating.opening.now s.1.currentSize later.now incoming ↔
      DueSince localtime fs₀ env.rotating.opening.now s.1.currentSize later.now incoming := by
    simp only [DueSince, FileSink.bySize, FileSink.byTime, FileSink.looksAtDay, hp, hm, hdaily, hi, ha]
  have hlate : s.1.deferred later.now = false := by
    simp [FileSink.deferred, not_le.mpr hlater]
  rw [hsame, ← hkept, ← due_since_iff hy hd ho hlate]
  split <;> simp [*]

end

/-! ## A day that is not archived -/

theorem year1970_range : (-2 ^ 31 : Int) ≤ 70 ∧ (70 : Int) + 1900 < 2 ^ 31 := by decide

theorem january_range : (0 : Int) ≤ 0 ∧ (0 : Int) ≤ 11 := by decide

/-- The first days of 1970, in UTC. -/
def january1970 (t : Int) : Tm where
  year := 70
  mon := 0
  mday := t / 86400 % 31 + 1
  hour := t / 3600 % 24
  min := t / 60 % 60
  sec := t % 60
  yday := t / 86400 % 31
  year_range := year1970_range
  mon_range := january_range
  mday_range := by omega
  hour_range := by omega
  min_range := by omega
  sec_range := by omega
  yday_range := by omega

def succeedsAt (now : Int) : Opening := ⟨now, true, true, true⟩

def rotatesAt (now : Int) (renameOk : Bool) : Rotating := ⟨now, some [], renameOk, succeedsAt now, .smooth []⟩

def writesAt (now : Int) (renameOk : Bool) : Writing := ⟨rotatesAt now renameOk, 1, now⟩

def emptyWorld : World := ⟨∅, [], 0⟩

/-- A sink that is created at `now` and written one line at once. -/
def sinkSince (cfg : FileConfig) (now : Int) : Option (FileSink × World) :=
  (hxSinkFileCreate january1970 ⟨true, true, succeedsAt now, rotatesAt now true, now⟩ (some (lit "l")) (some (lit "a"))
    (some cfg) emptyWorld).bind fun s => writeStep january1970 s (writesAt now true, [97])

def dailyConfig : FileConfig := { FileConfig.absent with rotatePolicy := .byTime }

def tinyConfig : FileConfig := { FileConfig.absent with rotatePolicy := .bySize, maxFileSize := 1 }

/-- A full file is tried again. -/
theorem failed_rotation_retried_size : ∃ s₀ s, sinkSince tinyConfig 10 = some s₀ ∧
    writeStep january1970 s₀ (writesAt 20 false, [98]) = some s ∧
    ((renameTarget january1970 (rotatesAt 21 true) 1 s.1).isSome = true ↔
      DueSince january1970 s₀.1 20 s.1.currentSize 21 1) :=
  ⟨_, _, rfl, rfl, failed_rotation_retried_iff rfl (by decide +kernel) [] rfl (rotatesAt 21 true) 1 (by decide +kernel)⟩

/-- A day is not: the rename fails at midnight, and one second later the line of the day before
is today's. -/
theorem failed_daily_rotation_forgotten : ∃ s₀ s, sinkSince dailyConfig 86390 = some s₀ ∧
    (hxRotateMaybe january1970 (rotatesAt 86400 false) 1 s₀.1 s₀.2).1 = .platform ∧
    writeStep january1970 s₀ (writesAt 86400 false, [98]) = some s ∧ s.1.rotateFailSec < 86401 ∧
    renameTarget january1970 (rotatesAt 86401 true) 1 s.1 = none := by
  refine ⟨_, _, rfl, ?_, rfl, ?_, ?_⟩ <;> decide +kernel

end HxClog
