import HxClog.Overwrite

/-!
# The date of an archive

An archive should be named after the day on which its file was opened. The rotation
takes that date for a time trigger, and today's for a file that is only too large.
-/

namespace HxClog

open C Posix Scan Decimal

variable {localtime : Int → Tm}

/-! ## Dates in a path -/

/-- The path of an archive up to the dot behind its date. -/
def FileSink.datedPath (fs : FileSink) (tm : Tm) : Bytes :=
  fs.activeDir.bytes ++ slash :: (fs.stem ++ chr '.' :: (dateText tm ++ [chr '.']))

def CarriesDate (fs : FileSink) (tm : Tm) (target : Bytes) : Prop := fs.datedPath tm <+: target

theorem dot_not_mem_padInt (width : Nat) (v : Int) : chr '.' ∉ padInt width v := by
  have hpad (n : Nat) : chr '.' ∉ padded n v.natAbs := by
    intro hd
    have hdigit := padded_digit n _ _ hd
    revert hdigit
    decide
  unfold padInt
  split
  · rw [List.mem_cons, not_or]
    exact ⟨by decide, hpad _⟩
  · exact hpad _

theorem dot_not_mem_date (tm : Tm) : chr '.' ∉ dateText tm := by
  unfold dateText
  simp only [List.mem_append, List.mem_cons, not_or]
  exact ⟨dot_not_mem_padInt 4 _, by decide, dot_not_mem_padInt 2 _, by decide, dot_not_mem_padInt 2 _⟩

/-- What stands in front of the next dot. -/
theorem dot_unique {s t u v : Bytes} (hs : chr '.' ∉ s) (ht : chr '.' ∉ t) (h : s ++ chr '.' :: u = t ++ chr '.' :: v) :
    s = t := by
  have hstop : ∀ {s u : Bytes}, chr '.' ∉ s → (s ++ chr '.' :: u).takeWhile (· ≠ chr '.') = s := by
    intro s u hs
    refine takeWhile_append_stop (fun c hc => ?_) (by simp)
    simp only [ne_eq, decide_not, Bool.not_eq_true', decide_eq_false_iff_not]
    rintro rfl
    exact hs hc
  rw [← hstop hs (u := u), h, hstop ht]

theorem cut_isPrefix {cap : Nat} {a b : Bytes} (h : a.length < cap) : a <+: cut cap (a ++ b) := by
  unfold cut
  rw [List.take_append, List.take_of_length_le (by omega)]
  exact List.prefix_append _ _

theorem cut_isPrefix_self (cap : Nat) (s : Bytes) : cut cap s <+: s := List.take_prefix _ _

/-- The path of an archive carries a date if it is that of its name and there is room for it. -/
theorem target_carries_iff (fs : FileSink) (cur tm : Tm) (listing : Option (List FileName)) :
    CarriesDate fs tm (archiveTarget fs cur listing) ↔
      dateText cur = dateText tm ∧ (fs.datedPath tm).length < pathMax := by
  obtain ⟨rest, htarget⟩ : ∃ rest, archiveTarget fs cur listing =
      cut pathMax (fs.activeDir.bytes ++ slash :: cut pathMax (fs.stem ++ chr '.' :: (dateText cur ++ chr '.' :: rest))) :=
    ⟨_, rfl⟩
  unfold CarriesDate
  rw [htarget]
  constructor
  · intro hpre
    have hlen : (fs.datedPath tm).length < pathMax := by
      have hle := hpre.length_le
      rw [cut_length] at hle
      have hpos : 0 < pathMax := by decide
      omega
    have hfull : fs.datedPath tm <+:
        fs.activeDir.bytes ++ slash :: (fs.stem ++ chr '.' :: (dateText cur ++ chr '.' :: rest)) := by
      refine (hpre.trans (cut_isPrefix_self _ _)).trans ?_
      exact (List.prefix_append_right_inj _).mpr (List.cons_prefix_cons.mpr ⟨rfl, cut_isPrefix_self _ _⟩)
    obtain ⟨t, ht⟩ := hfull
    unfold FileSink.datedPath at ht
    simp only [List.append_assoc, List.cons_append, List.append_cancel_left_eq, List.cons.injEq, true_and,
      List.nil_append] at ht
    exact ⟨(dot_unique (dot_not_mem_date tm) (dot_not_mem_date cur) ht).symm, hlen⟩
  · rintro ⟨hdate, hlen⟩
    unfold FileSink.datedPath at hlen ⊢
    rw [← hdate] at hlen ⊢
    have hstem : (fs.stem ++ chr '.' :: (dateText cur ++ [chr '.'])).length < pathMax := by
      rw [List.length_append, List.length_cons] at hlen
      omega
    have hname : fs.stem ++ chr '.' :: (dateText cur ++ chr '.' :: rest) =
        fs.stem ++ chr '.' :: (dateText cur ++ [chr '.']) ++ rest := by simp
    obtain ⟨t, ht⟩ := cut_isPrefix (b := rest) hstem
    have hpath : fs.activeDir.bytes ++ slash :: (fs.stem ++ chr '.' :: (dateText cur ++ [chr '.']) ++ t) =
        fs.activeDir.bytes ++ slash :: (fs.stem ++ chr '.' :: (dateText cur ++ [chr '.'])) ++ t := by simp
    rw [hname, ← ht, hpath]
    exact cut_isPrefix hlen

/-! ## Archives of a run -/

/-- A rotation: the sink before it, and the archive that its rename makes. -/
structure Archiving where
  fs : FileSink
  env : Rotating
  rotation : Rotation
  target : Bytes

/-- The rename of a rotation that has something to archive. -/
def archiving (localtime : Int → Tm) (env : Rotating) (fs : FileSink) (w : World) (r : Rotation) : List Archiving :=
  match r.target localtime env fs with
  | some target => if (w.disk.rename env.renameOk fs.activePath.bytes target).2 then [⟨fs, env, r, target⟩] else []
  | none => []

def callArchivings (localtime : Int → Tm) (s : FileSink × World) : SinkCall → List Archiving
  | .write _ env data => archiving localtime env.rotating s.1 s.2 (.maybe data.length.toUInt32)
  | .reopen _ => []

def runArchivings (localtime : Int → Tm) (s : FileSink × World) : List SinkCall → List Archiving
  | [] => []
  | c :: cs => callArchivings localtime s c ++ runArchivings localtime (sinkStep localtime s c) cs

/-- The archives of a sink from `hx_sink_file_create` on, which archives an old file if it is asked to. -/
def sinkArchivings (localtime : Int → Tm) (create : Creating) (dir fileName : Option Bytes) (cfg : Option FileConfig)
    (w : World) (calls : List SinkCall) : List Archiving :=
  match hxSinkFileCreate localtime create dir fileName cfg w with
  | none => []
  | some s =>
    let started :=
      match hxFileOpenActive localtime create.opening (newFileSink dir fileName cfg) w with
      | (.ok, fs, w) => if fs.rotateOnStartup then archiving localtime create.rotating fs w (.force create.time) else []
      | _ => []
    started ++ runArchivings localtime s calls

/-! ## The condition -/

/-- The date of the rotation is that on which the file was opened: a time trigger takes it, if
the clock was past 1970, and otherwise the day has not changed since. -/
def Rotation.KeepsDate (localtime : Int → Tm) (env : Rotating) (fs : FileSink) : Rotation → Prop
  | .maybe _ =>
    (((fs.needDaily (localtime env.now) || fs.needInterval env.now) = true ∧ 0 < fs.openedSec) ∨
      dateText (localtime env.now) = dateText (localtime fs.openedSec))
  | .force time => 0 < fs.openedSec ∨ dateText (localtime time) = dateText (localtime fs.openedSec)

/-- And the path has room for it. -/
def Archiving.Dated (localtime : Int → Tm) (a : Archiving) : Prop :=
  a.rotation.KeepsDate localtime a.env a.fs ∧ (a.fs.datedPath (localtime a.fs.openedSec)).length < pathMax

theorem date_kept_iff (env : Rotating) (fs : FileSink) (r : Rotation) :
    dateText (r.date localtime env.now fs) = dateText (localtime fs.openedSec) ↔ r.KeepsDate localtime env fs := by
  cases r with
  | maybe incoming =>
    unfold Rotation.date Rotation.KeepsDate FileSink.archiveDate
    simp only [Bool.and_eq_true, decide_eq_true_eq]
    by_cases ht : (fs.needDaily (localtime env.now) || fs.needInterval env.now) = true ∧ 0 < fs.openedSec
    · rw [if_pos ht]
      exact iff_of_true rfl (.inl ht)
    · rw [if_neg ht]
      constructor
      · exact Or.inr
      · rintro (h | h)
        · exact absurd h ht
        · exact h
  | force time =>
    unfold Rotation.date Rotation.KeepsDate
    by_cases ht : 0 < fs.openedSec
    · simp only [if_pos ht, true_iff]
      exact .inl ht
    · simp only [if_neg ht]
      constructor
      · exact Or.inr
      · rintro (h | h)
        · exact absurd h ht
        · exact h

/-! ## Every archive -/

theorem mem_archiving {env : Rotating} {fs : FileSink} {w : World} {r : Rotation} {a : Archiving}
    (h : a ∈ archiving localtime env fs w r) : a.rotation.target localtime a.env a.fs = some a.target := by
  unfold archiving at h
  split at h
  · split at h
    · rename_i ht _
      rw [List.mem_singleton] at h
      subst h
      exact ht
    · cases h
  · cases h

theorem mem_runArchivings : ∀ (calls : List SinkCall) {s : FileSink × World} {a : Archiving},
    a ∈ runArchivings localtime s calls → a.rotation.target localtime a.env a.fs = some a.target
  | [], _, _, h => by cases h
  | c :: cs, s, a, h => by
    rcases List.mem_append.mp h with h | h
    · cases c with
      | write called env data => exact mem_archiving h
      | reopen o => cases h
    · exact mem_runArchivings cs h

theorem mem_sinkArchivings {create : Creating} {dir fileName : Option Bytes} {cfg : Option FileConfig} {w : World}
    {calls : List SinkCall} {a : Archiving} (h : a ∈ sinkArchivings localtime create dir fileName cfg w calls) :
    a.rotation.target localtime a.env a.fs = some a.target := by
  unfold sinkArchivings at h
  split at h
  · cases h
  · rcases List.mem_append.mp h with h | h
    · split at h
      · split at h
        · exact mem_archiving h
        · cases h
      · cases h
    · exact mem_runArchivings calls h

/-- An archive carries the date on which its file was opened if and only if its rotation kept it. -/
theorem carries_opening_iff {a : Archiving} (h : a.rotation.target localtime a.env a.fs = some a.target) :
    CarriesDate a.fs (localtime a.fs.openedSec) a.target ↔ a.Dated localtime := by
  obtain ⟨htarget, -⟩ := rotation_archives (w := emptyWorld) h
  rw [htarget, target_carries_iff, date_kept_iff]
  exact Iff.rfl

/-- The archives of every run carry the dates on which their files were opened if and only if
each rotation kept it. -/
theorem archives_dated_iff (create : Creating) (dir fileName : Option Bytes) (cfg : Option FileConfig) (w : World)
    (calls : List SinkCall) :
    (∀ a ∈ sinkArchivings localtime create dir fileName cfg w calls, CarriesDate a.fs (localtime a.fs.openedSec) a.target) ↔
      ∀ a ∈ sinkArchivings localtime create dir fileName cfg w calls, a.Dated localtime :=
  forall₂_congr fun _ ha => carries_opening_iff (mem_sinkArchivings ha)

/-- Ten seconds before midnight a sink that rotates by size is created and written to, and its
file is full at midnight. -/
def midnightArchivings : List Archiving :=
  sinkArchivings january1970 ⟨true, true, succeedsAt 86390, rotatesAt 86390 true, 86390⟩ (some (lit "l")) (some (lit "a"))
    (some tinyConfig) emptyWorld [.write 86391 (writesAt 86391 true) [97], .write 86400 (writesAt 86400 true) [98]]

theorem full_file_misdated : ¬∀ a ∈ midnightArchivings, CarriesDate a.fs (january1970 a.fs.openedSec) a.target := by
  intro h
  have hfirst : midnightArchivings.map (fun a => (a.target, a.fs.datedPath (january1970 a.fs.openedSec))) =
      [(lit "l/a.1970-01-02.1", lit "l/a.1970-01-01.")] := by decide +kernel
  obtain ⟨a, ha, heq⟩ := List.mem_map.mp (hfirst ▸ List.mem_singleton_self _)
  have hpre : lit "l/a.1970-01-01." <+: lit "l/a.1970-01-02.1" := by
    have hcarries := h a ha
    unfold CarriesDate at hcarries
    rw [(Prod.mk.inj heq).1, (Prod.mk.inj heq).2] at hcarries
    exact hcarries
  revert hpre
  decide +kernel

end HxClog
