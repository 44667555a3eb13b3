import HxClog.CleanupSound
import HxClog.DayFolders

/-!
# Archives that would be overwritten

The rename of a rotation replaces its target. The index in the target's name is one above
every index that the scan of the directory finds, so the name is new as long as the scan
finds the names that rotation prints.
-/

namespace HxClog

open C Posix Scan Decimal

/-! ## The names of one date -/

def FileSink.stem (fs : FileSink) : Bytes := (splitName fs.baseName.bytes 256 64).1

def FileSink.ext (fs : FileSink) : Bytes := (splitName fs.baseName.bytes 256 64).2

/-- The largest index that the scan finds for the date. -/
def FileSink.largestIndex (fs : FileSink) (cur : Tm) (names : List FileName) : Int :=
  listDir (some names) (indexCb fs.stem (cut 16 (dateText cur))) 0

/-- The name up to its index. -/
def FileSink.indexed (fs : FileSink) (cur : Tm) (index : Int) : Bytes :=
  fs.stem ++ chr '.' :: (dateText cur ++ chr '.' :: padInt 0 index)

/-- The path shows the index behind a date that fits into its buffer, and no slash stands behind the stem. -/
def FileSink.Shows (fs : FileSink) (cur : Tm) (index : Int) : Prop :=
  slash ∉ fs.ext ∧ (dateText cur).length < 16 ∧ fs.activeDir.bytes.length + 1 + (fs.indexed cur index).length < pathMax

instance (fs : FileSink) (cur : Tm) (index : Int) : Decidable (fs.Shows cur index) := inferInstanceAs (Decidable (_ ∧ _))

/-- Every file of the directory of `fs` is among `names`. -/
def Listed (d : Disk) (fs : FileSink) (names : List FileName) : Prop :=
  ∀ n, (d.lookup ⟨dirKey fs.activeDir.bytes, n⟩).isSome = true → n ∈ names

variable {fs : FileSink} {cur : Tm} {names : List FileName}

theorem scan_ge (stem tag : Bytes) : ∀ (names : List Bytes) (m : Int), m ≤ names.foldl (indexCb stem tag) m
  | [], m => le_refl m
  | n :: names, m => by
    have hstep : m ≤ indexCb stem tag m n := by
      unfold indexCb
      simp only
      split
      · exact le_max_left _ _
      · exact le_refl m
    exact hstep.trans (scan_ge stem tag names _)

/-- The index of a name that the scan comes across. -/
theorem scan_mem (stem tag : Bytes) {n : Bytes} {i : Int} (h : ∀ m, i ≤ indexCb stem tag m n) :
    ∀ (names : List Bytes) (m : Int), n ∈ names → i ≤ names.foldl (indexCb stem tag) m
  | a :: names, m, hn => by
    rcases List.mem_cons.mp hn with rfl | hn
    · exact (h m).trans (scan_ge stem tag names _)
    · exact scan_mem stem tag h names _ hn

theorem atoi_lt (s : Bytes) : atoi s < 2 ^ 31 := by
  unfold atoi
  split
  · exact Int.bmod_lt (by decide)
  · decide

theorem scan_lt (stem tag : Bytes) : ∀ (names : List Bytes) (m : Int), m < 2 ^ 31 →
    names.foldl (indexCb stem tag) m < 2 ^ 31
  | [], _, hm => hm
  | n :: names, m, hm => by
    refine scan_lt stem tag names _ ?_
    unfold indexCb
    simp only
    split
    · exact max_lt hm (atoi_lt _)
    · exact hm

theorem largestIndex_range (fs : FileSink) (cur : Tm) (names : List FileName) :
    0 ≤ fs.largestIndex cur names ∧ fs.largestIndex cur names < 2 ^ 31 :=
  ⟨scan_ge _ _ _ _, scan_lt _ _ _ _ (by decide)⟩

theorem stem_length (fs : FileSink) : fs.stem.length < 256 := by
  unfold FileSink.stem splitName
  split <;>
  · rw [cut_length]
    omega

/-- The prefix of the scan. -/
theorem needle_eq (fs : FileSink) (h : (dateText cur).length < 16) :
    cut 300 (fs.stem ++ chr '.' :: (cut 16 (dateText cur) ++ [chr '.'])) =
      fs.stem ++ chr '.' :: (dateText cur ++ [chr '.']) :=
  needle_whole (stem_length fs) h

theorem dotExt_clean (h : slash ∉ fs.ext) (k : Nat) :
    NoDigit ((dotExt fs.ext).take k) ∧ slash ∉ (dotExt fs.ext).take k := by
  unfold dotExt
  by_cases hnil : fs.ext = []
  · rw [if_pos hnil, List.take_nil]
    refine ⟨?_, List.not_mem_nil⟩
    intro c hc
    cases hc
  · rw [if_neg hnil]
    refine ⟨?_, ?_⟩
    · cases k with
      | zero =>
        intro c hc
        cases hc
      | succ k => exact noDigit_cons rfl _
    · intro hs
      rcases List.mem_cons.mp (List.mem_of_mem_take hs) with hdot | hs
      · revert hdot
        decide
      · exact h hs

theorem indexed_clean {index : Int} (h : slash ∉ fs.stem) : slash ∉ fs.indexed cur index := by
  unfold FileSink.indexed
  simp only [List.mem_append, List.mem_cons, not_or]
  have hdate : slash ∉ dateText cur := fun hs => (plain_date cur slash hs).1 rfl
  have hindex : slash ∉ padInt 0 index := fun hs => (plain_padInt 0 index slash hs).1 rfl
  exact ⟨h, by decide, hdate, by decide, hindex⟩

section
variable {localtime : Int → Tm} {o : Opening} {env : Rotating} {w : World}

/-- The two calls that archive the active file. -/
inductive Rotation where
  | maybe (incoming : UInt32)
  | force (time : Int)

/-- The date in the name of the archive. -/
def Rotation.date (localtime : Int → Tm) (now : Int) (fs : FileSink) : Rotation → Tm
  | .maybe _ => fs.archiveDate localtime now
  | .force time => localtime (if 0 < fs.openedSec then fs.openedSec else time)

/-- The target handed to `hx_rename`, if it comes to that. -/
def Rotation.target (localtime : Int → Tm) (env : Rotating) (fs : FileSink) : Rotation → Option Bytes
  | .maybe incoming => renameTarget localtime env incoming fs
  | .force time =>
    if fs.fp.isNone ∨ fs.currentSize = 0 then none
    else some (archiveTarget fs (Rotation.date localtime env.now fs (.force time)) env.listing)

def Rotation.run (localtime : Int → Tm) (env : Rotating) (fs : FileSink) (w : World) : Rotation → Status × FileSink × World
  | .maybe incoming => hxRotateMaybe localtime env incoming fs w
  | .force time => hxRotateForce localtime env time fs w

/-- With a target the file is archived there. -/
theorem rotation_archives {r : Rotation} {target : Bytes} (h : r.target localtime env fs = some target) :
    target = archiveTarget fs (r.date localtime env.now fs) env.listing ∧
      ∃ failSec, r.run localtime env fs w = archiveActive localtime env (r.date localtime env.now fs) failSec fs w := by
  cases r with
  | maybe incoming =>
    obtain ⟨htarget, hrun⟩ := rotate_renames (w := w) h
    exact ⟨htarget, env.now, hrun⟩
  | force time =>
    simp only [Rotation.target] at h
    split at h
    · cases h
    · rename_i hopen
      cases h
      refine ⟨rfl, time, ?_⟩
      show hxRotateForce localtime env time fs w = _
      unfold hxRotateForce
      rw [if_neg hopen]
      rfl

/-- Neither directory of the sink is the empty string. -/
def Named (fs : FileSink) : Prop := fs.dir.bytes ≠ [] ∧ fs.activeDir.bytes ≠ []

theorem dirAt_ne (localtime : Int → Tm) (h : fs.dir.bytes ≠ []) (now : Int) : (fs.dirAt localtime now).bytes ≠ [] := by
  unfold FileSink.dirAt
  split
  · rw [joinPath_bytes fs.dir.fits]
    unfold cut withSlash
    split <;> simp [h]
  · exact h

theorem open_named (localtime : Int → Tm) (o : Opening) (fs : FileSink) (w : World) (h : fs.dir.bytes ≠ []) :
    Named (hxFileOpenActive localtime o fs w).2.1 := by
  have hat := dirAt_ne localtime h o.now
  unfold FileSink.dirAt at hat
  unfold hxFileOpenActive
  simp only
  split
  · exact ⟨h, hat⟩
  · split
    · exact ⟨h, hat⟩
    · exact ⟨h, hat⟩

theorem archive_named {cur : Tm} {failSec : Int} (h : fs.dir.bytes ≠ []) :
    Named (archiveActive localtime env cur failSec fs w).2.1 := by
  unfold archiveActive
  simp only
  split
  · have hopen := open_named localtime env.opening
      { fs with fp := none, renameFailing := true, rotateFailSec := failSec }
      { w with disk := (w.disk.rename env.renameOk fs.activePath.bytes (archiveTarget fs cur env.listing)).1 } h
    split
    · rename_i heq
      rw [heq] at hopen
      exact hopen
    · rename_i heq
      rw [heq] at hopen
      exact hopen
  · have hopen := open_named localtime env.opening
      { fs with fp := none, renameFailing := false, rotateFailSec := 0 }
      { w with disk := (w.disk.rename env.renameOk fs.activePath.bytes (archiveTarget fs cur env.listing)).1 } h
    split
    · rename_i heq
      rw [heq] at hopen
      exact hopen
    · rename_i heq
      rw [heq] at hopen
      exact hopen

theorem rotate_named (localtime : Int → Tm) (env : Rotating) (incoming : UInt32) (w : World) (h : Named fs) :
    Named (hxRotateMaybe localtime env incoming fs w).2.1 := by
  unfold hxRotateMaybe
  split
  · exact h
  · split
    · have hopen := open_named localtime env.opening { fs with fp := none } w h.1
      split
      · rename_i heq
        rw [heq] at hopen
        exact hopen
      · rename_i heq
        rw [heq] at hopen
        exact hopen
    · exact archive_named h.1

theorem force_named {time : Int} (h : Named fs) : Named (hxRotateForce localtime env time fs w).2.1 := by
  unfold hxRotateForce
  split
  · exact h
  · exact archive_named h.1

theorem write_named {wr : Writing} {data : Bytes} (h : Named fs) : Named (fileWrite localtime wr data fs w).2.1 := by
  have hfwrite : ∀ {fs : FileSink} {w : World}, Named fs → Named (fwriteActive wr data fs w).2.1 := by
    intro fs w h
    obtain ⟨size, failing, heq⟩ := fwrite_keeps wr data fs w
    rw [heq]
    exact h
  unfold fileWrite
  split
  rename_i heq
  split at heq
  · have hrot := rotate_named localtime wr.rotating data.length.toUInt32 w h
    rw [heq] at hrot
    exact hfwrite hrot
  · cases heq
    exact hfwrite h

variable {dir fileName : Option Bytes} {cfg : Option FileConfig} {s : FileSink × World}

/-- The states of a sink from its first opening on, with any changes to the files in between.
`hx_mkdir_p` refuses the empty string. -/
inductive Alive (localtime : Int → Tm) (dir fileName : Option Bytes) (cfg : Option FileConfig) : FileSink × World → Prop where
  | opened {o : Opening} {w : World} {s : FileSink × World} (hdir : dir ≠ some [])
      (h : hxFileOpenActive localtime o (newFileSink dir fileName cfg) w = (.ok, s)) : Alive localtime dir fileName cfg s
  | forced {s : FileSink × World} (h : Alive localtime dir fileName cfg s) (env : Rotating) (time : Int) :
      Alive localtime dir fileName cfg (hxRotateForce localtime env time s.1 s.2).2
  | called {s : FileSink × World} (h : Alive localtime dir fileName cfg s) (c : SinkCall) :
      Alive localtime dir fileName cfg (sinkStep localtime s c)
  | changed {s : FileSink × World} (h : Alive localtime dir fileName cfg s) (d : Disk) :
      Alive localtime dir fileName cfg (s.1, { s.2 with disk := d })

/-- A sink that was created is alive. -/
theorem created_alive {create : Creating} (hdir : create.mkdirOk = true → dir ≠ some [])
    (h : hxSinkFileCreate localtime create dir fileName cfg w = some s) : Alive localtime dir fileName cfg s := by
  unfold hxSinkFileCreate at h
  split at h
  · cases h
  · rename_i hok
    have hmk : create.mkdirOk = true := by
      by_contra hno
      exact hok (Or.inl hno)
    split at h
    · rename_i fs w' ho
      have halive : Alive localtime dir fileName cfg (fs, w') := .opened (hdir hmk) ho
      split at h
      · cases h
        exact halive.forced create.rotating create.time
      · cases h
        exact halive
    · cases h

theorem newFileSink_dir (hdir : dir ≠ some []) : (newFileSink dir fileName cfg).dir.bytes ≠ [] := by
  cases dir with
  | none =>
    show cut pathMax (lit "./logs") ≠ []
    decide
  | some d =>
    intro hnil
    have hcut : cut pathMax d = [] := hnil
    unfold cut at hcut
    rw [List.take_eq_nil_iff] at hcut
    rcases hcut with hcut | hcut
    · revert hcut
      decide
    · exact hdir (congrArg some hcut)

theorem Alive.named (h : Alive localtime dir fileName cfg s) : Named s.1 := by
  induction h with
  | @opened o w s hdir ho =>
    have hopen := open_named localtime o (newFileSink dir fileName cfg) w (newFileSink_dir hdir)
    rw [ho] at hopen
    exact hopen
  | forced h env time ih => exact force_named ih
  | called h c ih =>
    cases c with
    | write called env data => exact write_named ih
    | reopen o => exact open_named localtime o _ _ ih.1
  | changed h d ih => exact ih

end

/-! ## Names that are cut -/

theorem listed_of_keys {d : Disk} {fs : FileSink} {names : List FileName} (h : ∀ p ∈ d.keys, p.name ∈ names) :
    Listed d fs names := by
  intro n hn
  exact h ⟨_, n⟩ (Finmap.mem_keys.mpr (Finmap.lookup_isSome.mp hn))

end HxClog
