import HxClog.LogbookSound

/-!
# Paths that fit

When every path fits into its buffer, an archive is never the active file: its name has
more dots than that of the active file. Resolving a path keeps its dots.
-/

namespace HxClog

open C Posix Scan

/-! ## Dots -/

/-- A path below a directory that has more dots than that of the active file is another. -/
theorem dots_apart {dir base name : Bytes} (hdir : dir ≠ []) (hdots : base.count (chr '.') < name.count (chr '.')) {p : Path}
    (h : resolve (dir ++ slash :: name) = some p) : resolve (withSlash dir ++ base) ≠ some p := by
  intro hactive
  have hdot : chr '.' ≠ slash := by decide
  have hfirst : p.dir.count (chr '.') + p.name.bytes.count (chr '.') = dir.count (chr '.') + name.count (chr '.') := by
    rw [resolve_count hdot (by simp) h, List.count_append, List.count_cons_of_ne (by decide)]
  have hwith : (withSlash dir).count (chr '.') = dir.count (chr '.') := by
    unfold withSlash
    split
    · rw [List.count_append, List.count_singleton, if_neg (by decide), Nat.add_zero]
    · rfl
  by_cases hs : slash ∈ withSlash dir ++ base
  · have hsecond := resolve_count hdot hs hactive
    rw [List.count_append, hwith] at hsecond
    omega
  · -- a directory that ends in a backslash is a part of the name
    rw [List.mem_append, not_or] at hs
    have hback : chr '\\' ∈ dir := by
      have hlast : ¬(dir ≠ [] ∧ dir.getLast? ≠ some slash ∧ dir.getLast? ≠ some (chr '\\')) := by
        intro hall
        refine hs.1 ?_
        unfold withSlash
        rw [if_pos hall]
        simp
      have hnoslash : dir.getLast? ≠ some slash := by
        intro he
        refine hs.1 ?_
        unfold withSlash
        rw [if_neg hlast]
        exact List.mem_of_getLast? he
      refine List.mem_of_getLast? (by_contra fun hne => hlast ⟨hdir, hnoslash, hne⟩)
    obtain ⟨-, hpd⟩ := resolve_some hactive
    rw [if_neg (by simpa using hs)] at hpd
    obtain ⟨-, hqd⟩ := resolve_some h
    rw [if_pos (by simp)] at hqd
    have hfront : chr '\\' ∈ (dir ++ slash :: name).take
        ((dir ++ slash :: name).length - ((dir ++ slash :: name).rtakeWhile (· ≠ slash)).length) := by
      rcases List.append_eq_append_iff.mp (take_append_name (dir ++ slash :: name)) with ⟨t, -, ht⟩ | ⟨t, ht, -⟩
      · have hmem : slash ∈ (dir ++ slash :: name).rtakeWhile (· ≠ slash) := by
          rw [ht]
          simp
        exact absurd (List.mem_rtakeWhile_imp hmem) (by simp)
      · rw [ht]
        exact List.mem_append_left _ hback
    have hmem := mem_dirKey (by decide) hfront
    rw [← hqd, hpd] at hmem
    revert hmem
    decide

/-- The prefix of the archives has the dots of the active file. -/
theorem pre_dots {name : Bytes} (h : name.length < 256) : name.count (chr '.') ≤ (archivePre name).count (chr '.') := by
  unfold archivePre stemDot
  rcases splitName_cases h with hsplit | ⟨a, b, rfl, hb, hsplit⟩
  · rw [hsplit]
    refine List.Sublist.count_le _ ?_
    unfold cut
    rw [List.take_append, List.take_of_length_le (Nat.le_sub_one_of_lt h)]
    exact List.sublist_append_left _ _
  · rw [List.length_append, List.length_cons] at h
    have hroom : (a ++ [chr '.']).length < 256 := by
      rw [List.length_append, List.length_singleton]
      omega
    rw [hsplit, cut_of_lt hroom, List.count_append, List.count_append, List.count_cons_self, List.count_eq_zero.mpr hb]
    rfl

section
variable {fs : FileSink} {localtime : Int → Tm}

theorem archive_dots {m : FileName} (h : fs.archive m = true) :
    fs.baseName.bytes.count (chr '.') < m.bytes.count (chr '.') := by
  unfold FileSink.archive FileSink.kind at h
  obtain ⟨st, p, hname, -⟩ := (archiveNameMatch_isSome _ _ _).mp h
  have hpre : fs.baseName.bytes.count (chr '.') ≤ (collectInit fs).pre.count (chr '.') := pre_dots fs.baseName.fits
  have hstamp : 0 < st.text.count (chr '.') := List.count_pos_iff.mpr (dot_mem_stamp st)
  rw [hname, List.count_append, List.count_append]
  omega

theorem indexed_dots (fs : FileSink) (cur : Tm) (index : Int) :
    fs.baseName.bytes.count (chr '.') < (fs.indexed cur index).count (chr '.') := by
  have hstem : fs.baseName.bytes.count (chr '.') ≤ fs.stem.count (chr '.') + 1 := by
    unfold FileSink.stem
    rcases splitName_cases fs.baseName.fits with hsplit | ⟨a, b, hname, hb, hsplit⟩
    · rw [hsplit]
      exact Nat.le_succ _
    · rw [hsplit, hname, List.count_append, List.count_cons_self, List.count_eq_zero.mpr hb]
  unfold FileSink.indexed
  rw [List.count_append, List.count_cons_self, List.count_append, List.count_cons_self]
  omega

/-! ## Rotations whose paths fit -/

/-- The index in the name of the next archive. -/
def FileSink.nextIndex (fs : FileSink) (cur : Tm) (listing : Option (List FileName)) : Int :=
  Int.bmod (listDir listing (indexCb fs.stem (cut 16 (dateText cur))) 0 + 1) (2 ^ 32)

/-- Nothing is cut off the path of the active file, of its archive, and of the archives that the
cleanup meets. -/
structure NamesFit (fs : FileSink) (cur : Tm) (env : Rotating) : Prop where
  active : (withSlash fs.dir.bytes ++ fs.baseName.bytes).length < pathMax
  target : (fs.activeDir.bytes ++ slash :: (fs.indexed cur (fs.nextIndex cur env.listing) ++ dotExt fs.ext)).length < pathMax
  cleaned : ∀ names, env.cleaning.listing = some names → ∀ m ∈ names, fs.archive m = true →
    (fs.activeDir.bytes ++ slash :: m.bytes).length < pathMax

/-- Nothing is cut off the paths of a rotation: those of the active file, of its archive, and of
the archives that the cleanup meets, with room for `.gz`. -/
structure PathsFit (fs : FileSink) (cur : Tm) (env : Rotating) : Prop where
  active : (withSlash fs.dir.bytes ++ fs.baseName.bytes).length < pathMax
  target : (fs.activeDir.bytes ++ slash :: (fs.indexed cur (fs.nextIndex cur env.listing) ++ dotExt fs.ext)).length < pathMax
  cleaned : ∀ names, env.cleaning.listing = some names → ∀ m ∈ names,
    (fs.activeDir.bytes ++ slash :: (m.bytes ++ lit ".gz")).length < pathMax

theorem PathsFit.names {cur : Tm} {env : Rotating} (h : PathsFit fs cur env) : NamesFit fs cur env where
  active := h.active
  target := h.target
  cleaned := by
    intro names hnames m hm _
    have hroom := h.cleaned names hnames m hm
    rw [List.length_append, List.length_cons, List.length_append] at hroom
    rw [List.length_append, List.length_cons]
    omega

theorem archiveTarget_indexed (fs : FileSink) (cur : Tm) (listing : Option (List FileName)) :
    archiveTarget fs cur listing =
      cut pathMax (fs.activeDir.bytes ++ slash :: cut pathMax (fs.indexed cur (fs.nextIndex cur listing) ++ dotExt fs.ext)) := by
  have hname : fs.indexed cur (fs.nextIndex cur listing) ++ dotExt fs.ext =
      fs.stem ++ chr '.' :: (dateText cur ++ chr '.' :: (padInt 0 (fs.nextIndex cur listing) ++ dotExt fs.ext)) := by
    unfold FileSink.indexed
    simp
  rw [hname]
  rfl

theorem NamesFit.target_eq {cur : Tm} {env : Rotating} (h : NamesFit fs cur env) : archiveTarget fs cur env.listing =
    fs.activeDir.bytes ++ slash :: (fs.indexed cur (fs.nextIndex cur env.listing) ++ dotExt fs.ext) := by
  have hroom := h.target
  rw [archiveTarget_indexed, cut_of_lt (s := fs.indexed cur (fs.nextIndex cur env.listing) ++ dotExt fs.ext), cut_of_lt hroom]
  rw [List.length_append, List.length_cons] at hroom
  omega

/-- A path below the directory that has more dots than the active file is another one. -/
theorem Home.apart (hh : Home localtime fs) (hdir : fs.dir.bytes ≠ [])
    (hfit : (withSlash fs.dir.bytes ++ fs.baseName.bytes).length < pathMax) {p : Path}
    (hp : resolve fs.activePath.bytes = some p) {name : Bytes}
    (hdots : fs.baseName.bytes.count (chr '.') < name.count (chr '.')) :
    resolve (fs.dir.bytes ++ slash :: name) ≠ resolve fs.activePath.bytes := by
  have hactive : fs.activePath.bytes = withSlash fs.dir.bytes ++ fs.baseName.bytes := by
    rw [hh.path, joinPath_bytes fs.dir.fits, cut_of_lt hfit]
  intro hsame
  refine dots_apart hdir hdots (hsame.trans hp) ?_
  rw [← hactive, hp]

/-- Then the archive is another file than the active one, and the cleanup leaves that one alone. -/
theorem NamesFit.apart {cur : Tm} {env : Rotating} (h : NamesFit fs cur env) (hh : Home localtime fs)
    (hdir : fs.dir.bytes ≠ []) {p : Path} (hp : resolve fs.activePath.bytes = some p) :
    resolve (archiveTarget fs cur env.listing) ≠ resolve fs.activePath.bytes ∧ CleanupSpares localtime env fs := by
  constructor
  · rw [h.target_eq, hh.dir]
    refine hh.apart hdir h.active hp ?_
    have hindexed := indexed_dots fs cur (fs.nextIndex cur env.listing)
    rw [List.count_append]
    omega
  · intro names hnames m hm ha
    rw [dirAt_flat hh.flat, hh.pathAt]
    have hroom := h.cleaned names hnames m hm ha
    rw [hh.dir] at hroom
    have hdots := archive_dots ha
    constructor
    · rw [show dirEntry fs.dir.bytes m.bytes = fs.dir.bytes ++ slash :: m.bytes from cut_of_lt hroom]
      exact hh.apart hdir h.active hp hdots
    · -- where `.gz` is cut off, the dots of the archive are still there
      obtain ⟨t, ht⟩ := cut_isPrefix (b := lit ".gz") hroom
      have hentry : dirEntry fs.dir.bytes (m.bytes ++ lit ".gz") = fs.dir.bytes ++ slash :: (m.bytes ++ t) := by
        unfold dirEntry
        rw [← List.cons_append, ← List.append_assoc, ← ht, List.append_assoc, List.cons_append]
      rw [hentry]
      refine hh.apart hdir h.active hp ?_
      rw [List.count_append]
      omega

end

end HxClog
