import HxClog.Retention

/-!
# Retention when calls fail

The trimming passes count only what succeeds, so an archive that cannot be
compressed or removed costs a newer one its place. The newest archives are safe
exactly when enough of the older ones can be trimmed.
-/

namespace HxClog

open C Posix Sweep

section

variable (fs : FileSink) (env : Cleaning) (d : Disk) (names : List FileName)

/-- The plain archives that the compression pass would compress. -/
def FileSink.compresses (n : FileName) : Bool :=
  decide (n ∈ gathered fs env names) && IsHit fs.key (fun m => fs.plain m && fs.compressible env d m)
    (((gathered fs env names).filter fs.plain).length - fs.maxBackupFiles) (gathered fs env names) n

/-- The archives that are compressed when the last pass begins. -/
def FileSink.shelved (n : FileName) : Bool :=
  fs.isGz n || (env.zlib.isSome && (fs.plain n && fs.compresses env d names n))

/-- Enough of the older archives can be trimmed to spare the newest. -/
structure SparesNewest : Prop where
  plain : ∀ n ∈ gathered fs env names, fs.plain n = true → fs.compressible env d n = true →
    IsNewest fs.key fs.maxBackupFiles (names.filter fs.plain) n = true →
    ((gathered fs env names).filter fs.plain).length - fs.maxBackupFiles ≤
      (((gathered fs env names).filter fun m => fs.plain m && fs.compressible env d m).filter
        (fs.key · < fs.key n)).length
  gz : 0 < gzCap fs → ∀ n ∈ gathered fs env names, fs.shelved env d names n = true → env.capOk n.bytes = true →
    IsNewest fs.key (gzCap fs) (names.filter (fs.shelved env d names)) n = true →
    ((gathered fs env names).filter (fs.shelved env d names)).length - gzCap fs ≤
      (((gathered fs env names).filter fun m => fs.shelved env d names m && env.capOk m.bytes).filter
        (fs.key · < fs.key n)).length

/-- The compressed archives of a directory, `d'` being what cleanup has made of it:
those that were there, and the plain ones whose file is gone. -/
def zippedNow (d' : Disk) : List FileName :=
  names.filter fun n => fs.isGz n || (env.zlib.isSome && (fs.plain n && (d'.lookup (fs.path n)).isNone))

/-- Retention has left the newest archives alone: `d'` is what is left of `d`. -/
structure NewestSafe (d' : Disk) : Prop where
  plain : ∀ n ∈ names, fs.plain n = true → IsNewest fs.key fs.maxBackupFiles (names.filter fs.plain) n = true →
    d'.lookup (fs.path n) = d.lookup (fs.path n)
  gz : 0 < gzCap fs → ∀ n ∈ zippedNow fs env names d',
    IsNewest fs.key (gzCap fs) (zippedNow fs env names d') n = true →
      (fs.isGz n = true → d'.lookup (fs.path n) = d.lookup (fs.path n)) ∧
        (fs.plain n = true → ∀ m, gzName n = some m → (d'.lookup (fs.path m)).isSome)

end

variable {fs : FileSink} {env : Cleaning} {d d' : Disk} {names ns : List FileName}

/-! ## Hits are ranks -/

theorem mem_compressed_rank (hN : 0 < fs.maxBackupFiles) (hsorted : ns.Pairwise (fs.key · < fs.key ·))
    (hperm : ns.Perm (gathered fs env names)) (n : FileName) :
    n ∈ fs.compressed env d ns ↔ fs.compresses env d names n = true := by
  unfold FileSink.compressed FileSink.compresses
  rw [if_pos hN, mem_firstHits_perm hsorted hperm, (hperm.filter _).length_eq, Bool.and_eq_true, decide_eq_true_eq]

theorem compresses_plain {n : FileName} (h : fs.compresses env d names n = true) :
    n ∈ gathered fs env names ∧ fs.plain n = true ∧ fs.compressible env d n = true := by
  unfold FileSink.compresses IsHit at h
  simp only [Bool.and_eq_true, decide_eq_true_eq] at h
  exact ⟨h.1, h.2.1⟩

theorem gzs_eq (hN : 0 < fs.maxBackupFiles) (hsorted : ns.Pairwise (fs.key · < fs.key ·))
    (hperm : ns.Perm (gathered fs env names)) : fs.gzs env d ns = ns.filter (fs.shelved env d names) := by
  unfold FileSink.gzs FileSink.shelved
  refine List.filter_congr fun n _ => ?_
  congr 2
  rw [Bool.eq_iff_iff, decide_eq_true_eq, mem_compressed_rank hN hsorted hperm, Bool.and_eq_true]
  exact ⟨fun h => ⟨(compresses_plain h).2.1, h⟩, And.right⟩

theorem mem_capped_rank (hN : 0 < fs.maxBackupFiles) (hK : 0 < gzCap fs) (hsorted : ns.Pairwise (fs.key · < fs.key ·))
    (hperm : ns.Perm (gathered fs env names)) (n : FileName) :
    n ∈ fs.capped env d ns ↔ n ∈ gathered fs env names ∧
      IsHit fs.key (fun m => fs.shelved env d names m && env.capOk m.bytes)
        (((gathered fs env names).filter (fs.shelved env d names)).length - gzCap fs) (gathered fs env names) n = true := by
  have hcand : firstHits (fun m => decide (m ∈ fs.gzs env d ns) && env.capOk m.bytes)
        ((fs.gzs env d ns).length - gzCap fs) ns =
      firstHits (fun m => fs.shelved env d names m && env.capOk m.bytes) ((fs.gzs env d ns).length - gzCap fs) ns := by
    unfold firstHits
    refine congrArg _ (List.filter_congr fun m hm => ?_)
    congr 1
    rw [gzs_eq hN hsorted hperm, Bool.eq_iff_iff, decide_eq_true_eq, List.mem_filter]
    exact and_iff_right hm
  unfold FileSink.capped
  rw [if_pos hK, hcand, mem_firstHits_perm hsorted hperm, gzs_eq hN hsorted hperm, (hperm.filter _).length_eq]

/-! ## The newest archives -/

theorem young_all (hdays : fs.maxBackupDays = 0) : fs.young env d ns = ns := by
  unfold FileSink.young FileSink.aged
  simp [hdays]

/-- What cleanup does not work on stays, whatever else it compresses. -/
theorem Cleaned.untouched (hd : Directory fs d names) (hperm : ns.Perm (gathered fs env names))
    (hc : Cleaned fs env d ns d') {n : FileName} (hn : n ∈ names) (harch : fs.archive n = true)
    (hout : n ∉ gathered fs env names) : d'.lookup (fs.path n) = d.lookup (fs.path n) := by
  have hns : ∀ x ∈ ns, x ∈ names ∧ fs.archive x = true := fun x hx =>
    List.mem_filter.mp (List.mem_of_mem_take (hperm.subset hx))
  refine hc.frame _ (fun x hx he => ?_) fun x hx _ m hm he => ?_
  · rw [fs.path_inj he] at hout
    exact hout (hperm.subset hx)
  · have hx := hns x (List.mem_of_mem_filter hx)
    rw [← fs.path_inj he] at hm
    exact absurd hm (hd.gz_ne hx.1 hn hx.2 harch)

/-- A plain archive is gone when the compression pass takes it, and only then. -/
theorem Cleaned.plain_lookup (hd : Directory fs d names) (hN : 0 < fs.maxBackupFiles) (hdays : fs.maxBackupDays = 0)
    (hsorted : ns.Pairwise (fs.key · < fs.key ·)) (hperm : ns.Perm (gathered fs env names))
    (hc : Cleaned fs env d ns d') {n : FileName} (hn : n ∈ names) (hplain : fs.plain n = true) :
    d'.lookup (fs.path n) = if fs.compresses env d names n then none else d.lookup (fs.path n) := by
  by_cases hin : n ∈ gathered fs env names
  · rw [hc.plain n (by rw [young_all hdays]; exact hperm.symm.subset hin) hplain, young_all hdays]
    simp only [mem_compressed_rank hN hsorted hperm]
  · rw [hc.untouched hd hperm hn (fs.plain_archive hplain) hin, if_neg fun h => hin (compresses_plain h).1]

theorem zippedNow_eq (hd : Directory fs d names) (hN : 0 < fs.maxBackupFiles) (hdays : fs.maxBackupDays = 0)
    (hsorted : ns.Pairwise (fs.key · < fs.key ·)) (hperm : ns.Perm (gathered fs env names))
    (hc : Cleaned fs env d ns d') : zippedNow fs env names d' = names.filter (fs.shelved env d names) := by
  unfold zippedNow FileSink.shelved
  refine List.filter_congr fun n hn => ?_
  cases hplain : fs.plain n with
  | false => rfl
  | true =>
    obtain ⟨f, hf⟩ := Option.isSome_iff_exists.mp (Finmap.lookup_isSome.mpr ((hd.listed n).mp hn))
    rw [hc.plain_lookup hd hN hdays hsorted hperm hn hplain, hf]
    cases fs.compresses env d names n <;> rfl

theorem isHit_false_iff {p : FileName → Bool} {b : Int} {xs : List FileName} {n : FileName} :
    IsHit fs.key p b xs n = false ↔ (p n = true → b ≤ (((xs.filter p).filter (fs.key · < fs.key n)).length : Int)) := by
  unfold IsHit
  rw [decide_eq_false_iff_not, not_and, not_lt]

/-- The newest archives are safe exactly when enough of the older ones can be trimmed. -/
theorem newest_are_safe_iff (env : Cleaning) (w : World) (hd : Directory fs w.disk names)
    (hlist : env.listing = some names) (hN : 0 < fs.maxBackupFiles) (hdays : fs.maxBackupDays = 0) :
    NewestSafe fs env w.disk names (hxRotateCleanup env fs w).disk ↔ SparesNewest fs env w.disk names := by
  obtain ⟨ns, hperm, hsorted, hcleaned⟩ := cleanup_spec env w hd hlist
  generalize (hxRotateCleanup env fs w).disk = d' at hcleaned
  have hgathered : ∀ n ∈ gathered fs env names, n ∈ names ∧ fs.archive n = true := fun n hn =>
    List.mem_filter.mp (List.mem_of_mem_take hn)
  have hpresent : ∀ n ∈ names, ∃ f, w.disk.lookup (fs.path n) = some f := fun n hn =>
    Option.isSome_iff_exists.mp (Finmap.lookup_isSome.mpr ((hd.listed n).mp hn))
  have hplain : (∀ n ∈ names, fs.plain n = true → IsNewest fs.key fs.maxBackupFiles (names.filter fs.plain) n = true →
        d'.lookup (fs.path n) = w.disk.lookup (fs.path n)) ↔
      ∀ n ∈ gathered fs env names, fs.plain n = true →
        IsNewest fs.key fs.maxBackupFiles (names.filter fs.plain) n = true →
          fs.compresses env w.disk names n = false := by
    constructor
    · intro h n hn hp hnew
      have hn' := (hgathered n hn).1
      obtain ⟨f, hf⟩ := hpresent n hn'
      have := h n hn' hp hnew
      rw [hcleaned.plain_lookup hd hN hdays hsorted hperm hn' hp, hf] at this
      cases hc : fs.compresses env w.disk names n with
      | false => rfl
      | true => rw [hc] at this; cases this
    · intro h n hn hp hnew
      rw [hcleaned.plain_lookup hd hN hdays hsorted hperm hn hp, if_neg]
      intro hc
      rw [h n (compresses_plain hc).1 hp hnew] at hc
      cases hc
  have hgz : ∀ n ∈ names, fs.shelved env w.disk names n = true →
      (((fs.isGz n = true → d'.lookup (fs.path n) = w.disk.lookup (fs.path n)) ∧
        (fs.plain n = true → ∀ m, gzName n = some m → (d'.lookup (fs.path m)).isSome)) ↔
          n ∉ fs.capped env w.disk ns) := by
    intro n hn hshelf
    have hyoung : fs.young env w.disk ns = ns := young_all hdays
    cases hg : fs.isGz n with
    | true =>
      have hp : fs.plain n = false := by rw [fs.plain_iff (fs.isGz_archive hg), hg]; rfl
      simp only [hp, forall_const, Bool.false_eq_true, false_implies, and_true]
      by_cases hin : n ∈ gathered fs env names
      · obtain ⟨f, hf⟩ := hpresent n hn
        rw [hcleaned.gz n (by rw [hyoung]; exact hperm.symm.subset hin) hg, hyoung, hf]
        split
        · rename_i hc
          simp [hc]
        · rename_i hc
          simp [hc]
      · refine iff_of_true (hcleaned.untouched hd hperm hn (fs.isGz_archive hg) hin) fun hc => hin ?_
        exact hperm.subset (List.mem_of_mem_filter (mem_capped hc).1)
    | false =>
      unfold FileSink.shelved at hshelf
      simp only [hg, Bool.false_or, Bool.and_eq_true] at hshelf
      obtain ⟨hz, hp, hcomp⟩ := hshelf
      obtain ⟨z, hz⟩ := Option.isSome_iff_exists.mp hz
      obtain ⟨m, blocks, f, hm, _, _, hlook⟩ := hcleaned.zipped z hz n
        (by rw [hyoung]; exact (mem_compressed_rank hN hsorted hperm n).mpr hcomp)
      rw [hyoung] at hlook
      simp only [hp, hm, Bool.false_eq_true, false_implies, true_and, forall_const, Option.some.injEq, forall_eq']
      rw [hlook]
      split
      · rename_i hc
        simp [hc]
      · rename_i hc
        simp [hc]
  have hzipped := zippedNow_eq hd hN hdays hsorted hperm hcleaned
  constructor
  · intro h
    refine ⟨fun n hn hp hok hnew => ?_, fun hK n hn hshelf hok hnew => ?_⟩
    · have hc := hplain.mp h.plain n hn hp hnew
      unfold FileSink.compresses at hc
      rw [decide_eq_true hn, Bool.true_and] at hc
      exact isHit_false_iff.mp hc (by rw [hp, hok]; rfl)
    · have hn' := (hgathered n hn).1
      have hsafe := h.gz hK n (by rw [hzipped]; exact List.mem_filter.mpr ⟨hn', hshelf⟩) (by rw [hzipped]; exact hnew)
      have hc := (hgz n hn' hshelf).mp hsafe
      rw [mem_capped_rank hN hK hsorted hperm, not_and, Bool.not_eq_true] at hc
      exact isHit_false_iff.mp (hc hn) (by rw [hshelf, hok]; rfl)
  · intro h
    refine ⟨hplain.mpr fun n hn hp hnew => ?_, fun hK n hn hnew => ?_⟩
    · cases hc : fs.compresses env w.disk names n with
      | false => rfl
      | true =>
        have hhit := (Bool.and_eq_true_iff.mp hc).2
        rw [isHit_false_iff.mpr fun _ => h.plain n hn hp (compresses_plain hc).2.2 hnew] at hhit
        cases hhit
    · rw [hzipped] at hn hnew
      obtain ⟨hn, hshelf⟩ := List.mem_filter.mp hn
      refine (hgz n hn hshelf).mpr fun hc => ?_
      obtain ⟨hin, hhit⟩ := (mem_capped_rank hN hK hsorted hperm n).mp hc
      rw [isHit_false_iff.mpr fun hp => h.gz hK n hin hshelf (Bool.and_eq_true_iff.mp hp).2 hnew] at hhit
      cases hhit

theorem newest_are_safe_app :
    NewestSafe appSink (.smooth (appFiles.map Prod.fst)) (holding appSink appFiles) (appFiles.map Prod.fst)
      (hxRotateCleanup (.smooth (appFiles.map Prod.fst)) appSink ⟨holding appSink appFiles, [], 0⟩).disk :=
  (newest_are_safe_iff _ ⟨holding appSink appFiles, [], 0⟩ appFiles_directory rfl (by decide) rfl).mpr
    ⟨by decide, by decide⟩

/-- A cleanup in which the oldest archive cannot be opened. -/
def Cleaning.stuck (names : List FileName) : Cleaning :=
  { Cleaning.smooth names with gz := fun b => { GzRun.smooth with srcOk := b ≠ lit "app.2026-06-07.1.log" } }

/-- Two backups are to be kept of three; the second newest is compressed in place of the oldest. -/
theorem newest_backup_compressed :
    let fs := { appSink with maxBackupFiles := 2, maxCompressedFiles := -1 }
    let d := holding fs appFiles
    let names := appFiles.map Prod.fst
    Directory fs d names ∧ (Cleaning.stuck names).listing = some names ∧ 0 < fs.maxBackupFiles ∧ fs.maxBackupDays = 0 ∧
      ¬NewestSafe fs (.stuck names) d names (hxRotateCleanup (.stuck names) fs ⟨d, [], 0⟩).disk := by
  refine ⟨holding_directory (by decide) (by decide) (by decide) (by decide), rfl, by decide, rfl, fun h => ?_⟩
  have hkept := h.plain ⟨lit "app.2026-06-07.2.log", by decide⟩ (by decide) (by decide) (by decide)
  revert hkept
  decide

end HxClog
