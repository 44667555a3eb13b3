import HxClog.RetentionSound

/-!
# Retention

What is left of a directory after `hx_rotate_cleanup`. When every call succeeds it
is the right set of archives. When calls fail, the trimming passes go on to newer
archives, and the newest are safe only under a condition on what failed.
-/

namespace HxClog

open C Posix Sweep

/-! ## The right set -/

section

variable (fs : FileSink) (env : Cleaning) (d : Disk) (names : List FileName)

/-- The archives that are not too old. -/
def remaining : List FileName := fs.young env d (names.filter fs.archive)

def plains : List FileName := (remaining fs env d names).filter fs.plain

/-- A plain archive that stays plain. -/
def staysPlain (n : FileName) : Bool :=
  fs.maxBackupFiles ≤ 0 ∨ IsNewest fs.key fs.maxBackupFiles (plains fs env d names) n

/-- The compressed archives, with those compressed just now. -/
def zipped : List FileName :=
  (remaining fs env d names).filter fun n =>
    fs.isGz n || (env.zlib.isSome && (fs.plain n && !staysPlain fs env d names n))

/-- A compressed archive that is not deleted. -/
def staysZipped (n : FileName) : Bool :=
  gzCap fs ≤ 0 ∨ IsNewest fs.key (gzCap fs) (zipped fs env d names) n

/-- A directory after retention: `d'` is what is left of `d`. -/
structure RightSet (d' : Disk) : Prop where
  others : ∀ p, p.dir ≠ dirKey fs.activeDir.bytes ∨ fs.archive p.name = false → d'.lookup p = d.lookup p
  active : ∀ n : FileName, n.bytes = fs.baseName.bytes → d'.lookup (fs.path n) = d.lookup (fs.path n)
  aged : ∀ n ∈ names, fs.archive n = true → fs.aged env d n = true → d'.lookup (fs.path n) = none
  plain : ∀ n ∈ plains fs env d names, d'.lookup (fs.path n) =
    if staysPlain fs env d names n then d.lookup (fs.path n) else none
  gz : ∀ n ∈ remaining fs env d names, fs.isGz n = true → d'.lookup (fs.path n) =
    if staysZipped fs env d names n then d.lookup (fs.path n) else none
  zipped : ∀ z, env.zlib = some z → ∀ n ∈ plains fs env d names, staysPlain fs env d names n = false →
    ∃ (m : FileName) (blocks : List Bytes) (f : File), m.bytes = n.bytes ++ lit ".gz" ∧
      d.lookup (fs.path n) = some f ∧ blocks.flatten = f.content ∧
      d'.lookup (fs.path m) =
        if staysZipped fs env d names n then some ⟨z blocks, (env.gz n.bytes).now⟩ else none
  nothing_else : ∀ m, fs.archive m = true → m ∉ names →
    (∀ n ∈ plains fs env d names, env.zlib.isSome = true → staysPlain fs env d names n = false →
      m.bytes ≠ n.bytes ++ lit ".gz") → d'.lookup (fs.path m) = none
  plain_count : ∀ k : Nat, 0 < k → fs.maxBackupFiles = k →
    ((plains fs env d names).filter (staysPlain fs env d names)).length = min k (plains fs env d names).length
  zipped_count : ∀ k : Nat, 0 < k → gzCap fs = k →
    ((HxClog.zipped fs env d names).filter (staysZipped fs env d names)).length =
      min k (HxClog.zipped fs env d names).length

/-- Every call that cleanup makes succeeds. -/
structure AllSucceed : Prop where
  room : (names.filter fs.archive).length ≤ room env.alloc
  removals : ∀ b, env.ageOk b = true ∧ env.capOk b = true
  calls : ∀ n ∈ names, fs.plain n = true → (env.gz n.bytes).srcOk = true ∧ (env.gz n.bytes).gzopenOk = true ∧
    (∀ k, (env.gz n.bytes).readStop k = none ∧ (env.gz n.bytes).writeOk k = true) ∧
    (env.gz n.bytes).closeOk = true ∧ (env.gz n.bytes).removeSrc = true
  fits : ∀ n ∈ names, fs.plain n = true → n.bytes.length + 3 ≤ 255

end

variable {fs : FileSink} {env : Cleaning} {d : Disk} {names ns : List FileName}

theorem copyLoop_ok {g : GzRun} (h : ∀ k, g.readStop k = none ∧ g.writeOk k = true) : ∀ (fuel k : Nat) (rest : Bytes),
    (copyLoop g fuel k rest).2 = true
  | 0, _, _ => rfl
  | fuel + 1, k, rest => by
    obtain ⟨hread, hwrite⟩ := h k
    unfold copyLoop
    simp only [hread]
    rw [if_neg (fun hc => hc.2 hwrite)]
    split
    · rfl
    · exact copyLoop_ok h fuel (k + 1) _

theorem gzName_fits {n : FileName} (h : n.bytes.length + 3 ≤ 255) : (gzName n).isSome = true := by
  have hv : ValidName (n.bytes ++ lit ".gz") := by
    have hlen : (n.bytes ++ lit ".gz").length = n.bytes.length + 3 := List.length_append
    have hpos : 0 < n.bytes.length := List.length_pos_iff.mpr n.valid.1
    refine ⟨fun hc => ?_, fun hc => ?_, fun hc => ?_, slash_gz, by omega⟩ <;>
      have := congrArg List.length hc <;> simp only [hlen] at this
    · cases this
    · rw [show (lit ".").length = 1 from rfl] at this
      omega
    · rw [show (lit "..").length = 2 from rfl] at this
      omega
  unfold gzName
  rw [dif_pos hv]
  rfl

theorem AllSucceed.compressible (hok : AllSucceed fs env names) (hd : Directory fs d names) {n : FileName}
    (hn : n ∈ names) (hplain : fs.plain n = true) : fs.compressible env d n = true := by
  obtain ⟨f, hf⟩ := Option.isSome_iff_exists.mp (Finmap.lookup_isSome.mpr ((hd.listed n).mp hn))
  obtain ⟨hsrc, hgz, hcopy, hclose, hrm⟩ := hok.calls n hn hplain
  unfold FileSink.compressible
  rw [(compress_spec hd.named (hd.fits n hn (fs.plain_archive hplain)) env.zlib (env.gz n.bytes) hf).1]
  unfold compressOk
  cases env.zlib with
  | none => exact hrm
  | some z =>
    simp only [hsrc, hgz, hclose, hrm, gzName_fits (hok.fits n hn hplain), copyLoop_ok hcopy, Bool.and_self]

/-- When every call succeeds, the archives compressed are the plain ones but the newest. -/
theorem mem_compressed_iff (hsorted : ns.Pairwise (fs.key · < fs.key ·)) (hperm : ns.Perm (names.filter fs.archive))
    (hcomp : ∀ n ∈ names, fs.plain n = true → fs.compressible env d n = true) (n : FileName) :
    n ∈ fs.compressed env d (fs.young env d ns) ↔
      n ∈ plains fs env d names ∧ staysPlain fs env d names n = false := by
  have hyoung : (fs.young env d ns).Pairwise (fs.key · < fs.key ·) := hsorted.filter _
  have hplains : ((fs.young env d ns).filter fs.plain).Perm (plains fs env d names) := (hperm.filter _).filter _
  have hfilter : (fs.young env d ns).filter (fun n => fs.plain n && fs.compressible env d n) =
      (fs.young env d ns).filter fs.plain := by
    refine List.filter_congr fun x hx => ?_
    have hx := List.mem_of_mem_filter (hperm.subset (List.mem_of_mem_filter hx))
    cases hp : fs.plain x with
    | true => rw [hcomp x hx hp]; rfl
    | false => rfl
  have hmem : n ∈ fs.young env d ns ∧ (fs.plain n && fs.compressible env d n) = true ↔ n ∈ plains fs env d names := by
    rw [← hplains.mem_iff, ← hfilter, List.mem_filter]
  unfold FileSink.compressed staysPlain
  by_cases hN : fs.maxBackupFiles > 0
  · rw [if_pos hN, ← hfilter, mem_firstHits_newest hyoung, hfilter, isNewest_perm hplains, hmem,
      decide_eq_false_iff_not, not_or]
    exact and_congr_right fun _ => by simp [hN]
  · rw [if_neg hN]
    simp only [List.not_mem_nil, false_iff, not_and]
    intro _
    simp [not_lt.mp hN]

theorem gzs_perm (hsorted : ns.Pairwise (fs.key · < fs.key ·)) (hperm : ns.Perm (names.filter fs.archive))
    (hcomp : ∀ n ∈ names, fs.plain n = true → fs.compressible env d n = true) :
    (fs.gzs env d (fs.young env d ns)).Perm (HxClog.zipped fs env d names) := by
  have hyoung : (fs.young env d ns).Perm (remaining fs env d names) := hperm.filter _
  have heq : fs.gzs env d (fs.young env d ns) = (fs.young env d ns).filter fun n =>
      fs.isGz n || (env.zlib.isSome && (fs.plain n && !staysPlain fs env d names n)) := by
    unfold FileSink.gzs
    refine List.filter_congr fun x hx => ?_
    have hmem := mem_compressed_iff (d := d) hsorted hperm hcomp x
    rw [plains, List.mem_filter] at hmem
    have hx' := hyoung.subset hx
    congr 2
    rw [Bool.eq_iff_iff, decide_eq_true_eq, hmem]
    simp [hx']
  rw [heq]
  exact hyoung.filter _

/-- When every call succeeds, the archives removed at the end are the compressed ones but the newest. -/
theorem mem_capped_iff (hsorted : ns.Pairwise (fs.key · < fs.key ·)) (hperm : ns.Perm (names.filter fs.archive))
    (hok : AllSucceed fs env names) (hcomp : ∀ n ∈ names, fs.plain n = true → fs.compressible env d n = true) (n : FileName) :
    n ∈ fs.capped env d (fs.young env d ns) ↔
      n ∈ HxClog.zipped fs env d names ∧ staysZipped fs env d names n = false := by
  have hyoung : (fs.young env d ns).Pairwise (fs.key · < fs.key ·) := hsorted.filter _
  have hgzs := gzs_perm (d := d) hsorted hperm hcomp
  have hfilter : (fs.young env d ns).filter
      (fun n => decide (n ∈ fs.gzs env d (fs.young env d ns)) && env.capOk n.bytes) =
      fs.gzs env d (fs.young env d ns) := by
    conv => rhs; unfold FileSink.gzs
    refine List.filter_congr fun x hx => ?_
    rw [(hok.removals x.bytes).2, Bool.and_true, FileSink.gzs, Bool.eq_iff_iff, decide_eq_true_eq, List.mem_filter]
    exact and_iff_right hx
  have hmem : n ∈ fs.young env d ns ∧
      (decide (n ∈ fs.gzs env d (fs.young env d ns)) && env.capOk n.bytes) = true ↔
        n ∈ HxClog.zipped fs env d names := by
    rw [← hgzs.mem_iff]
    conv => rhs; rw [← hfilter, List.mem_filter]
  unfold FileSink.capped staysZipped
  by_cases hK : gzCap fs > 0
  · have hnew := mem_firstHits_newest hyoung
      (fun n => decide (n ∈ fs.gzs env d (fs.young env d ns)) && env.capOk n.bytes) (gzCap fs) n
    rw [hfilter, isNewest_perm hgzs, hmem] at hnew
    rw [if_pos hK, hnew, decide_eq_false_iff_not, not_or]
    exact and_congr_right fun _ => by simp [hK]
  · rw [if_neg hK]
    simp only [List.not_mem_nil, false_iff, not_and]
    intro _
    simp [not_lt.mp hK]

theorem remaining_mem {n : FileName} (h : n ∈ remaining fs env d names) : n ∈ names ∧ fs.archive n = true :=
  List.mem_filter.mp (List.mem_of_mem_filter h)

/-- What retention keeps when every call succeeds. -/
theorem cleanup_keeps_right_set (env : Cleaning) (w : World) (hd : Directory fs w.disk names)
    (hlist : env.listing = some names) (hok : AllSucceed fs env names) :
    RightSet fs env w.disk names (hxRotateCleanup env fs w).disk := by
  obtain ⟨ns, hperm, hsorted, hcleaned⟩ := cleanup_spec env w hd hlist
  rw [gathered, List.take_of_length_le hok.room] at hperm
  have hcomp : ∀ n ∈ names, fs.plain n = true → fs.compressible env w.disk n = true := fun n hn hp =>
    hok.compressible hd hn hp
  have hyoung : (fs.young env w.disk ns).Perm (remaining fs env w.disk names) := hperm.filter _
  have hzip := mem_compressed_iff (d := w.disk) hsorted hperm hcomp
  have hcap := mem_capped_iff (d := w.disk) hsorted hperm hok hcomp
  have hns : ∀ n ∈ ns, n ∈ names ∧ fs.archive n = true := fun n hn => List.mem_filter.mp (hperm.subset hn)
  -- a plain archive's compressed file is an archive too
  have hgzArchive : ∀ n m, fs.plain n = true → gzName n = some m → fs.archive m = true := by
    intro n m hn hm
    unfold FileSink.archive FileSink.kind
    rw [gzName_bytes hm, archiveNameMatch_gz (by
      show (cut 64 _).length < 64
      rw [cut_length]
      omega) (of_decide_eq_true hn)]
    rfl
  have hothers : ∀ p, p.dir ≠ dirKey fs.activeDir.bytes ∨ fs.archive p.name = false →
      (hxRotateCleanup env fs w).disk.lookup p = w.disk.lookup p := by
    intro p hp
    refine hcleaned.frame p (fun n hn he => ?_) fun n _ hplain m hm he => ?_
    · rcases hp with hp | hp <;> rw [he] at hp
      · exact hp rfl
      · rw [show (fs.path n).name = n from rfl, (hns n hn).2] at hp
        cases hp
    · rcases hp with hp | hp <;> rw [he] at hp
      · exact absurd rfl hp
      · rw [show (fs.path m).name = m from rfl, hgzArchive n m hplain hm] at hp
        cases hp
  constructor
  · exact hothers
  · intro n hn
    refine hothers _ (Or.inr ?_)
    rw [show (fs.path n).name = n from rfl, FileSink.archive, fs.active_not_archive hn]
    rfl
  · intro n hn harch haged
    rw [hcleaned.aged n (hperm.symm.subset (List.mem_filter.mpr ⟨hn, harch⟩)) haged, if_pos (hok.removals _).1]
  · intro n hn
    obtain ⟨hrem, hplain⟩ := List.mem_filter.mp hn
    rw [hcleaned.plain n (hyoung.symm.subset hrem) hplain]
    by_cases hs : staysPlain fs env w.disk names n = true
    · rw [if_pos hs, if_neg fun hc => absurd ((hzip n).mp hc).2 (by simp [hs])]
    · rw [if_neg hs, if_pos ((hzip n).mpr ⟨hn, by simpa using hs⟩)]
  · intro n hn hg
    have hmem : n ∈ HxClog.zipped fs env w.disk names := List.mem_filter.mpr ⟨hn, by simp [hg]⟩
    rw [hcleaned.gz n (hyoung.symm.subset hn) hg]
    by_cases hs : staysZipped fs env w.disk names n = true
    · rw [if_pos hs, if_neg fun hc => absurd ((hcap n).mp hc).2 (by simp [hs])]
    · rw [if_neg hs, if_pos ((hcap n).mpr ⟨hmem, by simpa using hs⟩)]
  · intro z hz n hn hs
    obtain ⟨m, blocks, f, hm, hf, hflat, hlook⟩ := hcleaned.zipped z hz n ((hzip n).mpr ⟨hn, hs⟩)
    obtain ⟨hrem, hplain⟩ := List.mem_filter.mp hn
    have hmem : n ∈ HxClog.zipped fs env w.disk names := List.mem_filter.mpr ⟨hrem, by simp [hz, hplain, hs]⟩
    refine ⟨m, blocks, f, gzName_bytes hm, hf, hflat, ?_⟩
    rw [hlook]
    by_cases hs' : staysZipped fs env w.disk names n = true
    · rw [if_pos hs', if_neg fun hc => absurd ((hcap n).mp hc).2 (by simp [hs'])]
    · rw [if_neg hs', if_pos ((hcap n).mpr ⟨hmem, by simpa using hs'⟩)]
  · intro m hm hnot hnone
    have habsent : w.disk.lookup (fs.path m) = none := Finmap.lookup_eq_none.mpr fun h => hnot ((hd.listed m).mpr h)
    rw [hcleaned.frame _ (fun n hn he => ?_) fun n hn hplain m' hm' he => ?_]
    · exact habsent
    · rw [fs.path_inj he] at hnot
      exact hnot (hns n hn).1
    · cases hz : env.zlib with
      | none => exact Or.inl rfl
      | some z =>
        obtain rfl := fs.path_inj he
        have hrem := hyoung.subset hn
        refine Or.inr ⟨fun hc => ?_, hcomp n (remaining_mem hrem).1 hplain⟩
        exact hnone n (List.mem_filter.mpr ⟨hrem, hplain⟩) (by rw [hz]; rfl) ((hzip n).mp hc).2 (gzName_bytes hm')
  · intro k hk hN
    have hP : ((fs.young env w.disk ns).filter fs.plain).Perm (plains fs env w.disk names) := hyoung.filter _
    have hstays : staysPlain fs env w.disk names =
        IsNewest fs.key k ((fs.young env w.disk ns).filter fs.plain) := by
      funext n
      unfold staysPlain
      rw [hN, isNewest_perm hP]
      simp [hk.ne']
    have hsort : ((fs.young env w.disk ns).filter fs.plain).Pairwise (fs.key · < fs.key ·) :=
      (hsorted.filter _).filter _
    rw [hstays, ← (hP.filter _).length_eq, newest_length hsort, hP.length_eq]
  · intro k hk hK
    have hG := gzs_perm (d := w.disk) hsorted hperm hcomp
    have hstays : staysZipped fs env w.disk names =
        IsNewest fs.key k (fs.gzs env w.disk (fs.young env w.disk ns)) := by
      funext n
      unfold staysZipped
      rw [hK, isNewest_perm hG]
      simp [hk.ne']
    have hsort : (fs.gzs env w.disk (fs.young env w.disk ns)).Pairwise (fs.key · < fs.key ·) :=
      (hsorted.filter _).filter _
    rw [hstays, ← (hG.filter _).length_eq, newest_length hsort, hG.length_eq]

/-! ## A directory -/

/-- The disk whose files are those of a sink's directory. -/
def holding (fs : FileSink) (files : List (FileName × File)) : Disk :=
  files.foldr (fun e d => d.insert (fs.path e.1) e.2) ∅

theorem mem_holding {p : Path} : ∀ {files : List (FileName × File)},
    p ∈ holding fs files ↔ ∃ e ∈ files, p = fs.path e.1
  | [] => by simp [holding, Finmap.notMem_empty]
  | e :: files => by
    have ih : p ∈ holding fs files ↔ ∃ e ∈ files, p = fs.path e.1 := mem_holding
    unfold holding at ih ⊢
    rw [List.foldr_cons, Finmap.mem_insert, ih]
    simp

theorem holding_directory {files : List (FileName × File)} (hnamed : fs.activeDir.bytes ≠ [])
    (hnodup : (files.map Prod.fst).Nodup)
    (hfits : ∀ n ∈ files.map Prod.fst, fs.archive n = true → fs.activeDir.bytes.length + 1 + n.bytes.length + 3 < pathMax)
    (hkeys : ∀ n ∈ files.map Prod.fst, ∀ m ∈ files.map Prod.fst, fs.archive n → fs.archive m → fs.key n = fs.key m → n = m) :
    Directory fs (holding fs files) (files.map Prod.fst) where
  named := hnamed
  nodup := hnodup
  listed n := by
    rw [mem_holding, List.mem_map]
    exact exists_congr fun e => and_congr_right fun _ => ⟨fun h => h ▸ rfl, fun h => (fs.path_inj h).symm⟩
  fits := hfits
  keys := hkeys

/-- A sink on `logs/app.log` that keeps one plain and one compressed archive. -/
def appSink : FileSink where
  fp := none
  dir := ⟨lit "logs", by decide⟩
  activeDir := ⟨lit "logs", by decide⟩
  baseName := ⟨lit "app.log", by decide⟩
  activePath := ⟨lit "logs/app.log", by decide⟩
  currentSize := 0
  policy := .bySize
  maxFileSize := 10
  maxBackupFiles := 1
  maxBackupDays := 0
  rotateDaily := false
  rotateIntervalSeconds := 0
  rotateAlign := false
  rotateOnStartup := false
  maxCompressedFiles := 1
  dateSubdir := false
  curYear := 126
  curYday := 157
  openedSec := 0
  writeFailing := false
  renameFailing := false
  rotateFailSec := 0

def appFiles : List (FileName × File) :=
  [(⟨lit "app.log", by decide⟩, ⟨[], 0⟩), (⟨lit "app.2026-06-07.2.log", by decide⟩, ⟨lit "b", 0⟩),
    (⟨lit "app.2026-06-07.1.log", by decide⟩, ⟨lit "a", 0⟩), (⟨lit "app.2026-06-08.1.log", by decide⟩, ⟨lit "c", 0⟩)]

theorem appFiles_directory : Directory appSink (holding appSink appFiles) (appFiles.map Prod.fst) :=
  holding_directory (by decide) (by decide) (by decide) (by decide)

theorem appFiles_succeed : AllSucceed appSink (.smooth (appFiles.map Prod.fst)) (appFiles.map Prod.fst) where
  room := by decide
  removals _ := ⟨rfl, rfl⟩
  calls _ _ _ := ⟨rfl, rfl, fun _ => ⟨rfl, rfl⟩, rfl, rfl⟩
  fits := by decide

theorem cleanup_keeps_right_set_app :
    RightSet appSink (.smooth (appFiles.map Prod.fst)) (holding appSink appFiles) (appFiles.map Prod.fst)
      (hxRotateCleanup (.smooth (appFiles.map Prod.fst)) appSink ⟨holding appSink appFiles, [], 0⟩).disk :=
  cleanup_keeps_right_set _ ⟨holding appSink appFiles, [], 0⟩ appFiles_directory rfl appFiles_succeed

end HxClog
