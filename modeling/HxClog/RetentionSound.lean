import HxClog.PassesSound

/-!
# The archives that cleanup keeps

The passes of cleanup on the archives of a directory, told apart by their names:
which of them are compressed, which are removed, and what is left of every file,
for any pattern of calls that fail.
-/

namespace HxClog

open C Posix Sweep

section

variable (fs : FileSink)

/-- What the recognizer says about a name: `none`, or whether it ends in `.gz`. -/
def FileSink.kind (n : FileName) : Option Bool :=
  archiveNameMatch n.bytes (collectInit fs).pre (collectInit fs).ext

def FileSink.archive (n : FileName) : Bool := (fs.kind n).isSome

def FileSink.plain (n : FileName) : Bool := fs.kind n = some false

def FileSink.isGz (n : FileName) : Bool := fs.kind n = some true

def FileSink.key (n : FileName) : Int := archiveOrderKey n.bytes (collectInit fs).pre 0

/-- Where a name stands. -/
def FileSink.path (n : FileName) : Path := ⟨dirKey fs.activeDir.bytes, n⟩

def FileSink.mtime (d : Disk) (n : FileName) : Int := ((d.lookup (fs.path n)).map File.mtime).getD 0

def FileSink.row (d : Disk) (n : FileName) : Row := ⟨n.bytes, fs.mtime d n, fs.key n, if fs.isGz n then 1 else 0⟩

/-- A directory whose entries are `names`, in which the paths of all archives fit
and no two archives have the same order key. -/
structure Directory (d : Disk) (names : List FileName) : Prop where
  named : fs.activeDir.bytes ≠ []
  nodup : names.Nodup
  listed : ∀ n, n ∈ names ↔ fs.path n ∈ d
  fits : ∀ n ∈ names, fs.archive n = true → fs.activeDir.bytes.length + 1 + n.bytes.length + 3 < pathMax
  keys : ∀ n ∈ names, ∀ m ∈ names, fs.archive n → fs.archive m → fs.key n = fs.key m → n = m

variable {fs}

theorem FileSink.plain_archive {n : FileName} (h : fs.plain n = true) : fs.archive n = true := by
  unfold FileSink.plain at h
  unfold FileSink.archive
  rw [decide_eq_true_eq] at h
  rw [h]
  rfl

theorem FileSink.isGz_archive {n : FileName} (h : fs.isGz n = true) : fs.archive n = true := by
  unfold FileSink.isGz at h
  unfold FileSink.archive
  rw [decide_eq_true_eq] at h
  rw [h]
  rfl

theorem FileSink.plain_iff {n : FileName} (h : fs.archive n = true) : fs.plain n = !fs.isGz n := by
  unfold FileSink.archive at h
  unfold FileSink.plain FileSink.isGz
  cases hk : fs.kind n with
  | none => rw [hk] at h; cases h
  | some b => cases b <;> simp

theorem FileSink.path_inj {n m : FileName} (h : fs.path n = fs.path m) : n = m := (Posix.Path.mk.inj h).2

/-- The compressed file beside an archive would have the same key. -/
theorem FileSink.key_gz {n m : FileName} (h : fs.archive n = true) (hm : gzName n = some m) : fs.key m = fs.key n := by
  unfold FileSink.key
  rw [gzName_bytes hm]
  exact archiveOrderKey_gz h 0 0

theorem Directory.gz_ne {d : Disk} {names : List FileName} (hd : Directory fs d names) {n m : FileName}
    (hn : n ∈ names) (hm : m ∈ names) (han : fs.archive n = true) (ham : fs.archive m = true) :
    gzName n ≠ some m := fun h => gzName_ne h (hd.keys m hm n hn ham han (fs.key_gz han h))

theorem FileSink.active_not_archive {n : FileName} (h : n.bytes = fs.baseName.bytes) : fs.kind n = none := by
  unfold FileSink.kind
  rw [h]
  exact HxClog.active_not_archive fs.baseName.fits _

/-! ## The rows of a directory -/

theorem collected_eq {d : Disk} {names : List FileName} (hd : Directory fs d names) {n : FileName} (hn : n ∈ names) :
    collected d (collectInit fs) n.bytes = if fs.archive n then some (fs.row d n) else none := by
  have hactive : (collectInit fs).active = fs.baseName.bytes := rfl
  have hdir : (collectInit fs).dir = fs.activeDir.bytes := rfl
  unfold collected FileSink.archive
  cases hk : fs.kind n with
  | none =>
    unfold FileSink.kind at hk
    rw [hk]
    simp
  | some comp =>
    have hne : n.bytes ≠ (collectInit fs).active := by
      rw [hactive]
      intro he
      rw [fs.active_not_archive he] at hk
      cases hk
    have hfile : d.file (dirEntry fs.activeDir.bytes n.bytes) = d.lookup (fs.path n) := by
      unfold Disk.file FileSink.path
      rw [dirEntry_resolve hd.named (by have := hd.fits n hn (by rw [FileSink.archive, hk]; rfl); omega)]
      rfl
    have hgz : fs.isGz n = comp := by
      unfold FileSink.isGz
      rw [hk]
      cases comp <;> rfl
    unfold FileSink.kind at hk
    rw [if_neg hne, hk]
    unfold collectRow FileSink.row FileSink.mtime FileSink.key
    simp only [Option.map_some, Option.isSome_some, if_true, hdir, hfile, hgz]
    have hacc : (archiveNameMatch n.bytes (collectInit fs).pre (collectInit fs).ext).isSome := by
      rw [hk]
      rfl
    rw [cut_of_lt (show n.bytes.length < 256 by have := n.valid.2.2.2.2; omega), archiveOrderKey_accepted hacc _ 0]

theorem collected_names {d : Disk} {names : List FileName} (hd : Directory fs d names) :
    (names.map FileName.bytes).filterMap (collected d (collectInit fs)) = (names.filter fs.archive).map (fs.row d) := by
  rw [List.filterMap_map, ← filterMap_ite]
  exact List.filterMap_congr fun n hn => collected_eq hd hn

/-- The archives one cleanup works on. -/
def gathered (fs : FileSink) (env : Cleaning) (names : List FileName) : List FileName :=
  (names.filter fs.archive).take (room env.alloc)

theorem sorted_names (env : Cleaning) (w : World) {names : List FileName} (hd : Directory fs w.disk names)
    (hlist : env.listing = some names) :
    ∃ ns : List FileName, ns.Perm (gathered fs env names) ∧ ns.Pairwise (fs.key · < fs.key ·) ∧
      (hxRotateCleanup env fs w).disk = cleanRows env fs w.disk (ns.map (fs.row w.disk)) := by
  by_cases halloc : env.alloc 0 = true
  · obtain ⟨rows, hperm, hsorted, hdisk⟩ := hxRotateCleanup_rows env fs w hlist halloc
    rw [collected_names hd, ← List.map_take] at hperm
    obtain ⟨ns, hns, rfl⟩ := exists_map_of_perm hperm
    refine ⟨ns, hns, ?_, hdisk⟩
    have hmem : ∀ n ∈ ns, n ∈ names ∧ fs.archive n = true := fun n hn =>
      List.mem_filter.mp (List.mem_of_mem_take (hns.subset hn))
    have hnd : ns.Nodup := hns.nodup_iff.mpr ((hd.nodup.filter _).take)
    rw [List.pairwise_map] at hsorted
    refine (hsorted.and hnd).imp_of_mem fun {a b} ha hb ⟨hle, hne⟩ => lt_of_le_of_ne hle fun he => hne ?_
    exact hd.keys a (hmem a ha).1 b (hmem b hb).1 (hmem a ha).2 (hmem b hb).2 he
  · refine ⟨[], ?_, List.Pairwise.nil, ?_⟩
    · unfold gathered room
      rw [if_neg halloc, List.take_zero]
    · rw [hxRotateCleanup_idle env fs w (Or.inl (by simpa using halloc))]
      unfold cleanRows ageRows compressRows capRows
      simp only [List.map_nil, sweep, List.filter_nil, ite_self]

/-! ## The passes on names -/

/-- Whether the age pass removes an archive. -/
def FileSink.aged (fs : FileSink) (env : Cleaning) (d : Disk) (n : FileName) : Bool :=
  fs.maxBackupDays > 0 ∧ fs.mtime d n > 0 ∧ fs.mtime d n < env.now - fs.maxBackupDays * 86400

/-- Whether compressing an archive would succeed. -/
def FileSink.compressible (fs : FileSink) (env : Cleaning) (d : Disk) (n : FileName) : Bool :=
  (compressOrDeleteBackup env.zlib (env.gz n.bytes) d fs.activeDir.bytes n.bytes).2

/-- The archives that the compression pass compresses, `ns` being those left by the age pass. -/
def FileSink.compressed (fs : FileSink) (env : Cleaning) (d : Disk) (ns : List FileName) : List FileName :=
  if fs.maxBackupFiles > 0 then
    firstHits (fun n => fs.plain n && fs.compressible env d n) ((ns.filter fs.plain).length - fs.maxBackupFiles) ns
  else []

/-- The compressed archives when the last pass begins. -/
def FileSink.gzs (fs : FileSink) (env : Cleaning) (d : Disk) (ns : List FileName) : List FileName :=
  ns.filter fun n => fs.isGz n || (env.zlib.isSome && decide (n ∈ fs.compressed env d ns))

/-- The compressed archives that the last pass removes. -/
def FileSink.capped (fs : FileSink) (env : Cleaning) (d : Disk) (ns : List FileName) : List FileName :=
  if gzCap fs > 0 then
    firstHits (fun n => decide (n ∈ fs.gzs env d ns) && env.capOk n.bytes)
      ((fs.gzs env d ns).length - gzCap fs) ns
  else []

/-- Archives of a directory, none of which is the compressed file of another. -/
structure Apart (fs : FileSink) (d : Disk) (ns : List FileName) : Prop where
  named : fs.activeDir.bytes ≠ []
  nodup : ns.Nodup
  archive : ∀ n ∈ ns, fs.archive n = true
  present : ∀ n ∈ ns, (d.lookup (fs.path n)).isSome
  fits : ∀ n ∈ ns, fs.activeDir.bytes.length + 1 + n.bytes.length + 3 < pathMax
  gz_ne : ∀ n ∈ ns, ∀ m ∈ ns, gzName n ≠ some m

theorem Directory.apart {d : Disk} {names ns : List FileName} (hd : Directory fs d names) (hnd : ns.Nodup)
    (hns : ∀ n ∈ ns, n ∈ names ∧ fs.archive n = true) : Apart fs d ns where
  named := hd.named
  nodup := hnd
  archive n hn := (hns n hn).2
  present n hn := Finmap.lookup_isSome.mpr ((hd.listed n).mp (hns n hn).1)
  fits n hn := hd.fits n (hns n hn).1 (hns n hn).2
  gz_ne n hn m hm := hd.gz_ne (hns n hn).1 (hns m hm).1 (hns n hn).2 (hns m hm).2

theorem Apart.own_iff {d : Disk} {ns : List FileName} (ha : Apart fs d ns) {n : FileName} (hn : n ∈ ns) (p : Path) :
    archiveOwn fs.activeDir.bytes n p ↔ p = fs.path n ∨ ∃ m, gzName n = some m ∧ p = fs.path m :=
  archiveOwn_iff ha.named (ha.fits n hn) p

/-- Every file belongs to one archive at most. -/
theorem Apart.own_unique {d : Disk} {ns : List FileName} (ha : Apart fs d ns) {n m : FileName} (hn : n ∈ ns)
    (hm : m ∈ ns) {p : Path} (hpn : archiveOwn fs.activeDir.bytes n p) (hpm : archiveOwn fs.activeDir.bytes m p) :
    n = m := by
  rcases (ha.own_iff hn p).mp hpn with rfl | ⟨n', hn', rfl⟩ <;>
    rcases (ha.own_iff hm _).mp hpm with h | ⟨m', hm', h⟩
  · exact fs.path_inj h
  · rw [fs.path_inj h] at hn
    exact absurd hm' (ha.gz_ne m hm m' hn)
  · rw [fs.path_inj h] at hn'
    exact absurd hn' (ha.gz_ne n hn m hm)
  · rw [← fs.path_inj h] at hm'
    exact gzName_inj hn' hm'

theorem Apart.disjoint {d : Disk} {ns : List FileName} (ha : Apart fs d ns) :
    ns.Pairwise (fun n m => ∀ p, archiveOwn fs.activeDir.bytes n p → ¬archiveOwn fs.activeDir.bytes m p) :=
  ha.nodup.imp_of_mem fun hn hm hne _ hpn hpm => hne (ha.own_unique hn hm hpn hpm)

theorem Apart.filter {d : Disk} {ns : List FileName} (ha : Apart fs d ns) (p : FileName → Bool) :
    Apart fs d (ns.filter p) where
  named := ha.named
  nodup := ha.nodup.filter p
  archive n hn := ha.archive n (List.mem_of_mem_filter hn)
  present n hn := ha.present n (List.mem_of_mem_filter hn)
  fits n hn := ha.fits n (List.mem_of_mem_filter hn)
  gz_ne n hn m hm := ha.gz_ne n (List.mem_of_mem_filter hn) m (List.mem_of_mem_filter hm)

theorem FileSink.row_name (d : Disk) (n : FileName) : (fs.row d n).name = n.bytes ∧ (fs.row d n).name ≠ [] :=
  ⟨rfl, n.valid.1⟩

/-- The age pass removes the aged archives. -/
theorem ageRows_spec (env : Cleaning) {d : Disk} {ns : List FileName} (ha : Apart fs d ns) :
    let r := ageRows env fs d (ns.map (fs.row d))
    r.2.filter (·.name ≠ []) = (ns.filter (fun n => !fs.aged env d n)).map (fs.row d) ∧
      (∀ p, (∀ n ∈ ns, fs.aged env d n = true → p ≠ fs.path n) → r.1.lookup p = d.lookup p) ∧
      ∀ n ∈ ns, fs.aged env d n = true →
        r.1.lookup (fs.path n) = if env.ageOk n.bytes then none else d.lookup (fs.path n) := by
  unfold ageRows
  by_cases hdays : fs.maxBackupDays > 0
  · rw [if_pos hdays]
    have hage : ∀ n, fs.aged env d n = true ↔
        (fs.row d n).mtime > 0 ∧ (fs.row d n).mtime < env.now - fs.maxBackupDays * 86400 := by
      intro n
      unfold FileSink.aged FileSink.row
      simp [hdays]
    have hpath : ∀ n ∈ ns, resolve (dirEntry fs.activeDir.bytes n.bytes) = some (fs.path n) := fun n hn =>
      dirEntry_resolve ha.named (by have := ha.fits n hn; omega)
    have hrow : ∀ (s : Disk) (n : FileName),
        ageRow env fs.activeDir.bytes (env.now - fs.maxBackupDays * 86400) s (fs.row d n) =
          ((eachStep (fun d (n : FileName) => d.remove (env.ageOk n.bytes) (dirEntry fs.activeDir.bytes n.bytes))
              (fs.aged env d) s n).1,
            if (eachStep (fun d (n : FileName) => d.remove (env.ageOk n.bytes) (dirEntry fs.activeDir.bytes n.bytes))
              (fs.aged env d) s n).2 then { fs.row d n with name := [] } else fs.row d n) := by
      intro s n
      unfold ageRow eachStep
      by_cases h : fs.aged env d n = true
      · rw [if_pos ((hage n).mp h), if_pos h]
        rfl
      · rw [if_neg fun hr => h ((hage n).mpr hr), if_neg h]
        rfl
    have hdis : ns.Pairwise (fun n m => ∀ p, resolve (dirEntry fs.activeDir.bytes n.bytes) = some p →
        ¬resolve (dirEntry fs.activeDir.bytes m.bytes) = some p) :=
      ha.disjoint.imp fun h p hn hm => h p (Or.inl hn) (Or.inl hm)
    obtain ⟨hflags, hframe, hown⟩ := each_spec
      (remove_local (fun n : FileName => env.ageOk n.bytes) (fun n => dirEntry fs.activeDir.bytes n.bytes))
      (fs.aged env d) d hdis
    rw [sweep_map (k := fun n (hit : Bool) => if hit then { fs.row d n with name := [] } else fs.row d n) hrow, hflags]
    refine ⟨?_, fun p hp => hframe p fun n hn hc ho => ?_, fun n hn hc => ?_⟩
    · simp only
      clear hflags hframe hown hdis hpath ha
      induction ns with
      | nil => rfl
      | cons n ns ih =>
        rw [List.map_cons, List.zipWith_cons_cons]
        cases hc : fs.aged env d n with
        | true =>
          rw [List.filter_cons_of_neg (by simp), List.filter_cons_of_neg (by simp [hc])]
          exact ih
        | false =>
          rw [List.filter_cons_of_pos (by simpa using (fs.row_name d n).2), List.filter_cons_of_pos (by simp [hc]),
            List.map_cons, ← ih]
          rfl
    · rw [hpath n hn] at ho
      exact hp n hn hc (Option.some.inj ho).symm
    · rw [hown n hn hc _ (hpath n hn)]
      exact remove_lookup_self (hpath n hn)
  · rw [if_neg hdays]
    have hage : ∀ n, fs.aged env d n = false := by
      intro n
      unfold FileSink.aged
      simp [hdays]
    refine ⟨?_, fun _ _ => rfl, fun n _ hc => ?_⟩
    · rw [List.filter_eq_self.mpr, List.filter_eq_self.mpr]
      · simp [hage]
      · intro r hr
        obtain ⟨n, _, rfl⟩ := List.mem_map.mp hr
        simpa using (fs.row_name d n).2
    · rw [hage] at hc
      cases hc

theorem zipWith_flags {α β : Type} (k : α → Bool → β) (φ : α → Bool) (xs : List α) :
    List.zipWith k xs (xs.map φ) = xs.map fun x => k x (φ x) := by
  rw [List.zipWith_map_right, List.zipWith_self]

/-- The row of an archive after the compression pass, `hits` being compressed. -/
def FileSink.rowAfter (fs : FileSink) (env : Cleaning) (d : Disk) (hits : List FileName) (n : FileName) : Row :=
  if n ∈ hits then compressedRow env (fs.row d n) else fs.row d n

theorem FileSink.row_plain {d : Disk} {n : FileName} (h : fs.archive n = true) :
    fs.plain n = decide ((fs.row d n).compressed = 0) := by
  rw [fs.plain_iff h]
  unfold FileSink.row
  cases fs.isGz n <;> rfl

/-- Files that agree on an archive and its compressed file agree on whether it can be compressed. -/
theorem compressible_congr (env : Cleaning) {d d' : Disk} {ns : List FileName} (ha : Apart fs d ns) {n : FileName}
    (hn : n ∈ ns) (h : d'.lookup (fs.path n) = d.lookup (fs.path n))
    (hgz : ∀ m, gzName n = some m → d'.lookup (fs.path m) = d.lookup (fs.path m)) :
    fs.compressible env d' n = fs.compressible env d n := by
  refine ((compress_local env.zlib env.gz fs.activeDir.bytes).reads d' d n fun p hp => ?_).1
  rcases (ha.own_iff hn p).mp hp with rfl | ⟨m, hm, rfl⟩
  · exact h
  · exact hgz m hm

/-- The compression pass compresses the first archives that it can. -/
theorem compressRows_spec (env : Cleaning) {d d₁ : Disk} {ns : List FileName} (ha : Apart fs d ns)
    (hsame : ∀ n ∈ ns, ∀ p, archiveOwn fs.activeDir.bytes n p → d₁.lookup p = d.lookup p) :
    let r := compressRows env fs d₁ (ns.map (fs.row d))
    let hits := fs.compressed env d ns
    r.2 = ns.map (fs.rowAfter env d hits) ∧
      (∀ p, (∀ n ∈ ns, fs.plain n = true → ¬archiveOwn fs.activeDir.bytes n p) → r.1.lookup p = d₁.lookup p) ∧
      (∀ n ∈ hits, ∀ p, archiveOwn fs.activeDir.bytes n p → r.1.lookup p =
        (compressOrDeleteBackup env.zlib (env.gz n.bytes) d fs.activeDir.bytes n.bytes).1.lookup p) ∧
      ∀ n ∈ ns, n ∉ hits → ∀ p, archiveOwn fs.activeDir.bytes n p → r.1.lookup p = d.lookup p ∨
        fs.plain n = true ∧ fs.compressible env d n = false ∧ r.1.lookup p =
          (compressOrDeleteBackup env.zlib (env.gz n.bytes) d fs.activeDir.bytes n.bytes).1.lookup p := by
  have hloc := compress_local env.zlib env.gz fs.activeDir.bytes
  have hreads := fun n (hn : n ∈ ns) => hloc.reads d₁ d n (hsame n hn)
  unfold compressRows FileSink.compressed
  by_cases hN : fs.maxBackupFiles > 0
  · rw [if_pos hN, if_pos hN]
    have hcount : (((ns.map (fs.row d)).filter (·.compressed = 0)).length : Int) = (ns.filter fs.plain).length := by
      rw [List.filter_map, List.length_map]
      congr 2
      exact List.filter_congr fun n hn => (fs.row_plain (ha.archive n hn)).symm
    have hrow : ∀ (s : Int × Disk) (n : FileName), fs.archive n = true →
        compressRow env fs.activeDir.bytes s (fs.row d n) =
          ((trimStep (fun d (n : FileName) => compressOrDeleteBackup env.zlib (env.gz n.bytes) d fs.activeDir.bytes n.bytes)
              fs.plain s n).1,
            if (trimStep (fun d (n : FileName) =>
                compressOrDeleteBackup env.zlib (env.gz n.bytes) d fs.activeDir.bytes n.bytes) fs.plain s n).2 then
              compressedRow env (fs.row d n) else fs.row d n) := by
      intro s n hn
      unfold compressRow trimStep
      by_cases h : s.1 > 0 ∧ fs.plain n = true
      · rw [if_pos ⟨h.1, by simpa [fs.row_plain (d := d) hn] using h.2, (fs.row_name d n).2⟩, if_pos h]
        simp only [(fs.row_name d n).1]
        cases (compressOrDeleteBackup env.zlib (env.gz n.bytes) s.2 fs.activeDir.bytes n.bytes).2 <;> rfl
      · rw [if_neg fun hr => h ⟨hr.1, by simpa [fs.row_plain (d := d) hn] using hr.2.1⟩, if_neg h]
        rfl
    obtain ⟨hflags, hframe, hhit, hmiss⟩ := trim_spec hloc fs.plain
      ((ns.filter fs.plain).length - fs.maxBackupFiles) d₁ ha.disjoint ha.nodup
    have hfirst : firstHits (fun n => fs.plain n &&
          (compressOrDeleteBackup env.zlib (env.gz n.bytes) d₁ fs.activeDir.bytes n.bytes).2)
          ((ns.filter fs.plain).length - fs.maxBackupFiles) ns =
        firstHits (fun n => fs.plain n && fs.compressible env d n)
          ((ns.filter fs.plain).length - fs.maxBackupFiles) ns := by
      unfold firstHits
      refine congrArg _ (List.filter_congr fun n hn => ?_)
      rw [(hreads n hn).1]
      rfl
    simp only [hfirst] at hflags hhit hmiss
    simp only [hcount]
    rw [sweep_map_mem (k := fun n (hit : Bool) => if hit then compressedRow env (fs.row d n) else fs.row d n)
      fun s n hn => hrow s n (ha.archive n hn), hflags, zipWith_flags]
    refine ⟨?_, hframe, fun n hn p hp => ?_, fun n hn hnh p hp => ?_⟩
    · simp only
      refine List.map_congr_left fun n _ => ?_
      unfold FileSink.rowAfter
      simp only [decide_eq_true_eq]
    · rw [hhit n hn p hp]
      exact (hreads n (mem_of_mem_firstHits hn).1).2 p hp
    · rcases hmiss n hn hnh p hp with h | ⟨hc, hf, h⟩
      · exact Or.inl (h.trans (hsame n hn p hp))
      · exact Or.inr ⟨hc, (hreads n hn).1.symm.trans hf, h.trans ((hreads n hn).2 p hp)⟩
  · rw [if_neg hN, if_neg hN]
    refine ⟨?_, fun _ _ => rfl, fun _ hn => (nomatch hn), fun n hn _ p hp => Or.inl (hsame n hn p hp)⟩
    refine List.map_congr_left fun n _ => ?_
    unfold FileSink.rowAfter
    rw [if_neg (List.not_mem_nil)]

/-! ## The last pass -/

theorem mem_compressed {env : Cleaning} {d : Disk} {ns : List FileName} {n : FileName}
    (h : n ∈ fs.compressed env d ns) : n ∈ ns ∧ fs.plain n = true ∧ fs.compressible env d n = true := by
  unfold FileSink.compressed at h
  split at h
  · have := mem_of_mem_firstHits h
    simpa [Bool.and_eq_true] using this
  · cases h

/-- The file that the last pass would remove. -/
def FileSink.gzPath (fs : FileSink) (env : Cleaning) (d : Disk) (ns : List FileName) (n : FileName) : Bytes :=
  dirEntry fs.activeDir.bytes (fs.rowAfter env d (fs.compressed env d ns) n).gzFile

theorem dirEntry_nil {dir : Bytes} (h : dir.length + 1 < pathMax) : resolve (dirEntry dir []) = none := by
  rw [dirEntry_fits (by simpa using h)]
  exact resolve_join_none (by simp) (fun hv => hv.1 rfl)

/-- It is the archive itself, or the compressed file that has taken its place. -/
theorem gzPath_cases (env : Cleaning) {d : Disk} {ns : List FileName} (ha : Apart fs d ns) {n : FileName} (hn : n ∈ ns) :
    (n ∉ fs.compressed env d ns ∧ resolve (fs.gzPath env d ns n) = some (fs.path n)) ∨
      (n ∈ fs.compressed env d ns ∧ env.zlib.isSome = true ∧
        resolve (fs.gzPath env d ns n) = (gzName n).map fs.path) ∨
      (n ∈ fs.compressed env d ns ∧ env.zlib.isSome = false ∧ resolve (fs.gzPath env d ns n) = none) := by
  have hfit := ha.fits n hn
  unfold FileSink.gzPath FileSink.rowAfter
  by_cases hc : n ∈ fs.compressed env d ns
  · have hplain := (fs.row_plain (d := d) (ha.archive n hn)).symm.trans (mem_compressed hc).2.1
    rw [decide_eq_true_eq] at hplain
    rw [if_pos hc]
    cases hz : env.zlib.isSome with
    | true =>
      right; left
      refine ⟨hc, rfl, ?_⟩
      unfold compressedRow
      rw [if_pos hz]
      exact dirEntry_gz ha.named hfit
    | false =>
      right; right
      refine ⟨hc, rfl, ?_⟩
      unfold compressedRow
      rw [if_neg (by simp [hz])]
      unfold Row.gzFile
      rw [if_neg (show (fs.row d n).compressed ≠ 2 by omega)]
      exact dirEntry_nil (by omega)
  · left
    refine ⟨hc, ?_⟩
    rw [if_neg hc]
    have hgz : (fs.row d n).gzFile = n.bytes := by
      unfold Row.gzFile FileSink.row
      cases fs.isGz n <;> rfl
    rw [hgz]
    exact dirEntry_resolve ha.named (by omega)

theorem gzPath_own (env : Cleaning) {d : Disk} {ns : List FileName} (ha : Apart fs d ns) {n : FileName} (hn : n ∈ ns)
    {p : Path} (h : resolve (fs.gzPath env d ns n) = some p) : archiveOwn fs.activeDir.bytes n p := by
  rw [ha.own_iff hn]
  rcases gzPath_cases env ha hn with ⟨_, hr⟩ | ⟨_, _, hr⟩ | ⟨_, _, hr⟩
  · rw [hr] at h
    exact Or.inl (Option.some.inj h).symm
  · rw [hr, Option.map_eq_some_iff] at h
    obtain ⟨m, hm, hp⟩ := h
    exact Or.inr ⟨m, hm, hp.symm⟩
  · rw [hr] at h
    cases h

/-- The rows that the last pass counts. -/
theorem rowAfter_gz (env : Cleaning) {d : Disk} {ns : List FileName} (ha : Apart fs d ns) {n : FileName} (hn : n ∈ ns) :
    ((fs.rowAfter env d (fs.compressed env d ns) n).name ≠ [] ∧
        (fs.rowAfter env d (fs.compressed env d ns) n).compressed ≠ 0) ↔ n ∈ fs.gzs env d ns := by
  have harch := ha.archive n hn
  unfold FileSink.gzs FileSink.rowAfter
  simp only [List.mem_filter, hn, true_and, Bool.or_eq_true, Bool.and_eq_true, decide_eq_true_eq]
  by_cases hc : n ∈ fs.compressed env d ns
  · have hgz : fs.isGz n = false := by
      have := fs.plain_iff harch
      rw [(mem_compressed hc).2.1] at this
      simpa using this.symm
    have hzero : (fs.row d n).compressed = 0 := by
      unfold FileSink.row
      simp [hgz]
    rw [if_pos hc]
    unfold compressedRow
    cases hz : env.zlib.isSome with
    | true => simp [hc, (fs.row_name d n).2]
    | false => simp [hgz]
  · rw [if_neg hc]
    unfold FileSink.row
    cases fs.isGz n <;> simp [hc, n.valid.1]

theorem mem_capped {env : Cleaning} {d : Disk} {ns : List FileName} {n : FileName} (h : n ∈ fs.capped env d ns) :
    n ∈ fs.gzs env d ns ∧ env.capOk n.bytes = true := by
  unfold FileSink.capped at h
  split at h
  · have := mem_of_mem_firstHits h
    simpa [Bool.and_eq_true] using this.2
  · cases h

/-- The last pass removes the first compressed archives that it can. -/
theorem capRows_spec (env : Cleaning) {d d₂ : Disk} {ns : List FileName} (ha : Apart fs d ns)
    (hpresent : ∀ n ∈ fs.gzs env d ns, ∃ p, resolve (fs.gzPath env d ns n) = some p ∧ (d₂.lookup p).isSome) :
    let d₃ := capRows env fs d₂ (ns.map (fs.rowAfter env d (fs.compressed env d ns)))
    (∀ p, (∀ n ∈ fs.capped env d ns, resolve (fs.gzPath env d ns n) ≠ some p) → d₃.lookup p = d₂.lookup p) ∧
      ∀ n ∈ fs.capped env d ns, ∀ p, resolve (fs.gzPath env d ns n) = some p → d₃.lookup p = none := by
  have hremove : ∀ (n : FileName) (p : Path), resolve (fs.gzPath env d ns n) = some p →
      (d₂.remove (env.capOk n.bytes) (fs.gzPath env d ns n)).1.lookup p =
        if env.capOk n.bytes then none else d₂.lookup p := fun n p h => remove_lookup_self h
  have hfirst : ∀ b, firstHits (fun n => decide (n ∈ fs.gzs env d ns) &&
        (d₂.remove (env.capOk n.bytes) (fs.gzPath env d ns n)).2) b ns =
      firstHits (fun n => decide (n ∈ fs.gzs env d ns) && env.capOk n.bytes) b ns := by
    intro b
    unfold firstHits
    refine congrArg _ (List.filter_congr fun n _ => ?_)
    by_cases hg : n ∈ fs.gzs env d ns
    · obtain ⟨p, hp, hin⟩ := hpresent n hg
      rw [remove_ok hp hin]
    · simp [hg]
  unfold capRows FileSink.capped
  by_cases hK : gzCap fs > 0
  · rw [if_pos hK, if_pos hK]
    have hcount : (((ns.map (fs.rowAfter env d (fs.compressed env d ns))).filter
        (fun r => r.name ≠ [] ∧ r.compressed ≠ 0)).length : Int) = (fs.gzs env d ns).length := by
      rw [List.filter_map, List.length_map]
      congr 2
      conv => rhs; unfold FileSink.gzs
      refine List.filter_congr fun n hn => ?_
      rw [Bool.eq_iff_iff]
      have := rowAfter_gz env ha hn
      unfold FileSink.gzs at this
      simp only [List.mem_filter, hn, true_and] at this
      simpa using this
    have hrow : ∀ (s : Int × Disk), ∀ n ∈ ns, capRow env fs.activeDir.bytes s
          (fs.rowAfter env d (fs.compressed env d ns) n) =
        ((trimStep (fun d' (n : FileName) => d'.remove (env.capOk n.bytes) (fs.gzPath env d ns n))
            (fun n => decide (n ∈ fs.gzs env d ns)) s n).1,
          if (trimStep (fun d' (n : FileName) => d'.remove (env.capOk n.bytes) (fs.gzPath env d ns n))
            (fun n => decide (n ∈ fs.gzs env d ns)) s n).2 then
            { fs.rowAfter env d (fs.compressed env d ns) n with name := [] }
          else fs.rowAfter env d (fs.compressed env d ns) n) := by
      intro s n hn
      have hgz := rowAfter_gz env ha hn
      unfold capRow trimStep
      by_cases h : s.1 > 0 ∧ n ∈ fs.gzs env d ns
      · rw [if_pos ⟨h.1, hgz.mpr h.2⟩, if_pos ⟨h.1, by simpa using h.2⟩]
        have hname : (fs.rowAfter env d (fs.compressed env d ns) n).name = n.bytes := by
          have hne := (hgz.mpr h.2).1
          unfold FileSink.rowAfter compressedRow at hne ⊢
          split
          · rename_i hc
            rw [if_pos hc] at hne
            split
            · rfl
            · rename_i hz
              rw [if_neg hz] at hne
              exact absurd rfl hne
          · rfl
        simp only [hname]
        unfold FileSink.gzPath
        cases (s.2.remove (env.capOk n.bytes)
          (dirEntry fs.activeDir.bytes (fs.rowAfter env d (fs.compressed env d ns) n).gzFile)).2 <;> rfl
      · rw [if_neg fun hr => h ⟨hr.1, hgz.mp hr.2⟩, if_neg fun hr => h ⟨hr.1, by simpa using hr.2⟩]
        rfl
    have hdis : ns.Pairwise (fun n m => ∀ p, resolve (fs.gzPath env d ns n) = some p →
        ¬resolve (fs.gzPath env d ns m) = some p) :=
      ha.nodup.imp_of_mem fun hn hm hne p hpn hpm =>
        hne (ha.own_unique hn hm (gzPath_own env ha hn hpn) (gzPath_own env ha hm hpm))
    obtain ⟨_, hframe, hhit, hmiss⟩ := trim_spec
      (remove_local (fun n : FileName => env.capOk n.bytes) (fs.gzPath env d ns))
      (fun n => decide (n ∈ fs.gzs env d ns)) ((fs.gzs env d ns).length - gzCap fs) d₂ hdis ha.nodup
    simp only [hfirst] at hhit hmiss
    simp only [hcount]
    rw [sweep_map_mem (k := fun n (hit : Bool) => if hit then
      { fs.rowAfter env d (fs.compressed env d ns) n with name := [] } else
        fs.rowAfter env d (fs.compressed env d ns) n) hrow]
    refine ⟨fun p hp => ?_, fun n hn p hp => ?_⟩
    · by_cases hown : ∃ n ∈ ns, resolve (fs.gzPath env d ns n) = some p
      · obtain ⟨n, hn, hr⟩ := hown
        rcases hmiss n hn (fun h => hp n h hr) p hr with h | ⟨_, hfail, h⟩
        · exact h
        · rw [h, hremove n p hr]
          split
          · rename_i hok
            cases hin : d₂.lookup p with
            | none => rfl
            | some f =>
              rw [remove_ok hr (by rw [hin]; rfl), hok] at hfail
              cases hfail
          · rfl
      · exact hframe p fun n hn _ hr => hown ⟨n, hn, hr⟩
    · rw [hhit n hn p hp, hremove n p hp, if_pos]
      have := (mem_of_mem_firstHits hn).2
      rw [Bool.and_eq_true] at this
      exact this.2
  · rw [if_neg hK, if_neg hK]
    exact ⟨fun _ _ => rfl, fun _ hn => nomatch hn⟩

/-! ## A whole cleanup -/

/-- The archives left by the age pass. -/
def FileSink.young (fs : FileSink) (env : Cleaning) (d : Disk) (ns : List FileName) : List FileName :=
  ns.filter fun n => !fs.aged env d n

/-- What a cleanup that works on the archives `ns` makes of the disk `d`. -/
structure Cleaned (fs : FileSink) (env : Cleaning) (d : Disk) (ns : List FileName) (d' : Disk) : Prop where
  frame : ∀ p, (∀ n ∈ ns, p ≠ fs.path n) →
    (∀ n ∈ fs.young env d ns, fs.plain n = true → ∀ m, gzName n = some m → p = fs.path m → env.zlib = none ∨
      n ∉ fs.compressed env d (fs.young env d ns) ∧ fs.compressible env d n = true) → d'.lookup p = d.lookup p
  aged : ∀ n ∈ ns, fs.aged env d n = true →
    d'.lookup (fs.path n) = if env.ageOk n.bytes then none else d.lookup (fs.path n)
  plain : ∀ n ∈ fs.young env d ns, fs.plain n = true → d'.lookup (fs.path n) =
    if n ∈ fs.compressed env d (fs.young env d ns) then none else d.lookup (fs.path n)
  gz : ∀ n ∈ fs.young env d ns, fs.isGz n = true → d'.lookup (fs.path n) =
    if n ∈ fs.capped env d (fs.young env d ns) then none else d.lookup (fs.path n)
  zipped : ∀ z, env.zlib = some z → ∀ n ∈ fs.compressed env d (fs.young env d ns), ∃ m blocks f,
    gzName n = some m ∧ d.lookup (fs.path n) = some f ∧ blocks.flatten = f.content ∧
      d'.lookup (fs.path m) =
        if n ∈ fs.capped env d (fs.young env d ns) then none else some ⟨z blocks, (env.gz n.bytes).now⟩

theorem cleanRows_cleaned (env : Cleaning) {d : Disk} {ns : List FileName} (ha : Apart fs d ns) :
    Cleaned fs env d ns (cleanRows env fs d (ns.map (fs.row d))) := by
  obtain ⟨hrows₁, hframe₁, haged⟩ := ageRows_spec env ha
  unfold cleanRows
  simp only [hrows₁]
  change Cleaned fs env d ns (capRows env fs (compressRows env fs (ageRows env fs d (ns.map (fs.row d))).1
    ((fs.young env d ns).map (fs.row d))).1 (compressRows env fs (ageRows env fs d (ns.map (fs.row d))).1
    ((fs.young env d ns).map (fs.row d))).2)
  have hy : Apart fs d (fs.young env d ns) := ha.filter _
  have hyoung : ∀ n ∈ fs.young env d ns, n ∈ ns ∧ fs.aged env d n = false := fun n hn => by
    simpa [FileSink.young] using hn
  have hpathOwn : ∀ n ∈ ns, archiveOwn fs.activeDir.bytes n (fs.path n) := fun n hn =>
    (ha.own_iff hn _).mpr (Or.inl rfl)
  generalize (ageRows env fs d (ns.map (fs.row d))).1 = d₁ at hframe₁ haged
  -- the age pass leaves the files of the other archives alone
  have hsame : ∀ n ∈ fs.young env d ns, ∀ p, archiveOwn fs.activeDir.bytes n p → d₁.lookup p = d.lookup p := by
    refine fun n hn p hp => hframe₁ p fun x hx hagedx he => ?_
    have hnx := ha.own_unique (hyoung n hn).1 hx hp (he ▸ hpathOwn x hx)
    have hyn := (hyoung n hn).2
    rw [hnx, hagedx] at hyn
    cases hyn
  obtain ⟨hrows₂, hframe₂, hhit, hmiss⟩ := compressRows_spec env hy hsame
  rw [hrows₂]
  generalize (compressRows env fs d₁ ((fs.young env d ns).map (fs.row d))).1 = d₂ at hframe₂ hhit hmiss
  have hfile : ∀ n ∈ fs.young env d ns, ∃ f, d.lookup (fs.path n) = some f := fun n hn =>
    Option.isSome_iff_exists.mp (hy.present n hn)
  have hself : ∀ n ∈ fs.young env d ns, archiveOwn fs.activeDir.bytes n (fs.path n) := fun n hn =>
    hpathOwn n (hyoung n hn).1
  have hspec : ∀ n ∈ fs.compressed env d (fs.young env d ns), d₂.lookup (fs.path n) = none ∧
      ∀ z, env.zlib = some z → ∃ m blocks f, gzName n = some m ∧ d.lookup (fs.path n) = some f ∧
        blocks.flatten = f.content ∧ d₂.lookup (fs.path m) = some ⟨z blocks, (env.gz n.bytes).now⟩ := by
    intro n hn
    obtain ⟨hny, _, hok⟩ := mem_compressed hn
    obtain ⟨f, hf⟩ := hfile n hny
    obtain ⟨hflag, hgone, hzip⟩ := compress_spec hy.named (hy.fits n hny) env.zlib (env.gz n.bytes) hf
    unfold FileSink.compressible at hok
    rw [hflag] at hok
    refine ⟨?_, fun z hz => ?_⟩
    · rw [hhit n hn _ (hself n hny)]
      exact hgone.trans (if_pos hok)
    · obtain ⟨m, blocks, hm, hflat, hlook⟩ := hzip z hz hok
      refine ⟨m, blocks, f, hm, hf, hflat, ?_⟩
      rw [hhit n hn _ ((hy.own_iff hny _).mpr (Or.inr ⟨m, hm, rfl⟩))]
      exact hlook
  have hgzkeep : ∀ n ∈ fs.young env d ns, fs.isGz n = true → d₂.lookup (fs.path n) = d.lookup (fs.path n) := by
    intro n hn hg
    rw [hframe₂ _ fun x hx hplain ho => ?_, hsame n hn _ (hself n hn)]
    have := hy.own_unique hn hx (hself n hn) ho
    rw [← this, fs.plain_iff (hy.archive n hn), hg] at hplain
    cases hplain
  have hplainGz : ∀ n ∈ fs.compressed env d (fs.young env d ns), fs.isGz n = false := by
    intro n hn
    obtain ⟨hny, hplain, _⟩ := mem_compressed hn
    rw [fs.plain_iff (hy.archive n hny)] at hplain
    simpa using hplain
  have hpresent : ∀ n ∈ fs.gzs env d (fs.young env d ns),
      ∃ p, resolve (fs.gzPath env d (fs.young env d ns) n) = some p ∧ (d₂.lookup p).isSome := by
    intro n hn
    unfold FileSink.gzs at hn
    simp only [List.mem_filter, Bool.or_eq_true, Bool.and_eq_true, decide_eq_true_eq] at hn
    obtain ⟨hny, hor⟩ := hn
    rcases gzPath_cases env hy hny with ⟨hc, hr⟩ | ⟨hc, _, hr⟩ | ⟨hc, hz, _⟩
    · have hg := hor.resolve_right fun h => hc h.2
      refine ⟨_, hr, ?_⟩
      rw [hgzkeep n hny hg]
      exact hy.present n hny
    · obtain ⟨z, hz⟩ := Option.isSome_iff_exists.mp (hor.resolve_left (by simp [hplainGz n hc])).1
      obtain ⟨m, blocks, f, hm, _, _, hlook⟩ := (hspec n hc).2 z hz
      rw [hm, Option.map_some] at hr
      exact ⟨_, hr, by rw [hlook]; rfl⟩
    · rcases hor with hg | ⟨hz', _⟩
      · rw [hplainGz n hc] at hg
        cases hg
      · rw [hz] at hz'
        cases hz'
  obtain ⟨hframe₃, hcapped⟩ := capRows_spec env hy hpresent
  generalize capRows env fs d₂ _ = d₃ at hframe₃ hcapped
  have hcapMem : ∀ n ∈ fs.capped env d (fs.young env d ns), n ∈ fs.young env d ns := fun n hn =>
    List.mem_of_mem_filter (mem_capped hn).1
  -- the last pass removes a file only where it stands for a capped archive
  have hforeign : ∀ n ∈ ns, ∀ p, archiveOwn fs.activeDir.bytes n p →
      n ∉ fs.capped env d (fs.young env d ns) → d₃.lookup p = d₂.lookup p := by
    intro n hn p hp hnc
    refine hframe₃ p fun x hx hr => hnc ?_
    rw [ha.own_unique hn (hyoung x (hcapMem x hx)).1 hp (gzPath_own env hy (hcapMem x hx) hr)]
    exact hx
  constructor
  · intro p hp hgz
    have h₃ : d₃.lookup p = d₂.lookup p := by
      refine hframe₃ p fun n hn hr => ?_
      have hny := hcapMem n hn
      rcases gzPath_cases env hy hny with ⟨_, hr'⟩ | ⟨hc, hz, hr'⟩ | ⟨_, _, hr'⟩
      · rw [hr'] at hr
        exact hp n (hyoung n hny).1 (Option.some.inj hr).symm
      · rw [hr', Option.map_eq_some_iff] at hr
        obtain ⟨m, hm, he⟩ := hr
        rcases hgz n hny (mem_compressed hc).2.1 m hm he.symm with hz' | hnc
        · rw [hz'] at hz
          cases hz
        · exact hnc.1 hc
      · rw [hr'] at hr
        cases hr
    rw [h₃]
    by_cases hown : ∃ n ∈ fs.young env d ns, fs.plain n = true ∧ archiveOwn fs.activeDir.bytes n p
    · obtain ⟨n, hny, hplain, ho⟩ := hown
      rcases (hy.own_iff hny p).mp ho with he | ⟨m, hm, he⟩
      · exact absurd he (hp n (hyoung n hny).1)
      · rcases hgz n hny hplain m hm he with hz | ⟨hnc, hok⟩
        · have hkeep : (compressOrDeleteBackup env.zlib (env.gz n.bytes) d fs.activeDir.bytes n.bytes).1.lookup p =
              d.lookup p := by
            unfold compressOrDeleteBackup
            rw [hz]
            refine remove_frame fun hr => hp n (hyoung n hny).1 ?_
            rw [dirEntry_resolve hy.named (by have := hy.fits n hny; omega)] at hr
            exact (Option.some.inj hr).symm
          by_cases hc : n ∈ fs.compressed env d (fs.young env d ns)
          · rw [hhit n hc p ho, hkeep]
          · rcases hmiss n hny hc p ho with h | ⟨_, _, h⟩
            · exact h
            · rw [h, hkeep]
        · rcases hmiss n hny hnc p ho with h | ⟨_, hfail, _⟩
          · exact h
          · rw [hok] at hfail
            cases hfail
    · rw [hframe₂ p fun n hn hplain ho => hown ⟨n, hn, hplain, ho⟩]
      exact hframe₁ p fun n hn _ => hp n hn
  · intro n hn hagedn
    have hnot : ∀ x ∈ fs.young env d ns, ∀ p, p = fs.path n → ¬archiveOwn fs.activeDir.bytes x p := by
      rintro x hx p rfl ho
      have := ha.own_unique hn (hyoung x hx).1 (hpathOwn n hn) ho
      have hxy := (hyoung x hx).2
      rw [← this, hagedn] at hxy
      cases hxy
    rw [hframe₃ _ fun x hx hr => hnot x (hcapMem x hx) _ rfl (gzPath_own env hy (hcapMem x hx) hr),
      hframe₂ _ fun x hx _ => hnot x hx _ rfl]
    exact haged n hn hagedn
  · intro n hn hplain
    have h₃ : d₃.lookup (fs.path n) = d₂.lookup (fs.path n) := by
      refine hframe₃ _ fun x hx hr => ?_
      have hxy := hcapMem x hx
      have := hy.own_unique hn hxy (hself n hn) (gzPath_own env hy hxy hr)
      subst this
      have hg := (mem_capped hx).1
      unfold FileSink.gzs at hg
      simp only [List.mem_filter, Bool.or_eq_true, Bool.and_eq_true, decide_eq_true_eq] at hg
      rcases gzPath_cases env hy hn with ⟨hc, _⟩ | ⟨_, _, hr'⟩ | ⟨_, _, hr'⟩
      · have hgz := hg.2.resolve_right fun h => hc h.2
        rw [fs.plain_iff (hy.archive n hn), hgz] at hplain
        cases hplain
      · rw [hr', Option.map_eq_some_iff] at hr
        obtain ⟨m, hm, he⟩ := hr
        exact gzName_ne hm (fs.path_inj he)
      · rw [hr'] at hr
        cases hr
    rw [h₃]
    by_cases hc : n ∈ fs.compressed env d (fs.young env d ns)
    · rw [if_pos hc]
      exact (hspec n hc).1
    · rw [if_neg hc]
      rcases hmiss n hn hc _ (hself n hn) with h | ⟨_, hfail, h⟩
      · exact h
      · obtain ⟨f, hf⟩ := hfile n hn
        obtain ⟨hflag, hgone, _⟩ := compress_spec hy.named (hy.fits n hn) env.zlib (env.gz n.bytes) hf
        unfold FileSink.compressible at hfail
        rw [hflag] at hfail
        rw [h, hf]
        exact hgone.trans (by rw [hfail]; rfl)
  · intro n hn hg
    by_cases hc : n ∈ fs.capped env d (fs.young env d ns)
    · rw [if_pos hc]
      refine hcapped n hc _ ?_
      rcases gzPath_cases env hy hn with ⟨_, hr⟩ | ⟨hz, _⟩ | ⟨hz, _⟩
      · exact hr
      · rw [hplainGz n hz] at hg
        cases hg
      · rw [hplainGz n hz] at hg
        cases hg
    · rw [if_neg hc, hforeign n (hyoung n hn).1 _ (hself n hn) hc]
      exact hgzkeep n hn hg
  · intro z hz n hn
    have hny := (mem_compressed hn).1
    obtain ⟨m, blocks, f, hm, hf, hflat, hlook⟩ := (hspec n hn).2 z hz
    refine ⟨m, blocks, f, hm, hf, hflat, ?_⟩
    have ho : archiveOwn fs.activeDir.bytes n (fs.path m) := (hy.own_iff hny _).mpr (Or.inr ⟨m, hm, rfl⟩)
    by_cases hc : n ∈ fs.capped env d (fs.young env d ns)
    · rw [if_pos hc]
      refine hcapped n hc _ ?_
      rcases gzPath_cases env hy hny with ⟨hnc, _⟩ | ⟨_, _, hr⟩ | ⟨_, hz', _⟩
      · exact absurd hn hnc
      · rw [hr, hm]
        rfl
      · rw [hz] at hz'
        cases hz'
    · rw [if_neg hc, hforeign n (hyoung n hny).1 _ ho hc]
      exact hlook

theorem cleanup_spec (env : Cleaning) (w : World) {names : List FileName} (hd : Directory fs w.disk names)
    (hlist : env.listing = some names) :
    ∃ ns : List FileName, ns.Perm (gathered fs env names) ∧ ns.Pairwise (fs.key · < fs.key ·) ∧
      Cleaned fs env w.disk ns (hxRotateCleanup env fs w).disk := by
  obtain ⟨ns, hperm, hsorted, hdisk⟩ := sorted_names env w hd hlist
  have hmem : ∀ n ∈ ns, n ∈ names ∧ fs.archive n = true := fun n hn =>
    List.mem_filter.mp (List.mem_of_mem_take (hperm.subset hn))
  refine ⟨ns, hperm, hsorted, ?_⟩
  rw [hdisk]
  exact cleanRows_cleaned env (hd.apart (sorted_nodup hsorted) hmem)

end

end HxClog
