import HxClog.CleanupSound

/-!
# The passes of cleanup over rows

`cleanRows` is cleanup on the sorted list of rows, with the arrays gone. Cleanup
computes it for the rows of the directory's archives.
-/

namespace HxClog

open C Posix Sweep Arrays

/-! ## One row -/

def ageRow (env : Cleaning) (dir : Bytes) (cutoff : Int) (d : Disk) (r : Row) : Disk × Row :=
  if r.mtime > 0 ∧ r.mtime < cutoff then
    ((d.remove (env.ageOk r.name) (dirEntry dir r.name)).1, { r with name := [] })
  else (d, r)

/-- What becomes of a row whose archive has been compressed. -/
def compressedRow (env : Cleaning) (r : Row) : Row :=
  if env.zlib.isSome then { r with compressed := 2 } else { r with name := [] }

def compressRow (env : Cleaning) (dir : Bytes) (s : Int × Disk) (r : Row) : (Int × Disk) × Row :=
  if s.1 > 0 ∧ r.compressed = 0 ∧ r.name ≠ [] then
    let (d, done) := compressOrDeleteBackup env.zlib (env.gz r.name) s.2 dir r.name
    if done then ((s.1 - 1, d), compressedRow env r) else ((s.1, d), r)
  else (s, r)

def capRow (env : Cleaning) (dir : Bytes) (s : Int × Disk) (r : Row) : (Int × Disk) × Row :=
  if s.1 > 0 ∧ r.name ≠ [] ∧ r.compressed ≠ 0 then
    let (d, done) := s.2.remove (env.capOk r.name) (dirEntry dir r.gzFile)
    if done then ((s.1 - 1, d), { r with name := [] }) else ((s.1, d), r)
  else (s, r)

theorem ageStep_row (env : Cleaning) (dir : Bytes) (cutoff : Int) (d : Disk) (a : Arrays) (i : Nat) :
    ageStep env dir cutoff (d, a) i =
      ((ageRow env dir cutoff d (a.row i)).1, a.put i (ageRow env dir cutoff d (a.row i)).2) := by
  unfold ageStep ageRow
  simp only [clearName_eq, names_row, mtimes_row]
  by_cases h : (a.row i).mtime > 0 ∧ (a.row i).mtime < cutoff
  · rw [if_pos h, if_pos h]
  · rw [if_neg h, if_neg h, put_row_self]

theorem compressStep_row (env : Cleaning) (dir : Bytes) (s : Int × Disk) (a : Arrays) (i : Nat) :
    compressStep env dir (s, a) i =
      ((compressRow env dir s (a.row i)).1, a.put i (compressRow env dir s (a.row i)).2) := by
  obtain ⟨left, d⟩ := s
  unfold compressStep compressRow compressedRow
  simp only [clearName_eq, setCompressed_eq, names_row, compressed_row]
  by_cases h : left > 0 ∧ (a.row i).compressed = 0 ∧ (a.row i).name ≠ []
  · rw [if_pos h, if_pos h]
    cases hr : compressOrDeleteBackup env.zlib (env.gz (a.row i).name) d dir (a.row i).name with
    | mk d' done =>
      cases done with
      | true =>
        simp only [if_true]
        cases env.zlib.isSome <;> rfl
      | false => simp only [Bool.false_eq_true, if_false, put_row_self]
  · rw [if_neg h, if_neg h, put_row_self]

theorem capStep_row (env : Cleaning) (dir : Bytes) (s : Int × Disk) (a : Arrays) (i : Nat) :
    capStep env dir (s, a) i = ((capRow env dir s (a.row i)).1, a.put i (capRow env dir s (a.row i)).2) := by
  obtain ⟨left, d⟩ := s
  unfold capStep capRow
  simp only [clearName_eq, names_row, compressed_row]
  by_cases h : left > 0 ∧ (a.row i).name ≠ [] ∧ (a.row i).compressed ≠ 0
  · rw [if_pos h, if_pos h]
    cases hr : d.remove (env.capOk (a.row i).name) (dirEntry dir (a.row i).gzFile) with
    | mk d' done =>
      cases done with
      | true => rfl
      | false => simp only [Bool.false_eq_true, if_false, put_row_self]
  · rw [if_neg h, if_neg h, put_row_self]

/-! ## All rows -/

def ageRows (env : Cleaning) (fs : FileSink) (d : Disk) (rows : List Row) : Disk × List Row :=
  if fs.maxBackupDays > 0 then
    sweep (ageRow env fs.activeDir.bytes (env.now - fs.maxBackupDays * 86400)) d rows
  else (d, rows)

def compressRows (env : Cleaning) (fs : FileSink) (d : Disk) (rows : List Row) : Disk × List Row :=
  if fs.maxBackupFiles > 0 then
    let left := ((rows.filter (·.compressed = 0)).length : Int) - fs.maxBackupFiles
    let r := sweep (compressRow env fs.activeDir.bytes) (left, d) rows
    (r.1.2, r.2)
  else (d, rows)

def capRows (env : Cleaning) (fs : FileSink) (d : Disk) (rows : List Row) : Disk :=
  if gzCap fs > 0 then
    let left := ((rows.filter (fun r => r.name ≠ [] ∧ r.compressed ≠ 0)).length : Int) - gzCap fs
    (sweep (capRow env fs.activeDir.bytes) (left, d) rows).1.2
  else d

def cleanRows (env : Cleaning) (fs : FileSink) (d : Disk) (rows : List Row) : Disk :=
  let (d, rows) := ageRows env fs d rows
  let (d, rows) := compressRows env fs d (rows.filter (·.name ≠ []))
  capRows env fs d rows

theorem agePass_rows (env : Cleaning) (fs : FileSink) (d : Disk) {a : Arrays} {m n : Nat} (ha : a.Sized m) (hn : n ≤ m) :
    (agePass env fs (d, a) n).2.Sized m ∧
      ((agePass env fs (d, a) n).1, (agePass env fs (d, a) n).2.rows n) = ageRows env fs d (a.rows n) := by
  unfold agePass ageRows
  split
  · obtain ⟨hsized, hrows, _⟩ := foldl_sweep
      (fun s a i _ _ => ageStep_row env fs.activeDir.bytes (env.now - fs.maxBackupDays * 86400) s a i) d ha hn
    exact ⟨hsized, hrows⟩
  · exact ⟨ha, rfl⟩

theorem compressPass_rows (env : Cleaning) (fs : FileSink) (d : Disk) {a : Arrays} {m n : Nat} (ha : a.Sized m)
    (hn : n ≤ m) :
    (compressPass env fs (d, a) n).2.Sized m ∧
      ((compressPass env fs (d, a) n).1, (compressPass env fs (d, a) n).2.rows n) = compressRows env fs d (a.rows n) := by
  unfold compressPass compressRows
  split
  · simp only [countRows_eq]
    obtain ⟨hsized, hrows, _⟩ := foldl_sweep (fun s a i _ _ => compressStep_row env fs.activeDir.bytes s a i)
      (((a.rows n).filter (·.compressed = 0)).length - fs.maxBackupFiles, d) ha hn
    rw [Prod.ext_iff] at hrows
    exact ⟨hsized, by rw [← hrows.1, ← hrows.2]⟩
  · exact ⟨ha, rfl⟩

theorem capPass_rows (env : Cleaning) (fs : FileSink) (d : Disk) {a : Arrays} {m n : Nat} (ha : a.Sized m)
    (hn : n ≤ m) : (capPass env fs (d, a) n).1 = capRows env fs d (a.rows n) := by
  unfold capPass capRows
  split
  · simp only [countRows_eq]
    obtain ⟨_, hrows, _⟩ := foldl_sweep (fun s a i _ _ => capStep_row env fs.activeDir.bytes s a i)
      (((a.rows n).filter (fun r => r.name ≠ [] ∧ r.compressed ≠ 0)).length - gzCap fs, d) ha hn
    rw [Prod.ext_iff] at hrows
    rw [← hrows.1]
  · rfl

/-- Cleanup is `cleanRows` of the stored rows, sorted. -/
theorem hxRotateCleanup_rows (env : Cleaning) (fs : FileSink) (w : World) {names : List FileName}
    (hlist : env.listing = some names) (halloc : env.alloc 0 = true) :
    ∃ rows : List Row, rows.Perm
        (((names.map FileName.bytes).filterMap (collected w.disk (collectInit fs))).take (room env.alloc)) ∧
      rows.Pairwise (·.key ≤ ·.key) ∧ (hxRotateCleanup env fs w).disk = cleanRows env fs w.disk rows := by
  obtain ⟨hsized, hle, hrows⟩ := collect_spec halloc w.disk fs names
  unfold hxRotateCleanup cleanRows
  rw [if_neg (by simp [halloc]), hlist]
  simp only
  generalize listDir (some names) (collectCb env.alloc w.disk) (collectInit fs) = c at hsized hle hrows
  obtain ⟨hsized, hperm, hsorted, _⟩ := sortArrays_spec hsized hle
  refine ⟨(sortArrays c.arrays c.count).rows c.count, hrows ▸ hperm, hsorted, ?_⟩
  have hw : (if c.oom = true then w.report .outOfMemory ("rotation cleanup: out of memory enumerating backups;" ++
      " some old backups may not be cleaned this round") else w).disk = w.disk := by
    split <;> rfl
  rw [hw]
  generalize sortArrays c.arrays c.count = a at hsized
  obtain ⟨hsized₁, hage⟩ := agePass_rows env fs w.disk hsized hle
  rw [← hage]
  generalize agePass env fs (w.disk, a) c.count = s₁ at hsized₁
  obtain ⟨d₁, a₁⟩ := s₁
  obtain ⟨hsized₂, hle₂, hcompact, _⟩ := compactPass_spec hsized₁ hle
  simp only at hsized₂ hle₂ hcompact ⊢
  rw [← hcompact]
  generalize compactPass a₁ c.count = s₂ at hsized₂ hle₂
  obtain ⟨count, a₂⟩ := s₂
  simp only at hsized₂ hle₂ ⊢
  obtain ⟨hsized₃, hcompress⟩ := compressPass_rows env fs d₁ hsized₂ (le_trans hle₂ hle)
  rw [← hcompress]
  generalize compressPass env fs (d₁, a₂) count = s₃ at hsized₃
  obtain ⟨d₃, a₃⟩ := s₃
  exact capPass_rows env fs d₃ hsized₃ (le_trans hle₂ hle)

theorem hxRotateCleanup_idle (env : Cleaning) (fs : FileSink) (w : World)
    (h : env.alloc 0 = false ∨ env.listing = none) : (hxRotateCleanup env fs w).disk = w.disk := by
  by_cases halloc : env.alloc 0 = true
  · have hlist := h.resolve_left (by simp [halloc])
    unfold hxRotateCleanup
    rw [if_neg (by simp [halloc]), hlist]
    simp only [listDir]
    have hcount : (collectInit fs).count = 0 := rfl
    have hoom : (collectInit fs).oom = false := rfl
    simp only [hcount, hoom, Bool.false_eq_true, if_false]
    unfold sortArrays agePass compactPass compressPass capPass
    simp only [List.range_zero, List.foldl_nil, ite_self]
  · unfold hxRotateCleanup
    rw [if_pos halloc]
    rfl

end HxClog
