import HxClog.CleanupSound

/-!
# Compressing a backup

`gzip_file` removes its source only when the copy is complete, whatever fails on the way. The
two must be different files for that: the copy is made where the old file of its name was
removed.
-/

namespace HxClog

open C Posix

section
-- `Gzip z b`: the file content `z` is a complete gzip file of `b`
variable (Gzip : Bytes → Bytes → Prop)

/-- The file holds all of the content. -/
def Complete (d : Disk) (path content : Bytes) : Prop := ∃ z, d.file path = some z ∧ Gzip z.content content

/-- What `gzip_file` owes for the source file `f`. -/
structure KeepsBackup (src dst : Bytes) (f : File) (r : Disk × Bool) : Prop where
  kept : r.1.file src = some f ∨ Complete Gzip r.1 dst f.content
  exact : r.2 = true ↔ Complete Gzip r.1 dst f.content ∧ r.1.file src = none

variable {Gzip} {zlib : List Bytes → Bytes} {g : GzRun} {d : Disk} {src dst : Bytes} {f : File}

theorem file_of_resolve {path : Bytes} {p : Path} (h : resolve path = some p) : d.file path = d.lookup p := by
  unfold Disk.file
  rw [h]
  rfl

/-- Nothing was counted, and the source is there. -/
theorem failed_keeps {r : Disk × Bool} (hrc : r.2 = false) (hf : r.1.file src = some f) : KeepsBackup Gzip src dst f r := by
  refine ⟨.inl hf, ?_⟩
  rw [hrc, hf]
  exact iff_of_false (fun h => by cases h) (fun h => by cases h.2)

theorem gzip_keeps (hzlib : ∀ blocks, Gzip (zlib blocks) blocks.flatten) (hf : d.file src = some f)
    (hne : resolve src ≠ resolve dst) : KeepsBackup Gzip src dst f (gzipFile zlib g d src dst) := by
  obtain ⟨p, hp, hlook⟩ := Option.bind_eq_some_iff.mp hf
  unfold gzipFile
  rw [hf]
  simp only
  split
  · exact failed_keeps rfl hf
  · have hdst : resolve dst ≠ some p := fun h => hne (hp.trans h.symm)
    have hold : (d.remove g.removeOld dst).1.lookup p = some f := by rw [remove_frame hdst, hlook]
    cases hq : resolve dst with
    | none => exact failed_keeps rfl ((file_of_resolve hp).trans hold)
    | some q =>
      have hpq : p ≠ q := by
        rintro rfl
        exact hdst hq
      have hsource : ∀ removed, gzSource src q removed f = f.content := by
        intro removed
        unfold gzSource
        rw [hp]
        exact if_neg fun h => hpq (Option.some.inj h.1)
      simp only [hsource]
      split
      · exact failed_keeps rfl ((file_of_resolve hp).trans hold)
      · have hins : ∀ w, ((d.remove g.removeOld dst).1.insert q w).lookup p = some f := by
          intro w
          rw [Finmap.lookup_insert_of_ne _ hpq, hold]
        split
        · rename_i hok
          have hflat := copyLoop_flatten 0 (Nat.lt_succ_self f.content.length) hok.1
          generalize (copyLoop g (f.content.length + 1) 0 f.content).1 = written at hflat
          have hcomplete : Complete Gzip
              (Disk.remove ((d.remove g.removeOld dst).1.insert q ⟨zlib written, g.now⟩) g.removeSrc src).1 dst f.content := by
            refine ⟨⟨zlib written, g.now⟩, ?_, ?_⟩
            · rw [file_of_resolve hq, remove_lookup_ne hp (Ne.symm hpq), Finmap.lookup_insert]
            · rw [← hflat]
              exact hzlib written
          refine ⟨.inr hcomplete, ?_⟩
          rw [and_iff_right hcomplete, file_of_resolve hp, remove_lookup_self hp, hins, remove_ok hp (by rw [hins]; rfl)]
          cases g.removeSrc <;> simp
        · refine failed_keeps rfl ((file_of_resolve hp).trans ?_)
          rw [remove_frame hdst]
          exact hins _

/-! ## A source that is its own copy -/

theorem copyLoop_smooth (fuel k : Nat) (rest : Bytes) : (copyLoop .smooth fuel k rest).2 = true := by
  induction fuel generalizing k rest with
  | zero => rfl
  | succ fuel ih =>
    unfold copyLoop
    rw [show GzRun.smooth.readStop k = none from rfl]
    simp only
    rw [if_neg fun h => h.2 rfl]
    split
    · rfl
    · exact ih _ _

/-- The old file is the source, the new one is removed in its place, and success is returned. -/
theorem gzip_same_lost (zlib : List Bytes → Bytes) (hf : d.file src = some f) (hsame : resolve src = resolve dst) :
    (gzipFile zlib .smooth d src dst).1.file src = none ∧ (gzipFile zlib .smooth d src dst).1.file dst = none := by
  obtain ⟨p, hp, hlook⟩ := Option.bind_eq_some_iff.mp hf
  have hq : resolve dst = some p := hsame.symm.trans hp
  rw [file_of_resolve hp, file_of_resolve hq, and_self]
  unfold gzipFile
  rw [hf]
  simp only [hq]
  rw [if_neg (show ¬¬GzRun.smooth.srcOk = true from not_not_intro rfl),
    if_neg (show ¬¬GzRun.smooth.gzopenOk = true from not_not_intro rfl), if_pos ⟨copyLoop_smooth _ _ _, rfl⟩,
    remove_lookup_self hp]
  rfl

/-- Only what `compress_or_delete_backup` returned 0 for is counted as compressed. -/
def CountsOnlyDone : Prop := ∀ (env : Cleaning) (dir : Bytes) (s : (Int × Disk) × Arrays) (i : Nat),
  (compressStep env dir s i).1.1 ≠ s.1.1 ∨ (compressStep env dir s i).2 ≠ s.2 →
    (compressOrDeleteBackup env.zlib (env.gz (s.2.names.getD i [])) s.1.2 dir (s.2.names.getD i [])).2 = true

theorem counts_only_done : CountsOnlyDone := by
  rintro env dir ⟨⟨left, d⟩, a⟩ i h
  unfold compressStep at h
  simp only at h ⊢
  split at h
  · split at h
    · assumption
    · simp at h
  · simp at h

/-- Whatever fails, the backup is kept, if and only if the copy is another file. -/
theorem gzip_keeps_iff (hzlib : ∀ blocks, Gzip (zlib blocks) blocks.flatten) (hf : d.file src = some f) :
    ((∀ g, KeepsBackup Gzip src dst f (gzipFile zlib g d src dst)) ∧ CountsOnlyDone) ↔ resolve src ≠ resolve dst := by
  rw [and_iff_left counts_only_done]
  refine ⟨fun h hsame => ?_, fun hne g => gzip_keeps hzlib hf hne⟩
  obtain ⟨hsrc, hdst⟩ := gzip_same_lost zlib hf hsame
  rcases (h .smooth).kept with hkept | ⟨z, hz, -⟩
  · rw [hsrc] at hkept
    cases hkept
  · rw [hdst] at hz
    cases hz

end

/-! ## The paths of `compress_or_delete_backup` -/

/-- A path that leaves no room for the suffix is its own copy. -/
theorem same_path_iff {dir : Bytes} (hdir : dir ≠ []) (n : FileName) :
    resolve (dirEntry dir n.bytes) = resolve (dirEntry dir (n.bytes ++ lit ".gz")) ↔
      pathMax ≤ dir.length + 1 + n.bytes.length + 1 := by
  have hlen : (dir ++ slash :: n.bytes).length = dir.length + 1 + n.bytes.length := by
    rw [List.length_append, List.length_cons]
    omega
  have hsuffix : dirEntry dir (n.bytes ++ lit ".gz") = cut pathMax (dir ++ slash :: n.bytes ++ lit ".gz") := by
    unfold dirEntry
    rw [List.append_assoc, List.cons_append]
  have hmax : pathMax = 1024 := rfl
  constructor
  · intro hsame
    by_contra hroom
    rw [dirEntry_resolve hdir (by omega)] at hsame
    obtain ⟨c, cs, hrest⟩ : ∃ c cs, (lit ".gz").take (1023 - (dir ++ slash :: n.bytes).length) = c :: cs := by
      refine ⟨chr '.', (lit "gz").take (1022 - (dir ++ slash :: n.bytes).length), ?_⟩
      rw [show 1023 - (dir ++ slash :: n.bytes).length = 1022 - (dir ++ slash :: n.bytes).length + 1 by omega]
      rfl
    have hcut : dirEntry dir (n.bytes ++ lit ".gz") = dir ++ slash :: (n.bytes ++ c :: cs) := by
      rw [hsuffix]
      change (dir ++ slash :: n.bytes ++ lit ".gz").take 1023 = _
      rw [List.take_append, List.take_of_length_le (by omega), hrest, List.append_assoc, List.cons_append]
    have hslash : slash ∉ n.bytes ++ c :: cs := by
      rw [← hrest, List.mem_append, not_or]
      exact ⟨n.valid.2.2.2.1, fun h => absurd (List.mem_of_mem_take h) (by decide)⟩
    rw [hcut] at hsame
    by_cases hvalid : ValidName (n.bytes ++ c :: cs)
    · rw [resolve_join hdir ⟨_, hvalid⟩] at hsame
      have hname := congrArg (fun p : Path => p.name.bytes.length) (Option.some.inj hsame)
      simp only [List.length_append, List.length_cons] at hname
      omega
    · rw [resolve_join_none hslash hvalid] at hsame
      cases hsame
  · intro hlong
    have hcut : (dir ++ slash :: n.bytes ++ lit ".gz").take 1023 = (dir ++ slash :: n.bytes).take 1023 :=
      List.take_append_of_le_length (by omega)
    rw [hsuffix]
    exact congrArg resolve hcut.symm

/-- A directory with a path of 1004 characters. -/
def deepDir : Bytes := [250, 250, 250].flatMap (fun k => List.replicate k (chr 'd') ++ [slash]) ++ List.replicate 251 (chr 'd')

theorem backupName_valid : ValidName (lit "app.20260101.1.log") := by decide

def backupName : FileName := ⟨lit "app.20260101.1.log", backupName_valid⟩

def backupFile : File := ⟨lit "a line\n", 0⟩

def backupDisk (dir : Bytes) : Disk := Finmap.singleton ⟨dirKey dir, backupName⟩ backupFile

theorem backup_there (dir : Bytes) (hdir : dir ≠ []) (h : dir.length + 1 + backupName.bytes.length < pathMax) :
    (backupDisk dir).file (dirEntry dir backupName.bytes) = some backupFile := by
  rw [file_of_resolve (dirEntry_resolve hdir h)]
  exact Finmap.lookup_singleton_eq

theorem gzip_keeps_logs : (∀ blocks : List Bytes, blocks.flatten = blocks.flatten) ∧
    (backupDisk (lit "logs")).file (dirEntry (lit "logs") backupName.bytes) = some backupFile ∧
    (((∀ g, KeepsBackup Eq (dirEntry (lit "logs") backupName.bytes) (lit "copy") backupFile
        (gzipFile List.flatten g (backupDisk (lit "logs")) (dirEntry (lit "logs") backupName.bytes) (lit "copy"))) ∧
      CountsOnlyDone) ↔ resolve (dirEntry (lit "logs") backupName.bytes) ≠ resolve (lit "copy")) := by
  have hthere := backup_there (lit "logs") (by decide) (by decide)
  exact ⟨fun _ => rfl, hthere, gzip_keeps_iff (fun _ => rfl) hthere⟩

theorem deepDir_length : deepDir.length = 1004 := by decide +kernel

/-- The path of the copy is cut to the path of the backup. Success is returned, and both are gone. -/
theorem long_path_lost : ¬∀ g, KeepsBackup Eq (dirEntry deepDir backupName.bytes) (dirEntry deepDir (backupName.bytes ++ lit ".gz"))
    backupFile (compressOrDeleteBackup (some List.flatten) g (backupDisk deepDir) deepDir backupName.bytes) := by
  have hdir : deepDir ≠ [] := by
    intro h
    have hlen := deepDir_length
    rw [h] at hlen
    cases hlen
  have hname : backupName.bytes.length = 18 := rfl
  have hmax : pathMax = 1024 := rfl
  have hthere := backup_there deepDir hdir (by rw [deepDir_length]; omega)
  have hsame := (same_path_iff hdir backupName).mpr (by rw [deepDir_length]; omega)
  intro h
  obtain ⟨hsrc, hdst⟩ := gzip_same_lost List.flatten hthere hsame
  rcases (h .smooth).kept with hkept | ⟨z, hz, -⟩
  · exact absurd (hsrc.symm.trans hkept) (by simp)
  · exact absurd (hdst.symm.trans hz) (by simp)

end HxClog
