import HxClog.ArraysSound
import HxClog.NamesSound

/-!
# What cleanup does to a directory

Each pass over the archives acts on the files of one archive at a time: the plain
file and the compressed file beside it. In a directory whose archives have
distinct order keys no two archives share a file, so a pass does what its
actions do one by one.
-/

namespace HxClog

open C Posix Sweep

/-! ## Calls act on the files they name -/

theorem remove_agree {d d' : Disk} {own : Path → Prop} (h : ∀ p, own p → d.lookup p = d'.lookup p) (ok : Bool)
    (path : Bytes) (hown : ∀ p, resolve path = some p → own p) :
    (d.remove ok path).2 = (d'.remove ok path).2 ∧
      ∀ p, own p → (d.remove ok path).1.lookup p = (d'.remove ok path).1.lookup p := by
  cases hr : resolve path with
  | none =>
    unfold Disk.remove
    rw [hr]
    exact ⟨rfl, h⟩
  | some q =>
    rw [remove_of_resolve hr, remove_of_resolve hr, h q (hown q hr)]
    split
    · refine ⟨rfl, fun p hp => ?_⟩
      by_cases hpq : p = q
      · subst hpq
        rw [Finmap.lookup_erase, Finmap.lookup_erase]
      · rw [Finmap.lookup_erase_ne hpq, Finmap.lookup_erase_ne hpq]
        exact h p hp
    · exact ⟨rfl, h⟩

theorem remove_frame {d : Disk} {ok : Bool} {path : Bytes} {p : Path} (h : resolve path ≠ some p) :
    (d.remove ok path).1.lookup p = d.lookup p := by
  cases hr : resolve path with
  | none =>
    unfold Disk.remove
    rw [hr]
  | some q =>
    refine remove_lookup_ne hr ?_
    rintro rfl
    exact h hr

theorem insert_agree {d d' : Disk} {own : Path → Prop} (h : ∀ p, own p → d.lookup p = d'.lookup p) (q : Path)
    (f : File) : ∀ p, own p → (d.insert q f).lookup p = (d'.insert q f).lookup p := by
  intro p hp
  by_cases hpq : p = q
  · subst hpq
    rw [Finmap.lookup_insert, Finmap.lookup_insert]
  · rw [Finmap.lookup_insert_of_ne _ hpq, Finmap.lookup_insert_of_ne _ hpq]
    exact h p hp

theorem remove_local {α : Type} (ok : α → Bool) (path : α → Bytes) :
    Local (fun (d : Disk) p => d.lookup p) (fun d x => d.remove (ok x) (path x))
      (fun x p => resolve (path x) = some p) where
  frame _ _ _ h := remove_frame h
  reads _ _ x h := remove_agree h (ok x) _ fun _ => id

/-- The files `gzip_file` works on. -/
def gzOwn (src dst : Bytes) (p : Path) : Prop := resolve src = some p ∨ resolve dst = some p

theorem gzipFile_frame {zlib : List Bytes → Bytes} {g : GzRun} {d : Disk} {src dst : Bytes} {p : Path}
    (h : ¬gzOwn src dst p) : (gzipFile zlib g d src dst).1.lookup p = d.lookup p := by
  have hsrc : resolve src ≠ some p := fun hp => h (Or.inl hp)
  have hdst : resolve dst ≠ some p := fun hp => h (Or.inr hp)
  unfold gzipFile
  split
  · rfl
  · split
    · rfl
    · simp only
      split
      · exact remove_frame hdst
      · rename_i q hq
        have hpq : p ≠ q := by
          rintro rfl
          exact hdst hq
        generalize gzSource src q _ _ = content
        split
        · exact remove_frame hdst
        · split
          · rw [remove_frame hsrc, Finmap.lookup_insert_of_ne _ hpq, remove_frame hdst]
          · rw [remove_frame hdst, Finmap.lookup_insert_of_ne _ hpq, remove_frame hdst]

theorem gzipFile_agree {zlib : List Bytes → Bytes} {g : GzRun} {d d' : Disk} {src dst : Bytes}
    (h : ∀ p, gzOwn src dst p → d.lookup p = d'.lookup p) :
    (gzipFile zlib g d src dst).2 = (gzipFile zlib g d' src dst).2 ∧
      ∀ p, gzOwn src dst p → (gzipFile zlib g d src dst).1.lookup p = (gzipFile zlib g d' src dst).1.lookup p := by
  have hfile : d.file src = d'.file src := by
    unfold Disk.file
    cases hr : resolve src with
    | none => rfl
    | some p => exact h p (Or.inl hr)
  obtain ⟨hremoved, hold⟩ := remove_agree h g.removeOld dst fun p hp => Or.inr hp
  unfold gzipFile
  rw [hfile]
  split
  · exact ⟨rfl, h⟩
  · split
    · exact ⟨rfl, h⟩
    · simp only
      rw [hremoved]
      split
      · exact ⟨rfl, hold⟩
      · generalize gzSource src _ _ _ = content
        split
        · exact ⟨rfl, hold⟩
        · split
          · exact remove_agree (insert_agree hold _ _) g.removeSrc _ fun p hp => Or.inl hp
          · exact ⟨rfl, (remove_agree (insert_agree hold _ _) g.removeBad _ fun p hp => Or.inr hp).2⟩

/-- The files of one archive: the plain one and the compressed one. -/
def archiveOwn (dir : Bytes) (n : FileName) (p : Path) : Prop :=
  gzOwn (dirEntry dir n.bytes) (dirEntry dir (n.bytes ++ lit ".gz")) p

theorem compress_local (zlib : Option (List Bytes → Bytes)) (gz : Bytes → GzRun) (dir : Bytes) :
    Local (fun (d : Disk) p => d.lookup p)
      (fun d (n : FileName) => compressOrDeleteBackup zlib (gz n.bytes) d dir n.bytes) (archiveOwn dir) where
  frame d n p h := by
    unfold compressOrDeleteBackup
    cases zlib with
    | none => exact remove_frame fun hp => h (Or.inl hp)
    | some zlib => exact gzipFile_frame h
  reads d d' n h := by
    unfold compressOrDeleteBackup
    cases zlib with
    | none => exact remove_agree h _ _ fun p hp => Or.inl hp
    | some zlib => exact gzipFile_agree h

/-! ## A compressed archive -/

/-- A copy loop that succeeds has handed over the whole file. -/
theorem copyLoop_flatten {g : GzRun} : ∀ {fuel : Nat} (k : Nat) {rest : Bytes}, rest.length < fuel →
    (copyLoop g fuel k rest).2 = true → (copyLoop g fuel k rest).1.flatten = rest
  | fuel + 1, k, rest, hfuel, h => by
    unfold copyLoop at h ⊢
    simp only at h ⊢
    generalize hbuf : List.take _ rest = buf at h ⊢
    have hpre : buf ++ rest.drop buf.length = rest := by
      obtain ⟨t, ht⟩ : buf <+: rest := hbuf ▸ List.take_prefix _ _
      rw [← ht, List.drop_left]
    have hwritten : (if buf ≠ [] then [buf] else []).flatten = buf := by
      split
      · simp
      · rename_i hnil
        rw [not_not.mp hnil]
        rfl
    by_cases hfail : buf ≠ [] ∧ ¬g.writeOk k = true
    · rw [if_pos hfail] at h
      cases h
    · rw [if_neg hfail] at h ⊢
      by_cases hshort : buf.length < gzBuf
      · rw [if_pos hshort] at h ⊢
        have hstop : g.readStop k = none := Option.isNone_iff_eq_none.mp h
        rw [hstop] at hbuf
        simp only at hbuf
        have hall : buf = rest := by
          rw [← hbuf, List.length_take] at hshort
          rw [← hbuf, List.take_of_length_le (by omega)]
        rw [hwritten, hall]
      · rw [if_neg hshort] at h ⊢
        have hgz : gzBuf = 16384 := rfl
        have hlen : buf.length ≤ rest.length := by
          rw [← hbuf]
          exact List.length_take_le' _ _
        have hrec := copyLoop_flatten (g := g) (k + 1) (by rw [List.length_drop]; omega) h
        rw [List.flatten_append, hwritten, hrec, hpre]

section

variable {dir : Bytes}

theorem dirEntry_fits {name : Bytes} (h : dir.length + 1 + name.length < pathMax) :
    dirEntry dir name = dir ++ slash :: name :=
  cut_of_lt (by rw [List.length_append, List.length_cons]; omega)

theorem dirEntry_resolve (hdir : dir ≠ []) {n : FileName} (h : dir.length + 1 + n.bytes.length < pathMax) :
    resolve (dirEntry dir n.bytes) = some ⟨dirKey dir, n⟩ := by
  rw [dirEntry_fits h, resolve_join hdir]

/-- The name of an archive's compressed file, unless it is too long for a directory. -/
def gzName (n : FileName) : Option FileName :=
  if h : ValidName (n.bytes ++ lit ".gz") then some ⟨_, h⟩ else none

theorem gzName_bytes {n m : FileName} (h : gzName n = some m) : m.bytes = n.bytes ++ lit ".gz" := by
  unfold gzName at h
  split at h
  · cases h
    rfl
  · cases h

theorem gzName_inj {n n' m : FileName} (h : gzName n = some m) (h' : gzName n' = some m) : n = n' := by
  have := (gzName_bytes h).symm.trans (gzName_bytes h')
  cases n
  cases n'
  simpa using this

theorem slash_gz {n : FileName} : slash ∉ n.bytes ++ lit ".gz" := by
  rw [List.mem_append, not_or]
  exact ⟨n.valid.2.2.2.1, by decide⟩

theorem dirEntry_gz (hdir : dir ≠ []) {n : FileName} (h : dir.length + 1 + n.bytes.length + 3 < pathMax) :
    resolve (dirEntry dir (n.bytes ++ lit ".gz")) = (gzName n).map (⟨dirKey dir, ·⟩) := by
  have hlen : (lit ".gz").length = 3 := rfl
  rw [dirEntry_fits (by rw [List.length_append]; omega)]
  unfold gzName
  split
  · rename_i hv
    exact resolve_join hdir ⟨_, hv⟩
  · rename_i hv
    exact resolve_join_none slash_gz hv

theorem archiveOwn_iff (hdir : dir ≠ []) {n : FileName} (h : dir.length + 1 + n.bytes.length + 3 < pathMax) (p : Path) :
    archiveOwn dir n p ↔ p = ⟨dirKey dir, n⟩ ∨ ∃ m, gzName n = some m ∧ p = ⟨dirKey dir, m⟩ := by
  unfold archiveOwn gzOwn
  rw [dirEntry_resolve hdir (by omega), dirEntry_gz hdir h, Option.map_eq_some_iff]
  simp only [Option.some.injEq, eq_comm]

/-- What has to succeed for `compress_or_delete_backup` to return 0. -/
def compressOk (zlib : Option (List Bytes → Bytes)) (g : GzRun) (n : FileName) (f : File) : Bool :=
  match zlib with
  | none => g.removeSrc
  | some _ => g.srcOk && (gzName n).isSome && g.gzopenOk && (copyLoop g (f.content.length + 1) 0 f.content).2 &&
      g.closeOk && g.removeSrc

theorem gzName_ne {n m : FileName} (h : gzName n = some m) : m ≠ n := by
  rintro rfl
  have := congrArg List.length (gzName_bytes h)
  rw [List.length_append, show (lit ".gz").length = 3 from rfl] at this
  omega

/-- The plain file is gone exactly when the call returns 0; then, with zlib, the
compressed file holds all of it. -/
theorem compress_spec (hdir : dir ≠ []) {n : FileName} (h : dir.length + 1 + n.bytes.length + 3 < pathMax)
    (zlib : Option (List Bytes → Bytes)) (g : GzRun) {d : Disk} {f : File} (hf : d.lookup ⟨dirKey dir, n⟩ = some f) :
    let r := compressOrDeleteBackup zlib g d dir n.bytes
    r.2 = compressOk zlib g n f ∧
      r.1.lookup ⟨dirKey dir, n⟩ = (if compressOk zlib g n f then none else some f) ∧
      ∀ z, zlib = some z → compressOk zlib g n f = true →
        ∃ m blocks, gzName n = some m ∧ blocks.flatten = f.content ∧
          r.1.lookup ⟨dirKey dir, m⟩ = some ⟨z blocks, g.now⟩ := by
  have hsrc := dirEntry_resolve hdir (n := n) (by omega)
  have hdst := dirEntry_gz hdir h
  have hfile : d.file (dirEntry dir n.bytes) = some f := by
    unfold Disk.file
    rw [hsrc]
    exact hf
  unfold compressOrDeleteBackup compressOk
  cases zlib with
  | none =>
    refine ⟨remove_ok hsrc (by rw [hf]; rfl), ?_, fun z hz => nomatch hz⟩
    simp only
    rw [remove_lookup_self hsrc, hf]
  | some z =>
    simp only
    unfold gzipFile
    rw [hfile]
    simp only
    cases hopen : g.srcOk with
    | false => simp [hf]
    | true =>
      cases hm : gzName n with
      | none =>
        rw [hm, Option.map_none] at hdst
        rw [hdst]
        simp only [not_true_eq_false, if_false, Option.isSome_none, Bool.and_false, Bool.false_and, Bool.false_eq_true]
        refine ⟨trivial, ?_, fun _ _ h => nomatch h⟩
        rw [remove_frame (by rw [hdst]; exact fun h => nomatch h)]
        exact hf
      | some m =>
        rw [hm, Option.map_some] at hdst
        have hne : (⟨dirKey dir, n⟩ : Path) ≠ ⟨dirKey dir, m⟩ := fun he => gzName_ne hm (Posix.Path.mk.inj he).2.symm
        have hold : (d.remove g.removeOld (dirEntry dir (n.bytes ++ lit ".gz"))).1.lookup ⟨dirKey dir, n⟩ = some f := by
          rw [remove_lookup_ne hdst hne]
          exact hf
        have hother : ∀ removed, gzSource (dirEntry dir n.bytes) ⟨dirKey dir, m⟩ removed f = f.content := by
          intro removed
          unfold gzSource
          rw [hsrc]
          exact if_neg fun h => hne (Option.some.inj h.1)
        rw [hdst]
        simp only [hother]
        cases hgo : g.gzopenOk with
        | false => simp [hold]
        | true =>
          have hins : ∀ w, ((d.remove g.removeOld (dirEntry dir (n.bytes ++ lit ".gz"))).1.insert ⟨dirKey dir, m⟩ w).lookup
              ⟨dirKey dir, n⟩ = some f := fun w => by rw [Finmap.lookup_insert_of_ne _ hne, hold]
          cases hcopy : copyLoop g (f.content.length + 1) 0 f.content with
          | mk blocks ok =>
            simp only [not_true_eq_false, if_false]
            by_cases hall : ok = true ∧ g.closeOk = true
            · rw [if_pos hall]
              obtain ⟨rfl, hclose⟩ := hall
              have hflat := copyLoop_flatten (g := g) 0 (Nat.lt_succ_self f.content.length)
                (by rw [hcopy])
              rw [hcopy] at hflat
              simp only [hclose, Option.isSome_some, Bool.and_true, Bool.true_and]
              refine ⟨remove_ok hsrc (by rw [hins]; rfl), by rw [remove_lookup_self hsrc, hins], fun z' hz' hrm => ?_⟩
              obtain rfl := Option.some.inj hz'
              refine ⟨m, blocks, rfl, hflat, ?_⟩
              rw [remove_lookup_ne hsrc hne.symm, Finmap.lookup_insert]
            · rw [if_neg hall]
              have hfalse : (ok && g.closeOk) = false := by simpa [Bool.and_eq_true] using hall
              have hzero : (true && (some m).isSome && true && ok && g.closeOk && g.removeSrc) = false := by
                cases ok <;> simp_all
              simp only [hzero, Bool.false_eq_true, if_false]
              refine ⟨trivial, ?_, fun _ _ h => nomatch h⟩
              rw [remove_lookup_ne hdst hne]
              exact hins _

end

end HxClog
