import HxClog.Retention

/-!
# The recognizer and cleanup

Cleanup touches only the files of names that the recognizer accepts. So the names
it handles are the documented ones, but for what the conversions let through
besides.
-/

namespace HxClog

open C Posix Sweep

variable {fs : FileSink} {env : Cleaning} {names : List FileName}

/-! ## What cleanup leaves alone -/

theorem resolve_name {dir : Bytes} {n : FileName} {p : Path} (h : resolve (dir ++ slash :: n.bytes) = some p) :
    p.name = n := by
  have hname : (dir ++ slash :: n.bytes).rtakeWhile (· ≠ slash) = n.bytes := by
    refine rtakeWhile_append_stop (by simp) fun c hc => ?_
    simp only [ne_eq, decide_not, Bool.not_eq_true', decide_eq_false_iff_not]
    rintro rfl
    exact n.valid.2.2.2.1 hc
  unfold resolve at h
  simp only [hname] at h
  rw [dif_pos n.valid] at h
  cases h
  rfl

/-- A row that stands for an archive, plain unless its file is compressed. -/
def RowOk (fs : FileSink) (r : Row) : Prop :=
  ∃ m : FileName, fs.archive m = true ∧ fs.activeDir.bytes.length + 1 + m.bytes.length + 3 < pathMax ∧
    r.name = m.bytes ∧ (r.compressed ≠ 1 → fs.plain m = true)

/-- No path that stands for a row, or for the compressed file beside it, is that of another name. -/
theorem RowOk.resolve_ne {r : Row} (h : RowOk fs r) {n : FileName} (hn : fs.archive n = false) :
    resolve (dirEntry fs.activeDir.bytes r.name) ≠ some (fs.path n) ∧
      (r.compressed ≠ 1 → resolve (dirEntry fs.activeDir.bytes (r.name ++ lit ".gz")) ≠ some (fs.path n)) := by
  obtain ⟨m, hm, hfit, hname, hplain⟩ := h
  have hgz : (lit ".gz").length = 3 := rfl
  rw [hname]
  refine ⟨fun hr => ?_, fun hc hr => ?_⟩
  · rw [dirEntry_fits (by omega)] at hr
    rw [show n = m from resolve_name hr, hm] at hn
    cases hn
  · rw [dirEntry_fits (by rw [List.length_append]; omega)] at hr
    by_cases hv : ValidName (m.bytes ++ lit ".gz")
    · have hnm : n = ⟨_, hv⟩ := resolve_name (n := ⟨_, hv⟩) hr
      have hacc : archiveNameMatch (m.bytes ++ lit ".gz") (collectInit fs).pre (collectInit fs).ext = some true :=
        archiveNameMatch_gz (by
          show (cut 64 _).length < 64
          rw [cut_length]
          omega) (of_decide_eq_true (hplain hc))
      unfold FileSink.archive FileSink.kind at hn
      rw [hnm, hacc] at hn
      cases hn
    · rw [resolve_join_none slash_gz hv] at hr
      cases hr

theorem compress_frame {dir name : Bytes} (zlib : Option (List Bytes → Bytes)) (g : GzRun) (d : Disk) {p : Path}
    (hsrc : resolve (dirEntry dir name) ≠ some p) (hdst : resolve (dirEntry dir (name ++ lit ".gz")) ≠ some p) :
    (compressOrDeleteBackup zlib g d dir name).1.lookup p = d.lookup p := by
  unfold compressOrDeleteBackup
  cases zlib with
  | none => exact remove_frame hsrc
  | some z => exact gzipFile_frame fun h => h.elim hsrc hdst

/-- Neither the path of a row nor that of the compressed file beside it names `p`. -/
def RowSpares (fs : FileSink) (p : Path) (r : Row) : Prop :=
  resolve (dirEntry fs.activeDir.bytes r.name) ≠ some p ∧
    (r.compressed ≠ 1 → resolve (dirEntry fs.activeDir.bytes (r.name ++ lit ".gz")) ≠ some p)

/-- The passes leave every file alone that no row stands for. -/
theorem cleanRows_spares (env : Cleaning) {rows : List Row} {p : Path} (hrows : ∀ r ∈ rows, RowSpares fs p r) (d : Disk) :
    (cleanRows env fs d rows).lookup p = d.lookup p := by
  let same := fun d' : Disk => d'.lookup p = d.lookup p
  let rowOk := fun r : Row => r.name ≠ [] → RowSpares fs p r
  have hage : same (ageRows env fs d rows).1 ∧ ∀ r ∈ (ageRows env fs d rows).2, rowOk r := by
    unfold ageRows
    split
    · refine sweep_invariant (P := RowSpares fs p) (fun s r hs hr => ?_) rfl hrows
      unfold ageRow
      split
      · exact ⟨(remove_frame hr.1).trans hs, fun hne => absurd rfl hne⟩
      · exact ⟨hs, fun _ => hr⟩
    · exact ⟨rfl, fun r hr _ => hrows r hr⟩
  have hcompress : ∀ {d' : Disk} {rs : List Row}, same d' → (∀ r ∈ rs, RowSpares fs p r) →
      same (compressRows env fs d' rs).1 ∧ ∀ r ∈ (compressRows env fs d' rs).2, rowOk r := by
    intro d' rs hd hrs
    unfold compressRows
    split
    · refine sweep_invariant (I := fun s : Int × Disk => same s.2) (P := RowSpares fs p) (fun s r hs hr => ?_) hd hrs
      unfold compressRow
      split
      · rename_i hgo
        have hone : r.compressed ≠ 1 := by omega
        have ⟨hsrc, hdst⟩ := hr
        have hframe := (compress_frame env.zlib (env.gz r.name) s.2 hsrc (hdst hone)).trans hs
        cases hc : compressOrDeleteBackup env.zlib (env.gz r.name) s.2 fs.activeDir.bytes r.name with
        | mk d'' done =>
          rw [hc] at hframe
          cases done with
          | true =>
            refine ⟨hframe, fun hne => ?_⟩
            unfold compressedRow at hne ⊢
            simp only [if_true] at hne ⊢
            split
            · exact ⟨hsrc, fun _ => hdst hone⟩
            · rename_i hz
              rw [if_neg hz] at hne
              exact absurd rfl hne
          | false => exact ⟨hframe, fun _ => hr⟩
      · exact ⟨hs, fun _ => hr⟩
    · exact ⟨hd, fun r hr _ => hrs r hr⟩
  have hcap : ∀ {d' : Disk} {rs : List Row}, same d' → (∀ r ∈ rs, rowOk r) → same (capRows env fs d' rs) := by
    intro d' rs hd hrs
    unfold capRows
    split
    · refine (sweep_invariant (I := fun s : Int × Disk => same s.2) (P := rowOk) (Q := fun _ => True)
        (fun s r hs hr => ⟨?_, trivial⟩) hd hrs).1
      unfold capRow
      split
      · rename_i hgo
        obtain ⟨hsrc, hdst⟩ := hr hgo.2.1
        have hframe : same (s.2.remove (env.capOk r.name) (dirEntry fs.activeDir.bytes r.gzFile)).1 := by
          refine (remove_frame ?_).trans hs
          unfold Row.gzFile
          split
          · exact hdst (by omega)
          · exact hsrc
        cases hc : s.2.remove (env.capOk r.name) (dirEntry fs.activeDir.bytes r.gzFile) with
        | mk d'' done =>
          rw [hc] at hframe
          cases done <;> exact hframe
      · exact hs
    · exact hd
  unfold cleanRows
  obtain ⟨hd₂, hrows₂⟩ := hcompress hage.1 fun r (hr : r ∈ (ageRows env fs d rows).2.filter (·.name ≠ [])) =>
    hage.2 r (List.mem_filter.mp hr).1 (by simpa using (List.mem_filter.mp hr).2)
  exact hcap hd₂ hrows₂

/-- Cleanup leaves the file of every name that the recognizer rejects as it is. -/
theorem cleanup_frame (env : Cleaning) (w : World) (hlist : env.listing = some names)
    (hfits : ∀ m ∈ names, fs.archive m = true → fs.activeDir.bytes.length + 1 + m.bytes.length + 3 < pathMax)
    {n : FileName} (hn : fs.archive n = false) :
    (hxRotateCleanup env fs w).disk.lookup (fs.path n) = w.disk.lookup (fs.path n) := by
  by_cases halloc : env.alloc 0 = true
  · obtain ⟨rows, hperm, _, hdisk⟩ := hxRotateCleanup_rows env fs w hlist halloc
    rw [hdisk]
    refine cleanRows_spares env (fun r hr => RowOk.resolve_ne ?_ hn) w.disk
    obtain ⟨b, hb, hrow⟩ := List.mem_filterMap.mp (List.mem_of_mem_take (hperm.subset hr))
    obtain ⟨m, hm, rfl⟩ := List.mem_map.mp hb
    unfold collected at hrow
    split at hrow
    · cases hrow
    · obtain ⟨comp, hcomp, rfl⟩ := Option.map_eq_some_iff.mp hrow
      have harch : fs.archive m = true := by
        unfold FileSink.archive FileSink.kind
        rw [hcomp]
        rfl
      refine ⟨m, harch, hfits m hm harch, ?_, fun hc => ?_⟩
      · exact cut_of_lt (by have := m.valid.2.2.2.2; omega)
      · unfold FileSink.plain FileSink.kind
        rw [hcomp]
        cases comp with
        | false => rfl
        | true => exact absurd rfl hc
  · rw [hxRotateCleanup_idle env fs w (Or.inl (by simpa using halloc))]

/-- Cleanup leaves every file alone that no archive of the directory stands for. -/
theorem cleanup_spares (env : Cleaning) (w : World) {p : Path}
    (h : ∀ names, env.listing = some names → ∀ m ∈ names, fs.archive m = true →
      resolve (dirEntry fs.activeDir.bytes m.bytes) ≠ some p ∧
        resolve (dirEntry fs.activeDir.bytes (m.bytes ++ lit ".gz")) ≠ some p) :
    (hxRotateCleanup env fs w).disk.lookup p = w.disk.lookup p := by
  cases hlist : env.listing with
  | none => rw [hxRotateCleanup_idle env fs w (Or.inr hlist)]
  | some names =>
    by_cases halloc : env.alloc 0 = true
    · obtain ⟨rows, hperm, _, hdisk⟩ := hxRotateCleanup_rows env fs w hlist halloc
      rw [hdisk]
      refine cleanRows_spares env (fun r hr => ?_) w.disk
      obtain ⟨b, hb, hrow⟩ := List.mem_filterMap.mp (List.mem_of_mem_take (hperm.subset hr))
      obtain ⟨m, hm, rfl⟩ := List.mem_map.mp hb
      unfold collected at hrow
      split at hrow
      · cases hrow
      · obtain ⟨comp, hcomp, rfl⟩ := Option.map_eq_some_iff.mp hrow
        have harch : fs.archive m = true := by
          unfold FileSink.archive FileSink.kind
          rw [hcomp]
          rfl
        have hname : (collectRow w.disk (collectInit fs).dir (collectInit fs).pre m.bytes comp).name = m.bytes :=
          cut_of_lt (by have := m.valid.2.2.2.2; omega)
        obtain ⟨hsrc, hdst⟩ := h names hlist m hm harch
        unfold RowSpares
        rw [hname]
        exact ⟨hsrc, fun _ => hdst⟩
    · rw [hxRotateCleanup_idle env fs w (Or.inl (by simpa using halloc))]

/-! ## Strictness -/

/-- For this name the recognizer is strict: it accepts the documented form only,
and cleanup leaves the file of any other name as it is. -/
structure RecognizedStrictly (stem ext fname : Bytes) : Prop where
  accepts : (archiveNameMatch fname (stemDot stem) ext).isSome → StrictName stem ext fname
  spares : ¬StrictName stem ext fname → ∀ (fs : FileSink) (env : Cleaning) (w : World) (names : List FileName)
    (n : FileName), n.bytes = fname → (collectInit fs).pre = stemDot stem → (collectInit fs).ext = ext →
    env.listing = some names →
    (∀ m ∈ names, fs.archive m = true → fs.activeDir.bytes.length + 1 + m.bytes.length + 3 < pathMax) →
      (hxRotateCleanup env fs w).disk.lookup (fs.path n) = w.disk.lookup (fs.path n)

/-- The recognizer is strict on a name unless it is one of those the conversions let through besides. -/
theorem recognizer_strict_iff (stem ext fname : Bytes) : RecognizedStrictly stem ext fname ↔ ¬SloppyName stem ext fname := by
  rw [← strict_iff_not_sloppy]
  constructor
  · exact RecognizedStrictly.accepts
  · refine fun h => ⟨h, fun hloose fs env w names n hn hpre hext hlist hfits => cleanup_frame env w hlist hfits ?_⟩
    unfold FileSink.archive FileSink.kind
    rw [hn, hpre, hext, ← Bool.not_eq_true]
    exact fun hacc => hloose (h hacc)

/-- A log of the user's own that is taken for a backup. -/
theorem loose_date_accepted : ¬RecognizedStrictly (lit "audit") (lit "log") (lit "audit.2026-6-7.1.log") := by
  intro h
  obtain ⟨y, m, d, i, p, htext, ⟨hy, _⟩, ⟨hm, hdigits⟩, _⟩ := h.accepts (by decide)
  obtain ⟨y₁, y₂, y₃, y₄, rfl⟩ : ∃ a b c e, y = [a, b, c, e] := by
    match y, hy with
    | [a, b, c, e], _ => exact ⟨a, b, c, e, rfl⟩
  obtain ⟨m₁, m₂, rfl⟩ : ∃ a b, m = [a, b] := by
    match m, hm with
    | [a, b], _ => exact ⟨a, b, rfl⟩
  -- the second character of the month would be the dash
  have hdash : chr '-' = m₂ := congrArg (fun s : Bytes => s.getD 12 0) htext
  have := hdigits m₂ (by simp)
  rw [← hdash] at this
  revert this
  decide

end HxClog
