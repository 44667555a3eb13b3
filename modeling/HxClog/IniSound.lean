import HxClog.Ini

/-!
# A file means what its lines say

A key and its value change the one setting that the key names. A file whose lines fit
the buffer of the reader is read line by line; a longer line is read as several.
-/

namespace HxClog

open C

/-! ## Keys -/

theorem ieq_iff : ∀ {a b : Bytes}, ieq a b = true ↔ a.map lowerCase = b.map lowerCase
  | [], [] => by simp [ieq]
  | [], b :: t => by simp [ieq]
  | a :: s, [] => by simp [ieq]
  | a :: s, b :: t => by
    have ih := @ieq_iff s t
    simp [ieq, ih]

/-- Names that are equal without case compare alike. -/
theorem ieq_congr {k k' : Bytes} (h : ieq k k' = true) (b : Bytes) : ieq k b = ieq k' b := by
  rw [Bool.eq_iff_iff, ieq_iff, ieq_iff, ieq_iff.mp h]

theorem iniApplyKv_congr {k k' : Bytes} (h : ieq k k' = true) (cfg : ClogConfig) (v : Bytes) :
    iniApplyKv cfg k v = iniApplyKv cfg k' v := by
  unfold iniApplyKv
  simp only [ieq_congr h]

namespace Setting

theorem mem_all (f : Setting) : f ∈ all := by cases f <;> decide

theorem named_some {k : Bytes} {f : Setting} (h : named k = some f) : ∃ key ∈ f.keys, ieq k (lit key) = true := by
  have := List.find?_some h
  exact List.any_eq_true.mp this

theorem named_none {k : Bytes} (h : named k = none) (f : Setting) : ∀ key ∈ f.keys, ieq k (lit key) = false := by
  have hf := List.find?_eq_none.mp h f (mem_all f)
  rw [List.any_eq_true] at hf
  intro key hkey
  cases hk : ieq k (lit key) with
  | true => exact absurd ⟨key, hkey, hk⟩ hf
  | false => rfl

end Setting

/-- A key that names nothing changes nothing. -/
theorem iniApplyKv_unknown {k : Bytes} (h : Setting.named k = none) (cfg : ClogConfig) (v : Bytes) :
    iniApplyKv cfg k v = cfg := by
  have hk : ∀ key ∈ Setting.all.flatMap Setting.keys, ieq k (lit key) = false := by
    intro key hkey
    obtain ⟨f, _, hf⟩ := List.mem_flatMap.mp hkey
    exact Setting.named_none h f key hf
  simp only [Setting.all, Setting.keys, List.flatMap_cons, List.flatMap_nil, List.cons_append, List.nil_append,
    List.append_nil, List.forall_mem_cons] at hk
  unfold iniApplyKv
  simp [hk]

/-- The assignment behind the keys of a setting. -/
def ClogConfig.store (cfg : ClogConfig) (v : Bytes) : Setting → ClogConfig
  | .level => { cfg with level := Setting.level.read v }
  | .logDir => { cfg with logDir := Setting.logDir.read v }
  | .fileName => { cfg with fileName := Setting.fileName.read v }
  | .loggerName => { cfg with loggerName := Setting.loggerName.read v }
  | .pattern => { cfg with pattern := Setting.pattern.read v }
  | .mode => { cfg with mode := Setting.mode.read v }
  | .enableConsole => { cfg with enableConsole := Setting.enableConsole.read v }
  | .enableFile => { cfg with enableFile := Setting.enableFile.read v }
  | .enableColor => { cfg with enableColor := Setting.enableColor.read v }
  | .formatMode => { cfg with formatMode := Setting.formatMode.read v }
  | .maxFileSize => { cfg with maxFileSize := Setting.maxFileSize.read v }
  | .maxBackupFiles => { cfg with maxBackupFiles := Setting.maxBackupFiles.read v }
  | .maxBackupDays => { cfg with maxBackupDays := Setting.maxBackupDays.read v }
  | .maxCompressedFiles => { cfg with maxCompressedFiles := Setting.maxCompressedFiles.read v }
  | .rotateDaily => { cfg with rotateDaily := Setting.rotateDaily.read v }
  | .rotateIntervalSeconds => { cfg with rotateIntervalSeconds := Setting.rotateIntervalSeconds.read v }
  | .rotateOnStartup => { cfg with rotateOnStartup := Setting.rotateOnStartup.read v }
  | .rotateAlign => { cfg with rotateAlign := Setting.rotateAlign.read v }
  | .dateSubdir => { cfg with dateSubdir := Setting.dateSubdir.read v }
  | .asyncQueueSize => { cfg with asyncQueueSize := Setting.asyncQueueSize.read v }
  | .asyncBatchSize => { cfg with asyncBatchSize := Setting.asyncBatchSize.read v }
  | .flushIntervalMs => { cfg with flushIntervalMs := Setting.flushIntervalMs.read v }
  | .enableCrashHandler => { cfg with enableCrashHandler := Setting.enableCrashHandler.read v }
  | .rotatePolicy => { cfg with rotatePolicy := Setting.rotatePolicy.read v }
  | .overflowPolicy => { cfg with overflowPolicy := Setting.overflowPolicy.read v }

theorem store_settings (cfg : ClogConfig) (v : Bytes) (f : Setting) :
    (cfg.store v f).settings = Function.update cfg.settings f (f.read v) := by
  funext g
  cases f <;> cases g <;> rfl

theorem store_unnamed (cfg : ClogConfig) (v : Bytes) (f : Setting) : (cfg.store v f).unnamed = cfg.unnamed := by
  cases f <;> rfl

theorem iniApplyKv_known {k : Bytes} {f : Setting} (h : Setting.named k = some f) (cfg : ClogConfig) (v : Bytes) :
    iniApplyKv cfg k v = cfg.store v f := by
  obtain ⟨key, hkey, hk⟩ := Setting.named_some h
  rw [iniApplyKv_congr hk]
  cases f <;> simp only [Setting.keys, List.mem_cons, List.not_mem_nil, or_false] at hkey
  all_goals
    rcases hkey with rfl | rfl
    all_goals rfl

theorem applyKv_unnamed (cfg : ClogConfig) (k v : Bytes) : (iniApplyKv cfg k v).unnamed = cfg.unnamed := by
  cases h : Setting.named k with
  | none => rw [iniApplyKv_unknown h]
  | some f => rw [iniApplyKv_known h, store_unnamed]

theorem applyKv_settings (cfg : ClogConfig) (k v : Bytes) : (iniApplyKv cfg k v).settings = cfg.settings.assign k v := by
  unfold Settings.assign
  cases h : Setting.named k with
  | none => rw [iniApplyKv_unknown h]
  | some f => rw [iniApplyKv_known h, store_settings]

/-! ## Assignments -/

namespace Settings

theorem assign_other (m : Settings) {k : Bytes} {f : Setting} (h : Setting.named k ≠ some f) (v : Bytes) :
    m.assign k v f = m f := by
  unfold assign
  cases hg : Setting.named k with
  | none => rfl
  | some g =>
    have hne : f ≠ g := by
      rintro rfl
      exact h hg
    exact Function.update_of_ne hne _ m

/-- The later of two assignments to one setting wins. -/
theorem assign_again (m : Settings) {k k' : Bytes} (h : Setting.named k = Setting.named k') (v v' : Bytes) :
    (m.assign k v).assign k' v' = m.assign k' v' := by
  unfold assign
  rw [h]
  cases Setting.named k' with
  | none => rfl
  | some f => simp only [Function.update_idem]

/-- Assignments to different settings can be exchanged. -/
theorem assign_comm (m : Settings) {k k' : Bytes} (h : Setting.named k ≠ Setting.named k') (v v' : Bytes) :
    (m.assign k v).assign k' v' = (m.assign k' v').assign k v := by
  unfold assign
  cases hk : Setting.named k with
  | none => cases Setting.named k' <;> rfl
  | some f =>
    cases hk' : Setting.named k' with
    | none => rfl
    | some g =>
      have hne : f ≠ g := by
        rintro rfl
        exact h (hk.trans hk'.symm)
      exact Function.update_comm (Ne.symm hne) (g.read v') (f.read v) m |>.symm

end Settings

/-! ## A line -/

def IniState.reading (st : IniState) : Reading := ⟨st.cfg.settings, st.inSection⟩

theorem iniLine_reading (st : IniState) (line : Bytes) : (iniLine st line).reading = st.reading.line line := by
  unfold iniLine Reading.line IniLine.parse
  simp only
  cases iniTrim line with
  | nil => simp
  | cons c s =>
    simp only [List.head?_cons, Option.some.injEq, List.tail_cons, reduceCtorEq, false_or]
    by_cases hc : c = chr '#' ∨ c = chr ';'
    · rw [if_pos hc, if_pos hc]
    · rw [if_neg hc, if_neg hc]
      by_cases hb : c = chr '['
      · rw [if_pos hb, if_pos hb]
        rfl
      · rw [if_neg hb, if_neg hb]
        by_cases heq : chr '=' ∈ c :: s
        · rw [if_pos heq]
          simp only [heq, not_true_eq_false, if_false]
          by_cases hin : st.inSection = true
          · have hr : st.reading.accepts = true := hin
            rw [if_neg (not_not_intro hin), if_pos hr]
            unfold IniState.reading
            simp only [applyKv_settings]
          · have hr : ¬st.reading.accepts = true := hin
            rw [if_pos hin, if_neg hr]
        · rw [if_neg heq]
          simp only [heq, not_false_eq_true, if_true, ite_self]

theorem foldl_reading : ∀ (lines : List Bytes) (st : IniState),
    (lines.foldl iniLine st).reading = lines.foldl Reading.line st.reading
  | [], _ => rfl
  | l :: lines, st => by
    rw [List.foldl_cons, List.foldl_cons, foldl_reading lines, iniLine_reading]

theorem isBlank_newline : isBlank newline = true := by decide

theorem rdropWhile_snoc {p : UInt8 → Bool} {c : UInt8} (h : p c = true) (s : Bytes) : (s ++ [c]).rdropWhile p = s.rdropWhile p := by
  rw [List.rdropWhile_concat, if_pos h]

/-- The end of a line is trimmed. -/
theorem iniTrim_newline (s : Bytes) : iniTrim (s ++ [newline]) = iniTrim s := by
  unfold iniTrim
  by_cases h : s.dropWhile isBlank = []
  · have hs := List.dropWhile_eq_nil_iff.mp h
    rw [List.dropWhile_append, h]
    simp [isBlank_newline]
  · rw [List.dropWhile_append]
    have : (s.dropWhile isBlank).isEmpty = false := by
      cases hd : s.dropWhile isBlank with
      | nil => exact absurd hd h
      | cons c t => rfl
    rw [this]
    exact rdropWhile_snoc isBlank_newline _

theorem iniLine_newline (st : IniState) (line : Bytes) : iniLine st (line ++ [newline]) = iniLine st line := by
  unfold iniLine
  rw [iniTrim_newline]

theorem iniLine_nil (st : IniState) : iniLine st [] = st := by
  unfold iniLine
  rw [show iniTrim [] = [] from rfl]
  simp

theorem iniSeed_settings : iniSeed.settings = clogConfigDefault.settings := by
  funext f
  cases f <;> rfl

theorem iniLine_unnamed (st : IniState) (line : Bytes) : (iniLine st line).cfg.unnamed = st.cfg.unnamed := by
  unfold iniLine
  simp only
  split_ifs
  · rfl
  · rfl
  · exact applyKv_unnamed _ _ _
  · rfl
  · rfl

theorem foldl_unnamed : ∀ (lines : List Bytes) (st : IniState), (lines.foldl iniLine st).cfg.unnamed = st.cfg.unnamed
  | [], _ => rfl
  | l :: lines, st => by rw [List.foldl_cons, foldl_unnamed lines, iniLine_unnamed]

/-- A configuration is its settings and the fields that no key names. -/
theorem withSettings_settings {cfg base : ClogConfig} (h : cfg.unnamed = base.unnamed) :
    base.withSettings cfg.settings = cfg := by
  unfold ClogConfig.unnamed at h
  simp only [Prod.mk.injEq] at h
  obtain ⟨⟨hs, he, ha, hp⟩, hf, hn⟩ := h
  unfold ClogConfig.withSettings
  rw [← hs, ← he, ← ha, ← hp, ← hf, ← hn]
  rfl

theorem ClogConfig.ext_settings {a b : ClogConfig} (h : a.settings = b.settings) (hu : a.unnamed = b.unnamed) : a = b := by
  rw [← withSettings_settings hu, h]
  exact withSettings_settings rfl

theorem iniApplyKv_again (cfg : ClogConfig) {k k' : Bytes} (h : Setting.named k = Setting.named k') (v v' : Bytes) :
    iniApplyKv (iniApplyKv cfg k v) k' v' = iniApplyKv cfg k' v' := by
  apply ClogConfig.ext_settings
  · simp only [applyKv_settings]
    exact Settings.assign_again _ h v v'
  · simp only [applyKv_unnamed]

theorem iniApplyKv_comm (cfg : ClogConfig) {k k' : Bytes} (h : Setting.named k ≠ Setting.named k') (v v' : Bytes) :
    iniApplyKv (iniApplyKv cfg k v) k' v' = iniApplyKv (iniApplyKv cfg k' v') k v := by
  apply ClogConfig.ext_settings
  · simp only [applyKv_settings]
    exact Settings.assign_comm _ h v v'
  · simp only [applyKv_unnamed]

/-! ## The file -/

/-- A file whose lines are shorter than the buffer of the reader. -/
theorem iniRead_meaning {content : CStr} (h : ∀ l ∈ content.bytes.splitOn newline, l.length < iniLineMax) :
    iniRead content = meaning content := by
  have hfit : ∀ l ∈ content.bytes.splitOn newline, l.length ≤ iniLineMax - 1 := by
    intro l hl
    have := h l hl
    unfold iniLineMax at this ⊢
    omega
  have hread := Lines.foldl_pieces iniLine_newline iniLine_nil (by decide) (Nat.le_refl _) hfit ⟨iniSeed, true⟩
  have hmeans := foldl_reading (content.bytes.splitOn newline) ⟨iniSeed, true⟩
  rw [← hread] at hmeans
  have hstart : IniState.reading ⟨iniSeed, true⟩ = ⟨clogConfigDefault.settings, true⟩ := by
    unfold IniState.reading
    rw [iniSeed_settings]
  rw [hstart] at hmeans
  have hsettings : (iniRead content).settings = _ := congrArg Reading.settings hmeans
  have hunnamed : (iniRead content).unnamed = clogConfigDefault.unnamed := foldl_unnamed _ _
  unfold meaning
  rw [← hsettings, withSettings_settings hunnamed]

/-! ## A line that is too long -/

/-- A value behind more blanks than the buffer holds. -/
def farValue : CStr := ⟨lit "logger=" ++ List.replicate 1192 (chr ' ') ++ [chr 'x'], by decide +kernel⟩

theorem farValue_lines : farValue.bytes.splitOn newline = [farValue.bytes] := by
  refine List.splitOn_eq_singleton ?_
  decide +kernel

theorem farValue_length : farValue.bytes.length = iniLineMax := by decide +kernel

theorem farValue_read : (iniRead farValue).loggerName = some .empty := by decide +kernel

theorem farValue_meaning : (meaning farValue).loggerName = some ⟨[chr 'x'], by decide⟩ := by decide +kernel

theorem farValue_misread : iniRead farValue ≠ meaning farValue := by
  intro h
  have hname := congrArg (fun cfg => cfg.loggerName) h
  rw [farValue_read, farValue_meaning] at hname
  cases hname

/-- No greater length of line is read well throughout. -/
theorem iniRead_limit (n : Nat) :
    (∀ content : CStr, (∀ l ∈ content.bytes.splitOn newline, l.length ≤ n) → iniRead content = meaning content) ↔
      n < iniLineMax := by
  constructor
  · intro h
    by_contra hn
    refine farValue_misread (h farValue fun l hl => ?_)
    rw [farValue_lines] at hl
    cases List.mem_singleton.mp hl
    rw [farValue_length]
    omega
  · intro hn content hfit
    refine iniRead_meaning fun l hl => ?_
    have := hfit l hl
    omega

/-- A file whose lines fit the buffer gives the configuration that its lines say; of
two assignments to one setting the later wins, those to different settings can be
exchanged, and no setting changes but the one that is named. -/
theorem ini_file_means_lines {files : CStr → Option CStr} {path content : CStr} (hpath : path.bytes ≠ [])
    (hopen : files path = some content) (hfit : ∀ l ∈ content.bytes.splitOn newline, l.length < iniLineMax) :
    hxClogInitFromFile files (some path) = .ok (meaning content) ∧
      (∀ n, (∀ c : CStr, (∀ l ∈ c.bytes.splitOn newline, l.length ≤ n) → iniRead c = meaning c) ↔ n < iniLineMax) ∧
      (∀ (cfg : ClogConfig) (k k' v v' : Bytes), Setting.named k = Setting.named k' →
        iniApplyKv (iniApplyKv cfg k v) k' v' = iniApplyKv cfg k' v') ∧
      (∀ (cfg : ClogConfig) (k k' v v' : Bytes), Setting.named k ≠ Setting.named k' →
        iniApplyKv (iniApplyKv cfg k v) k' v' = iniApplyKv (iniApplyKv cfg k' v') k v) ∧
      (∀ (cfg : ClogConfig) (k v : Bytes) (f : Setting), Setting.named k ≠ some f →
        (iniApplyKv cfg k v).settings f = cfg.settings f) ∧
      (∀ (cfg : ClogConfig) (k v : Bytes), (iniApplyKv cfg k v).unnamed = cfg.unnamed) := by
  refine ⟨?_, iniRead_limit, fun cfg k k' v v' h => iniApplyKv_again cfg h v v',
    fun cfg k k' v v' h => iniApplyKv_comm cfg h v v', ?_, applyKv_unnamed⟩
  · unfold hxClogInitFromFile
    simp only [hpath, if_false, hopen, iniRead_meaning hfit]
  · intro cfg k v f h
    rw [applyKv_settings]
    exact Settings.assign_other _ h v

def smallFile : CStr := ⟨lit "# log\n[hx_clog]\nlevel = warn\nfile=a.log\nlevel=off", by decide⟩

theorem ini_file_means_lines_small :
    hxClogInitFromFile (fun _ => some smallFile) (some ⟨lit "x.ini", by decide⟩) = .ok (meaning smallFile) ∧
      (meaning smallFile).level = 6 := by
  have hfit : ∀ l ∈ smallFile.bytes.splitOn newline, l.length < iniLineMax := by decide +kernel
  have hpath : (⟨lit "x.ini", by decide⟩ : CStr).bytes ≠ [] := by decide
  have hopen : (fun _ : CStr => some smallFile) ⟨lit "x.ini", by decide⟩ = some smallFile := rfl
  exact ⟨(ini_file_means_lines hpath hopen hfit).1, by decide +kernel⟩

/-- A value behind enough blanks is lost. -/
theorem long_line_misread :
    hxClogInitFromFile (fun _ => some farValue) (some ⟨lit "x.ini", by decide⟩) ≠ .ok (meaning farValue) := by
  have hpath : (⟨lit "x.ini", by decide⟩ : CStr).bytes ≠ [] := by decide
  unfold hxClogInitFromFile
  simp only [hpath, if_false]
  intro h
  injection h with h
  exact farValue_misread h

end HxClog
