import HxClog.IniSound

/-!
# Comments behind a value

The reader of the INI file knows comments at the start of a line only. Text behind a value
belongs to the value, and it depends on how the value is read whether that matters.
-/

namespace HxClog

open C Scan

/-! ## Files -/

/-- The string that a piece of the file is for the code behind `fgets`. -/
def cString (b : Bytes) : Bytes := b.takeWhile (· ≠ 0)

/-- What `fgets` reads from a text, as strings. -/
def iniStrings (content : Bytes) : List Bytes :=
  (Lines.pieces newline (iniLineMax - 1) content.length content).map cString

/-- The loop over any file. -/
def iniReadBytes (content : Bytes) : ClogConfig := ((iniStrings content).foldl iniLine ⟨iniSeed, true⟩).cfg

/-! ## Which values are read alike -/

/-- The value is read the same whatever stands behind it. The names that mean what no name means
do not matter, a number ends in front of a blank, and a string that fills its buffer is cut. -/
def Setting.Tolerates (v : Bytes) : Setting → Prop
  | .maxFileSize | .maxBackupFiles | .maxBackupDays | .maxCompressedFiles | .rotateIntervalSeconds | .asyncQueueSize
  | .asyncBatchSize | .flushIntervalMs => True
  | .logDir => pathMax - 1 ≤ v.length
  | .fileName => 255 ≤ v.length
  | .loggerName => 127 ≤ v.length
  | .pattern => 511 ≤ v.length
  | .level => hxClogLevelFromName v = 2
  | .mode => ieq v (lit "async") = false
  | .formatMode => ieq v (lit "json") = false
  | .rotatePolicy => iniRotatePolicy v = .none
  | .overflowPolicy => iniOverflowPolicy v = .block
  | .enableConsole | .enableFile | .enableColor | .rotateDaily | .rotateOnStartup | .rotateAlign | .dateSubdir
  | .enableCrashHandler => iniBool v = false

/-- Some of the lines that count sets `f`. -/
def reassigns (f : Setting) : Bool → List Bytes → Bool
  | _, [] => false
  | accepts, l :: lines =>
    match IniLine.parse l with
    | .skip => reassigns f accepts lines
    | .section name => reassigns f (sectionAccepted name) lines
    | .assign key _ => (accepts && Setting.named key = some f) || reassigns f accepts lines

/-! ## A setting through the rest of a file -/

theorem settings_kept {f : Setting} : ∀ {lines : List Bytes} {r r' : Reading}, r.accepts = r'.accepts →
    r.settings f = r'.settings f → (lines.foldl Reading.line r).settings f = (lines.foldl Reading.line r').settings f
  | [], _, _, _, h => h
  | l :: lines, r, r', ha, h => by
    rw [List.foldl_cons, List.foldl_cons]
    refine settings_kept ?_ ?_
    · unfold Reading.line
      cases IniLine.parse l with
      | skip => exact ha
      | «section» name => rfl
      | assign key value =>
        simp only [← ha]
        split
        · rfl
        · exact ha
    · unfold Reading.line
      cases IniLine.parse l with
      | skip => exact h
      | «section» name => exact h
      | assign key value =>
        simp only [← ha]
        split
        · unfold Settings.assign
          cases Setting.named key with
          | none => exact h
          | some g =>
            by_cases hg : f = g
            · subst hg
              simp only [Function.update_self]
            · simp only [Function.update_of_ne hg]
              exact h
        · exact h

theorem settings_eq_iff {f : Setting} : ∀ {lines : List Bytes} {r r' : Reading}, r.accepts = r'.accepts →
    ((lines.foldl Reading.line r).settings f = (lines.foldl Reading.line r').settings f ↔
      reassigns f r.accepts lines = true ∨ r.settings f = r'.settings f)
  | [], r, r', _ => by simp [reassigns]
  | l :: lines, r, r', ha => by
    have ih : ∀ q q' : Reading, q.accepts = q'.accepts →
        ((lines.foldl Reading.line q).settings f = (lines.foldl Reading.line q').settings f ↔
          reassigns f q.accepts lines = true ∨ q.settings f = q'.settings f) := fun q q' h => settings_eq_iff h
    rw [List.foldl_cons, List.foldl_cons, Reading.line, Reading.line, reassigns]
    cases IniLine.parse l with
    | skip => exact ih r r' ha
    | «section» name => exact ih { r with accepts := sectionAccepted name } { r' with accepts := sectionAccepted name } rfl
    | assign key value =>
      simp only [← ha]
      by_cases hin : r.accepts = true
      · rw [if_pos hin, if_pos hin]
        have := ih { settings := r.settings.assign key value, accepts := r.accepts }
          { settings := r'.settings.assign key value, accepts := r.accepts } rfl
        rw [this]
        simp only [hin, Bool.true_and, Bool.or_eq_true, decide_eq_true_eq]
        by_cases hk : Setting.named key = some f
        · have hsame : r.settings.assign key value f = r'.settings.assign key value f := by
            unfold Settings.assign
            rw [hk]
            simp only [Function.update_self]
          simp [hk, hsame]
        · rw [Settings.assign_other _ hk, Settings.assign_other _ hk]
          simp [hk]
      · rw [if_neg hin, if_neg hin, ih r r' ha]
        simp [hin]

/-- Two configurations that differ in one setting at most, behind the same lines. -/
theorem foldl_eq_iff {f : Setting} {lines : List Bytes} {st st' : IniState} (hin : st.inSection = st'.inSection)
    (hu : st.cfg.unnamed = st'.cfg.unnamed) (hother : ∀ g ≠ f, st.cfg.settings g = st'.cfg.settings g) :
    (lines.foldl iniLine st).cfg = (lines.foldl iniLine st').cfg ↔
      reassigns f st.inSection lines = true ∨ st.cfg.settings f = st'.cfg.settings f := by
  have hfold : ∀ (st : IniState) (g : Setting), (lines.foldl iniLine st).cfg.settings g =
      (lines.foldl Reading.line st.reading).settings g := by
    intro st g
    rw [← foldl_reading]
    rfl
  have hiff : ∀ g : Setting, (lines.foldl Reading.line st.reading).settings g =
      (lines.foldl Reading.line st'.reading).settings g ↔
        reassigns g st.inSection lines = true ∨ st.cfg.settings g = st'.cfg.settings g := fun g => settings_eq_iff hin
  constructor
  · intro h
    have := congrArg (fun cfg => cfg.settings f) h
    simp only [hfold] at this
    exact (hiff f).mp this
  · intro h
    refine ClogConfig.ext_settings ?_ ?_
    · funext g
      rw [hfold, hfold]
      by_cases hg : g = f
      · subst hg
        exact (hiff g).mpr h
      · exact (hiff g).mpr (.inr (hother g hg))
    · rw [foldl_unnamed, foldl_unnamed, hu]

/-! ## Values with a comment -/

/-- The value of a line behind which blanks and a comment are put. -/
def commented (v blanks text : Bytes) : Bytes :=
  (if v = [] then [] else v ++ blanks) ++ chr ';' :: text.rdropWhile isBlank

theorem blank_space {c : UInt8} (h : isBlank c = true) : isSpace c = true ∧ isDigit c = false := by
  unfold isBlank at h
  simp only [Bool.or_eq_true, decide_eq_true_eq] at h
  rcases h with ((rfl | rfl) | rfl) | rfl
  · exact ⟨rfl, rfl⟩
  · exact ⟨rfl, rfl⟩
  · exact ⟨rfl, rfl⟩
  · exact ⟨rfl, rfl⟩

section
variable {v blanks text : Bytes}

theorem semicolon_commented : chr ';' ∈ commented v blanks text := by
  unfold commented
  exact List.mem_append_right _ List.mem_cons_self

/-- What is put behind a value. -/
theorem commented_behind (v text : Bytes) (hblanks : ∀ c ∈ blanks, isBlank c = true) :
    ∃ bs t, commented v blanks text = v ++ (bs ++ chr ';' :: t) ∧ ∀ c ∈ bs, isBlank c = true := by
  unfold commented
  by_cases hv : v = []
  · refine ⟨[], text.rdropWhile isBlank, ?_, by simp⟩
    rw [if_pos hv, hv]
    rfl
  · refine ⟨blanks, text.rdropWhile isBlank, ?_, hblanks⟩
    rw [if_neg hv, List.append_assoc]

/-- No word has a semicolon in it. -/
theorem ieq_commented {w : Bytes} (hw : chr ';' ∉ w.map lowerCase) : ieq (commented v blanks text) w = false := by
  rw [Bool.eq_false_iff, ne_eq, ieq_iff]
  intro h
  apply hw
  rw [← h]
  exact List.mem_map.mpr ⟨_, semicolon_commented, by decide⟩

theorem level_commented : hxClogLevelFromName (commented v blanks text) = 2 := by
  have h : ∀ w : Bytes, chr ';' ∉ w.map lowerCase → ieq (commented v blanks text) w = false := fun _ => ieq_commented
  unfold hxClogLevelFromName
  simp only [h (lit "trace") (by decide), h (lit "debug") (by decide), h (lit "info") (by decide),
    h (lit "warn") (by decide), h (lit "warning") (by decide), h (lit "error") (by decide), h (lit "fatal") (by decide),
    h (lit "off") (by decide)]
  rfl

theorem bool_commented : iniBool (commented v blanks text) = false := by
  have h : ∀ w : Bytes, chr ';' ∉ w.map lowerCase → ieq (commented v blanks text) w = false := fun _ => ieq_commented
  unfold iniBool
  simp only [h (lit "1") (by decide), h (lit "true") (by decide), h (lit "yes") (by decide), h (lit "on") (by decide)]
  rfl

theorem rotatePolicy_commented : iniRotatePolicy (commented v blanks text) = .none := by
  have h : ∀ w : Bytes, chr ';' ∉ w.map lowerCase → ieq (commented v blanks text) w = false := fun _ => ieq_commented
  unfold iniRotatePolicy
  simp only [h (lit "size") (by decide), h (lit "time") (by decide), h (lit "size_and_time") (by decide),
    h (lit "both") (by decide)]
  rfl

theorem overflowPolicy_commented : iniOverflowPolicy (commented v blanks text) = .block := by
  have h : ∀ w : Bytes, chr ';' ∉ w.map lowerCase → ieq (commented v blanks text) w = false := fun _ => ieq_commented
  unfold iniOverflowPolicy
  simp only [h (lit "drop_new") (by decide), h (lit "drop_old") (by decide)]
  rfl

/-! ## Numbers -/

theorem atoi_commented (hblanks : ∀ c ∈ blanks, isBlank c = true) : atoi (commented v blanks text) = atoi v := by
  obtain ⟨bs, t, heq, hbs⟩ := commented_behind v text hblanks
  rw [heq]
  exact atoi_stop (fun c hc => (blank_space (hbs c hc)).1) (by decide)

theorem iniDigits_append {r : Bytes} (hr : NoDigit r) : ∀ (n : UInt64) (v : Bytes),
    iniDigits n (v ++ r) = ((iniDigits n v).1, (iniDigits n v).2 ++ r)
  | n, [] => by
    cases r with
    | nil => rfl
    | cons c r => simp [iniDigits, hr c rfl]
  | n, c :: v => by
    simp only [List.cons_append, iniDigits]
    by_cases hc : isDigit c = true
    · rw [if_pos hc, if_pos hc, iniDigits_append hr]
    · rw [if_neg hc, if_neg hc]
      rfl

theorem iniSize_commented (hblanks : ∀ c ∈ blanks, isBlank c = true) :
    iniSize (commented v blanks text) = iniSize v := by
  obtain ⟨bs, t, heq, hbs⟩ := commented_behind v text hblanks
  have hhead : ∀ c ∈ (bs ++ chr ';' :: t).head?, isBlank c = true ∨ c = chr ';' := by
    intro c hc
    cases bs with
    | nil => exact .inr (by simpa using hc.symm)
    | cons b bs => exact .inl (by simp at hc; exact hc ▸ hbs b List.mem_cons_self)
  have hdigit : NoDigit (bs ++ chr ';' :: t) := by
    intro c hc
    rcases hhead c hc with h | rfl
    · exact (blank_space h).2
    · rfl
  rw [heq]
  unfold iniSize
  rw [iniDigits_append hdigit]
  simp only
  cases (iniDigits 0 v).2 with
  | cons c w => rfl
  | nil =>
    simp only [List.nil_append]
    cases hr : bs ++ chr ';' :: t with
    | nil => rfl
    | cons c r =>
      -- neither a blank nor the semicolon is a unit
      rcases hhead c (by rw [hr]; rfl) with h | rfl
      · unfold isBlank at h
        simp only [Bool.or_eq_true, decide_eq_true_eq] at h
        rcases h with ((rfl | rfl) | rfl) | rfl
        · rfl
        · rfl
        · rfl
        · rfl
      · rfl

/-! ## Strings -/

theorem take_append_eq_iff {α : Type*} {n : Nat} {v r : List α} (hr : r ≠ []) : (v ++ r).take n = v.take n ↔ n ≤ v.length := by
  constructor
  · intro h
    have hlen := congrArg List.length h
    have := List.length_pos_of_ne_nil hr
    simp only [List.length_take, List.length_append] at hlen
    omega
  · intro h
    rw [List.take_append_of_le_length h]

theorem iniString_commented (text : Bytes) (hv : 0 ∉ v) (hblanks : ∀ c ∈ blanks, isBlank c = true) (cap : Nat) :
    iniString cap (commented v blanks text) = iniString cap v ↔ cap - 1 ≤ v.length := by
  obtain ⟨bs, t, heq, hbs⟩ := commented_behind v text hblanks
  have hnz : ∀ c ∈ v, decide (c ≠ 0) = true := by
    intro c hc
    rw [decide_eq_true_eq]
    rintro rfl
    exact hv hc
  have hr : (bs ++ chr ';' :: t).takeWhile (fun c => decide (c ≠ 0)) ≠ [] := by
    cases bs with
    | nil => simp [show chr ';' ≠ 0 by decide]
    | cons b bs =>
      have : b ≠ 0 := by
        rintro rfl
        exact absurd (hbs 0 List.mem_cons_self) (by decide)
      simp [this]
  have hbytes : ∀ w, (CStr.cut cap (.ofBytes w)).bytes = (w.takeWhile fun c => decide (c ≠ 0)).take (cap - 1) := fun _ => rfl
  rw [heq, iniString, iniString, Option.some.injEq, CStr.eq_iff, hbytes, hbytes, List.takeWhile_append_of_pos hnz,
    List.takeWhile_eq_self_iff.mpr hnz]
  exact take_append_eq_iff hr

/-- Every kind of value. -/
theorem read_commented (hv : 0 ∉ v) (hblanks : ∀ c ∈ blanks, isBlank c = true) (f : Setting) :
    f.read (commented v blanks text) = f.read v ↔ f.Tolerates v := by
  have hstr := iniString_commented text hv hblanks
  have hword : ∀ w, chr ';' ∉ w.map lowerCase → ieq (commented v blanks text) w = false := fun _ => ieq_commented
  cases f <;> simp only [Setting.read, Setting.Tolerates, iniUint, atoi_commented hblanks, iniSize_commented hblanks,
    level_commented, bool_commented, rotatePolicy_commented, overflowPolicy_commented, hword (lit "async") (by decide),
    hword (lit "json") (by decide)]
  case logDir => exact hstr pathMax
  case fileName => exact hstr 256
  case loggerName => exact hstr 128
  case pattern => exact hstr 512
  case mode => cases ieq v (lit "async") <;> simp
  case formatMode => cases ieq v (lit "json") <;> simp
  all_goals exact eq_comm

end

/-! ## Lines with a comment -/

theorem rdropWhile_blanks {bs : Bytes} (hbs : ∀ c ∈ bs, isBlank c = true) (s : Bytes) :
    (s ++ bs).rdropWhile isBlank = s.rdropWhile isBlank := by
  induction bs using List.reverseRecOn with
  | nil => rw [List.append_nil]
  | append_singleton bs c ih =>
    rw [← List.append_assoc, rdropWhile_snoc (hbs c (by simp))]
    exact ih fun d hd => hbs d (by simp [hd])

theorem rdropWhile_stop {c : UInt8} (hc : isBlank c = false) (s t : Bytes) :
    (s ++ c :: t).rdropWhile isBlank = s ++ c :: t.rdropWhile isBlank := by
  induction t using List.reverseRecOn with
  | nil => rw [List.rdropWhile_concat_neg _ _ _ (by rw [hc]; simp), List.rdropWhile_nil]
  | append_singleton t d ih =>
    rw [← List.cons_append, ← List.append_assoc, List.rdropWhile_concat, List.rdropWhile_concat]
    by_cases hd : isBlank d = true
    · rw [if_pos hd, if_pos hd]
      exact ih
    · rw [if_neg hd, if_neg hd]
      simp

/-- What is trimmed behind a text stays in front of a comment. -/
theorem iniTrim_comment {bs : Bytes} (hbs : ∀ c ∈ bs, isBlank c = true) (s text : Bytes) :
    ∃ w, (∀ c ∈ w, isBlank c = true) ∧ iniTrim (s ++ (bs ++ chr ';' :: text)) = commented (iniTrim s) (w ++ bs) text := by
  have hsplit : iniTrim s ++ (s.dropWhile isBlank).rtakeWhile isBlank = s.dropWhile isBlank :=
    List.rdropWhile_append_rtakeWhile
  have hw : ∀ c ∈ (s.dropWhile isBlank).rtakeWhile isBlank, isBlank c = true := fun _ => List.mem_rtakeWhile_imp
  refine ⟨(s.dropWhile isBlank).rtakeWhile isBlank, hw, ?_⟩
  generalize (s.dropWhile isBlank).rtakeWhile isBlank = w at hsplit hw
  have hsemi : isBlank (chr ';') = false := by decide
  unfold commented
  by_cases hs : s.dropWhile isBlank = []
  · have htrim : iniTrim s = [] := (List.append_eq_nil_iff.mp (hsplit.trans hs)).1
    have hall : ∀ c ∈ s ++ bs, isBlank c = true := by
      intro c hc
      rcases List.mem_append.mp hc with h | h
      · exact List.dropWhile_eq_nil_iff.mp hs c h
      · exact hbs c h
    rw [if_pos htrim, ← List.append_assoc]
    unfold iniTrim
    rw [List.dropWhile_append_of_pos hall, List.dropWhile_cons_of_neg (by rw [hsemi]; simp)]
    exact rdropWhile_stop hsemi [] text
  · have htrim : iniTrim s ≠ [] := by
      intro h
      rw [h, List.nil_append] at hsplit
      obtain ⟨c, t, hct⟩ := List.exists_cons_of_ne_nil hs
      have hblank := hw c (by rw [hsplit, hct]; exact List.mem_cons_self)
      have hhead : isBlank c = false := dropWhile_head (s := s) c (by rw [hct]; rfl)
      rw [hhead] at hblank
      cases hblank
    have hempty : (s.dropWhile isBlank).isEmpty = false := by simpa using hs
    have hdrop : (s ++ (bs ++ chr ';' :: text)).dropWhile isBlank = (iniTrim s ++ (w ++ bs)) ++ chr ';' :: text := by
      rw [List.dropWhile_append, hempty]
      simp only [Bool.false_eq_true, if_false]
      rw [← hsplit]
      simp only [List.append_assoc]
    rw [if_neg htrim, iniTrim, hdrop]
    exact rdropWhile_stop hsemi _ text

theorem commented_nonempty {v : Bytes} (hv : v ≠ []) (bs text : Bytes) :
    commented v bs text = v ++ (bs ++ chr ';' :: text.rdropWhile isBlank) := by
  unfold commented
  rw [if_neg hv, List.append_assoc]

theorem takeWhile_append_mem {d : UInt8} : ∀ {s : Bytes}, d ∈ s → ∀ t : Bytes,
    (s ++ t).takeWhile (fun c => decide (c ≠ d)) = s.takeWhile (fun c => decide (c ≠ d)) ∧
      ((s ++ t).dropWhile (fun c => decide (c ≠ d))).tail = (s.dropWhile (fun c => decide (c ≠ d))).tail ++ t
  | [], h, _ => absurd h List.not_mem_nil
  | c :: s, h, t => by
    by_cases hc : c = d
    · simp [hc]
    · have hs : d ∈ s := (List.mem_cons.mp h).resolve_left (Ne.symm hc)
      obtain ⟨htake, hdrop⟩ := takeWhile_append_mem hs t
      simp only [List.cons_append, List.takeWhile_cons, List.dropWhile_cons, hc, ne_eq, not_false_eq_true, decide_true,
        if_true] at htake hdrop ⊢
      exact ⟨by rw [htake], hdrop⟩

/-- The comment ends up in the value. -/
theorem parse_comment {line key value bs : Bytes} (text : Bytes) (hbs : ∀ c ∈ bs, isBlank c = true)
    (h : IniLine.parse line = .assign key value) : ∃ w, (∀ c ∈ w, isBlank c = true) ∧
      IniLine.parse (line ++ (bs ++ chr ';' :: text)) = .assign key (commented value w text) := by
  obtain ⟨w, hw, htrim⟩ := iniTrim_comment hbs line text
  unfold IniLine.parse at h ⊢
  rw [htrim]
  cases hs : iniTrim line with
  | nil =>
    rw [hs] at h
    cases h
  | cons c s =>
    rw [hs] at h
    simp only at h
    split at h
    · cases h
    rename_i hc
    split at h
    · cases h
    rename_i hb
    split at h
    · rename_i heq
      cases h
      have hblanks : ∀ c ∈ w ++ bs, isBlank c = true := by
        intro c hc
        rcases List.mem_append.mp hc with h | h
        · exact hw c h
        · exact hbs c h
      obtain ⟨w', hw', hvalue⟩ := iniTrim_comment hblanks ((c :: s).dropWhile (· ≠ chr '=')).tail (text.rdropWhile isBlank)
      refine ⟨w' ++ (w ++ bs), ?_, ?_⟩
      · intro c hc
        rcases List.mem_append.mp hc with h | h
        · exact hw' c h
        · exact hblanks c h
      rw [commented_nonempty (List.cons_ne_nil c s), List.cons_append]
      simp only [if_neg hc, if_neg hb]
      rw [← List.cons_append, if_pos (List.mem_append_left _ heq)]
      have hkey := takeWhile_append_mem heq ((w ++ bs) ++ chr ';' :: text.rdropWhile isBlank)
      rw [hkey.1, hkey.2, hvalue]
      unfold commented
      rw [List.rdropWhile_idempotent]
    · cases h

theorem parse_mem {line key value : Bytes} (h : IniLine.parse line = .assign key value) : ∀ c ∈ value, c ∈ line := by
  have htrim : ∀ (s : Bytes), ∀ c ∈ iniTrim s, c ∈ s := fun s c hc =>
    (List.dropWhile_sublist _).subset ((List.rdropWhile_prefix _ _).subset hc)
  unfold IniLine.parse at h
  cases hs : iniTrim line with
  | nil =>
    rw [hs] at h
    cases h
  | cons c s =>
    rw [hs] at h
    simp only at h
    split at h
    · cases h
    split at h
    · cases h
    split at h
    · cases h
      intro d hd
      refine htrim line d ?_
      rw [hs]
      exact (List.dropWhile_sublist _).subset (List.mem_of_mem_tail (htrim _ d hd))
    · cases h

theorem iniLine_assign {line key value : Bytes} (h : IniLine.parse line = .assign key value) (st : IniState) :
    iniLine st line = if st.inSection then { st with cfg := iniApplyKv st.cfg key value } else st := by
  unfold IniLine.parse at h
  unfold iniLine
  cases hs : iniTrim line with
  | nil =>
    rw [hs] at h
    cases h
  | cons c s =>
    rw [hs] at h
    simp only at h
    split at h
    · cases h
    rename_i hc
    split at h
    · cases h
    rename_i hb
    split at h
    · rename_i heq
      cases h
      simp only [List.head?_cons, Option.some.injEq, reduceCtorEq, false_or, if_neg hc, if_neg hb, heq, not_true_eq_false,
        if_false]
      by_cases hin : st.inSection = true <;> simp [hin]
    · cases h

/-! ## A line in a file -/

theorem cString_noNul {b : Bytes} (h : 0 ∉ b) : cString b = b := CStr.ofBytes_bytes h

theorem cString_append {b : Bytes} (h : 0 ∉ b) (t : Bytes) : cString (b ++ t) = b ++ cString t := by
  refine List.takeWhile_append_of_pos fun c hc => ?_
  rw [decide_eq_true_eq]
  rintro rfl
  exact h hc

/-- Behind a NUL character nothing is read. -/
theorem cString_nul : ∀ {b : Bytes}, 0 ∈ b → ∀ t : Bytes, cString (b ++ t) = cString b
  | [], h, _ => absurd h List.not_mem_nil
  | c :: b, h, t => by
    unfold cString
    by_cases hc : c = 0
    · simp [hc]
    · have ih : cString (b ++ t) = cString b := cString_nul ((List.mem_cons.mp h).resolve_left (Ne.symm hc)) t
      unfold cString at ih
      rw [List.cons_append, List.takeWhile_cons_of_pos (by simpa using hc), List.takeWhile_cons_of_pos (by simpa using hc), ih]

/-- The body of the loop, on a piece of the file. -/
def iniPiece (st : IniState) (piece : Bytes) : IniState := iniLine st (cString piece)

theorem iniPiece_newline (st : IniState) (l : Bytes) : iniPiece st (l ++ [newline]) = iniPiece st l := by
  unfold iniPiece
  by_cases h : 0 ∈ l
  · rw [cString_nul h]
  · rw [cString_append h, cString_noNul h, show cString [newline] = [newline] by decide, iniLine_newline]

theorem iniRead_bytes (content : CStr) : iniReadBytes content.bytes = iniRead content := by
  have hpieces : ∀ {cap fuel : Nat} {s : Bytes}, ∀ p ∈ Lines.pieces newline cap fuel s, ∀ c ∈ p, c ∈ s :=
    fun p hp c hc => Lines.mem_pieces hp hc
  have hstrings : iniStrings content.bytes = Lines.pieces newline (iniLineMax - 1) content.bytes.length content.bytes := by
    unfold iniStrings
    refine (List.map_congr_left fun p hp => ?_).trans (List.map_id _)
    exact cString_noNul fun h => content.noNul (hpieces p hp 0 h)
  unfold iniReadBytes iniRead
  rw [hstrings]

/-- A line that fits the buffer is read between the lines before it and the lines behind it. -/
theorem iniStrings_line {before line after : Bytes} (hbefore : before = [] ∨ before.getLast? = some newline)
    (hafter : after = [] ∨ after.head? = some newline) (hline : newline ∉ line) (hfit : line.length < iniLineMax)
    (st : IniState) : (iniStrings (before ++ (line ++ after))).foldl iniLine st =
      (iniStrings after).foldl iniLine (iniLine ((iniStrings before).foldl iniLine st) (cString line)) := by
  have hcap : 0 < iniLineMax - 1 := by decide
  have hle : line.length ≤ iniLineMax - 1 := by omega
  have hempty : ∀ t : IniState, iniPiece t [] = t := iniLine_nil
  have hfold : ∀ (content : Bytes) (t : IniState), (iniStrings content).foldl iniLine t =
      (Lines.pieces newline (iniLineMax - 1) content.length content).foldl iniPiece t := fun _ _ => List.foldl_map
  rw [hfold, hfold, hfold, Lines.pieces_append hcap _ (Nat.le_refl _) hbefore, List.foldl_append]
  have hlen : (before ++ (line ++ after)).length = before.length + (line.length + after.length) := by simp
  rw [hlen, Lines.pieces_fuel hcap (show before.length ≤ before.length + (line.length + after.length) by omega)
    (Nat.le_refl before.length)]
  generalize (Lines.pieces newline (iniLineMax - 1) before.length before).foldl iniPiece st = t
  rcases hafter with rfl | hnl
  · rw [List.append_nil, Lines.foldl_last hempty hline hle (by omega)]
    rfl
  · cases after with
    | nil => cases hnl
    | cons c r =>
      obtain rfl : c = newline := by simpa using hnl
      have hnext := Lines.foldl_line iniPiece_newline hempty hcap List.not_mem_nil (Nat.zero_le _)
        (Nat.le_refl ([] ++ newline :: r).length) (iniPiece t line)
      rw [List.nil_append, hempty] at hnext
      rw [Lines.foldl_line iniPiece_newline hempty hcap hline hle (by simp)]
      refine Eq.trans ?_ hnext.symm
      have hlong : r.length ≤ before.length + (line.length + (newline :: r).length) := by
        rw [List.length_cons]
        omega
      rw [Lines.pieces_fuel hcap hlong (show r.length ≤ (newline :: r).length from Nat.le_of_lt (Nat.lt_succ_self _))]

/-- Whether the lines behind this text count. -/
def acceptsAfter (before : Bytes) : Bool := ((iniStrings before).foldl iniLine ⟨iniSeed, true⟩).inSection

theorem trailing_comment_inert_iff {before line blanks text after key value : Bytes}
    (hbefore : before = [] ∨ before.getLast? = some newline) (hafter : after = [] ∨ after.head? = some newline)
    (hline : newline ∉ line) (hassign : IniLine.parse (cString line) = .assign key value)
    (hblanks : ∀ c ∈ blanks, c = chr ' ' ∨ c = chr '\t') (htext : newline ∉ text)
    (hfit : (line ++ (blanks ++ chr ';' :: text)).length < iniLineMax) :
    iniReadBytes (before ++ ((line ++ (blanks ++ chr ';' :: text)) ++ after)) = iniReadBytes (before ++ (line ++ after)) ↔
      0 ∈ line ∨ acceptsAfter before = false ∨
        ∀ f, Setting.named key = some f → f.Tolerates value ∨ reassigns f true (iniStrings after) = true := by
  have hnl : newline ∉ line ++ (blanks ++ chr ';' :: text) := by
    simp only [List.mem_append, List.mem_cons, not_or]
    refine ⟨hline, fun h => ?_, by decide, htext⟩
    rcases hblanks _ h with h | h <;> exact absurd h (by decide)
  have hshort : line.length < iniLineMax := by
    rw [List.length_append] at hfit
    omega
  unfold iniReadBytes
  rw [iniStrings_line hbefore hafter hnl hfit, iniStrings_line hbefore hafter hline hshort]
  unfold acceptsAfter
  generalize (iniStrings before).foldl iniLine ⟨iniSeed, true⟩ = st
  by_cases hnul : 0 ∈ line
  · rw [cString_nul hnul]
    simp [hnul]
  rw [cString_noNul hnul] at hassign ⊢
  rw [cString_append hnul]
  have htail : cString (blanks ++ chr ';' :: text) = blanks ++ chr ';' :: cString text := by
    rw [cString_append]
    · rfl
    · intro h
      rcases hblanks _ h with h | h <;> exact absurd h (by decide)
  have hblank : ∀ c ∈ blanks, isBlank c = true := by
    intro c hc
    rcases hblanks c hc with rfl | rfl <;> rfl
  obtain ⟨w, hw, hcomment⟩ := parse_comment (cString text) hblank hassign
  rw [htail, iniLine_assign hcomment, iniLine_assign hassign]
  by_cases hin : st.inSection = true
  · rw [if_pos hin, if_pos hin]
    cases hk : Setting.named key with
    | none => simp [iniApplyKv_unknown hk]
    | some f =>
      have hvalue : 0 ∉ value := fun h => hnul (parse_mem hassign 0 h)
      refine Iff.trans (foldl_eq_iff (f := f) rfl ?_ ?_) ?_
      · simp only [applyKv_unnamed]
      · intro g hg
        simp [applyKv_settings, Settings.assign, hk, Function.update_of_ne hg]
      · simp [hnul, hin, applyKv_settings, Settings.assign, hk, read_commented hvalue hw, or_comm]
  · rw [if_neg hin, if_neg hin]
    simp [hin]

set_option maxRecDepth 2000 in
/-- What is off stays off. -/
theorem trailing_comment_inert_iff_off :
    iniReadBytes ([] ++ ((lit "color = no" ++ ([chr ' '] ++ chr ';' :: lit " plain")) ++ [])) =
      iniReadBytes ([] ++ (lit "color = no" ++ [])) := by
  have hparse : IniLine.parse (cString (lit "color = no")) = .assign (lit "color") (lit "no") := rfl
  refine (trailing_comment_inert_iff (.inl rfl) (.inl rfl) (by decide) hparse (by decide) (by decide +kernel)
    (by decide +kernel)).mpr (.inr (.inr fun f hf => .inl ?_))
  rw [show Setting.named (lit "color") = some .enableColor by decide +kernel] at hf
  cases hf
  show iniBool (lit "no") = false
  decide +kernel

/-- The console of the documented example file. -/
def consoleLine : Bytes := lit "console = true"

/-- With its comment, the line turns the console off. -/
theorem trailing_comment_not_inert : ¬∀ before line blanks text after key value : Bytes,
    (before = [] ∨ before.getLast? = some newline) → (after = [] ∨ after.head? = some newline) → newline ∉ line →
    IniLine.parse (cString line) = .assign key value → chr '#' ∉ value → chr ';' ∉ value → blanks ≠ [] →
    (∀ c ∈ blanks, c = chr ' ' ∨ c = chr '\t') → newline ∉ text →
    (line ++ (blanks ++ chr ';' :: text)).length < iniLineMax →
      iniReadBytes (before ++ ((line ++ (blanks ++ chr ';' :: text)) ++ after)) =
        iniReadBytes (before ++ (line ++ after)) := by
  intro h
  have hsame := h [] consoleLine (lit "          ") (lit " aliases: enable_console") [] (lit "console") (lit "true")
    (.inl rfl) (.inl rfl) (by decide) rfl (by decide) (by decide) (by decide) (by decide +kernel) (by decide +kernel)
    (by decide +kernel)
  have honoff := congrArg (fun cfg => cfg.enableConsole) hsame
  revert honoff
  decide +kernel

end HxClog
