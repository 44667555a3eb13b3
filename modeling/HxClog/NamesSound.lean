import HxClog.Names

/-!
# The language of archive names

`archive_name_match` accepts exactly the names that four conversions of
`sscanf` and a fixed tail make up. A name has at most one such reading, so the
accepted names outside the documented form are an explicit set. The names that
rotation prints are read back as the date and index they were printed from.
-/

namespace HxClog

open C Scan

/-! ## Stamps -/

def Stamp.text (st : Stamp) : Bytes :=
  st.year.text ++ chr '-' :: (st.month.text ++ chr '-' :: (st.day.text ++ chr '.' :: st.index.text))

/-- Every number fits the width of its conversion. -/
def Stamp.Fits (st : Stamp) : Prop := st.year.width ≤ 4 ∧ st.month.width ≤ 2 ∧ st.day.width ≤ 2

/-- The range checks of `archive_name_match`. -/
def Stamp.InRange (st : Stamp) : Prop :=
  0 ≤ st.index.value ∧ 1 ≤ st.month.value ∧ st.month.value ≤ 12 ∧ 1 ≤ st.day.value ∧ st.day.value ≤ 31

/-- `YYYY-MM-DD.N` in digits alone. -/
def Stamp.Exact (st : Stamp) : Prop :=
  (st.year.plain ∧ st.year.width = 4) ∧ (st.month.plain ∧ st.month.width = 2) ∧
    (st.day.plain ∧ st.day.width = 2) ∧ st.index.plain

theorem Stamp.Exact.fits {st : Stamp} (h : st.Exact) : st.Fits := by
  obtain ⟨⟨_, hy⟩, ⟨_, hm⟩, ⟨_, hd⟩, _⟩ := h
  exact ⟨hy.le, hm.le, hd.le⟩

theorem scanStamp_some {s r : Bytes} {st : Stamp} (h : scanStamp s = some (st, r)) :
    s = st.text ++ r ∧ st.Fits := by
  unfold scanStamp at h
  simp only [Option.bind_eq_bind, Option.bind_eq_some_iff, Option.some.injEq, Prod.mk.injEq, Prod.exists] at h
  obtain ⟨year, s₁, h₁, s₂, h₂, month, s₃, h₃, s₄, h₄, day, s₅, h₅, s₆, h₆, index, s₇, h₇, rfl, rfl⟩ := h
  refine ⟨?_, scanInt_width (by decide) h₁, scanInt_width (by decide) h₃, scanInt_width (by decide) h₅⟩
  unfold Stamp.text
  rw [scanInt_text h₁, expect_some h₂, scanInt_text h₃, expect_some h₄, scanInt_text h₅, expect_some h₆,
    scanInt_text h₇]
  simp

theorem scanStamp_append {st : Stamp} {r : Bytes} (hst : st.Fits) (hr : NoDigit r) :
    scanStamp (st.text ++ r) = some (st, r) := by
  obtain ⟨hy, hm, hd⟩ := hst
  have htext : st.text ++ r = st.year.text ++ chr '-' :: (st.month.text ++ chr '-' ::
      (st.day.text ++ chr '.' :: (st.index.text ++ r))) := by
    simp [Stamp.text]
  have hyear := scanInt_append (some 4) st.year (r := chr '-' :: (st.month.text ++ chr '-' ::
    (st.day.text ++ chr '.' :: (st.index.text ++ r)))) (by simpa using hy) (noDigit_cons rfl _)
  have hmonth := scanInt_append (some 2) st.month (r := chr '-' :: (st.day.text ++ chr '.' ::
    (st.index.text ++ r))) (by simpa using hm) (noDigit_cons rfl _)
  have hday := scanInt_append (some 2) st.day (r := chr '.' :: (st.index.text ++ r)) (by simpa using hd)
    (noDigit_cons rfl _)
  have hindex := scanInt_append none st.index (fun _ hw => by cases hw) hr
  unfold scanStamp
  simp only [htext, hyear, hmonth, hday, hindex, expect_cons, Option.bind_eq_bind, Option.bind_some]

/-- A text has at most one reading. -/
theorem stamp_unique {st st' : Stamp} {r r' : Bytes} (h : st.text ++ r = st'.text ++ r') (hst : st.Fits)
    (hst' : st'.Fits) (hr : NoDigit r) (hr' : NoDigit r') : st = st' ∧ r = r' := by
  have := scanStamp_append hst hr
  rw [h, scanStamp_append hst' hr', Option.some.injEq, Prod.mk.injEq] at this
  exact ⟨this.1.symm, this.2.symm⟩

/-! ## Accepted names -/

/-- The texts the documented form has behind the index. -/
def strictTails (ext : Bytes) : List Bytes := [dotExt ext, dotExt ext ++ lit ".gz"]

/-- The texts the code accepts there. -/
def tails (ext : Bytes) : List Bytes :=
  if ext = [] then [[], lit ".gz"] else [cut 66 (chr '.' :: ext), cut 70 (chr '.' :: (ext ++ lit ".gz"))]

theorem archiveTail_isSome (ext p : Bytes) : (archiveTail ext p).isSome ↔ p ∈ tails ext := by
  unfold archiveTail tails
  have htwo : ∀ a b : Bytes,
      (if p = a then some false else if p = b then some true else none).isSome ↔ p ∈ [a, b] := by
    intro a b
    split
    · simp [*]
    · split <;> simp [*]
  split <;> exact htwo _ _

theorem tails_noDigit {ext p : Bytes} (h : p ∈ tails ext) : NoDigit p := by
  unfold tails at h
  split at h
  · simp only [List.mem_cons, List.not_mem_nil, or_false] at h
    rcases h with rfl | rfl
    · intro c hc; cases hc
    · exact noDigit_cons rfl _
  · simp only [List.mem_cons, List.not_mem_nil, or_false] at h
    rcases h with rfl | rfl <;> exact noDigit_cons rfl _

theorem strictTails_noDigit {ext p : Bytes} (h : p ∈ strictTails ext) : NoDigit p := by
  unfold strictTails dotExt at h
  simp only [List.mem_cons, List.not_mem_nil, or_false] at h
  split at h
  · rcases h with rfl | rfl
    · intro c hc; cases hc
    · exact noDigit_cons rfl _
  · rcases h with rfl | rfl <;> exact noDigit_cons rfl _

/-- `<stem>.` -/
def stemDot (stem : Bytes) : Bytes := stem ++ [chr '.']

theorem archiveNameMatch_isSome (fname pre ext : Bytes) :
    (archiveNameMatch fname pre ext).isSome ↔
      ∃ (st : Stamp) (p : Bytes), fname = pre ++ (st.text ++ p) ∧ st.Fits ∧ st.InRange ∧ p ∈ tails ext := by
  constructor
  · intro h
    unfold archiveNameMatch hasPrefix at h
    split at h
    · rename_i hpre
      rw [List.isPrefixOf_iff_prefix] at hpre
      obtain ⟨rest, rfl⟩ := hpre
      rw [List.drop_left] at h
      split at h
      · cases h
      · rename_i st p hscan
        obtain ⟨rfl, hfits⟩ := scanStamp_some hscan
        split at h
        · cases h
        · rename_i hrange
          refine ⟨st, p, rfl, hfits, ?_, (archiveTail_isSome ext p).mp h⟩
          unfold Stamp.InRange
          omega
    · cases h
  · rintro ⟨st, p, rfl, hfits, hrange, hp⟩
    unfold archiveNameMatch hasPrefix
    rw [if_pos (List.isPrefixOf_iff_prefix.mpr (List.prefix_append _ _)), List.drop_left,
      scanStamp_append hfits (tails_noDigit hp)]
    obtain ⟨hidx, hm₁, hm₂, hd₁, hd₂⟩ := hrange
    simp only
    rw [if_neg (by omega)]
    exact (archiveTail_isSome ext p).mpr hp

/-- The documented form of a backup's name. -/
def StrictName (stem ext fname : Bytes) : Prop :=
  ∃ y m d i p : Bytes, fname = stemDot stem ++ (y ++ chr '-' :: (m ++ chr '-' :: (d ++ chr '.' :: i)) ++ p) ∧
    (y.length = 4 ∧ ∀ c ∈ y, isDigit c) ∧ (m.length = 2 ∧ ∀ c ∈ m, isDigit c) ∧
    (d.length = 2 ∧ ∀ c ∈ d, isDigit c) ∧ (i ≠ [] ∧ ∀ c ∈ i, isDigit c) ∧ p ∈ strictTails ext

/-- The names the conversions let through besides: blanks or a sign in front
of a number, a number with fewer digits, or an extension cut by its buffer. -/
def SloppyName (stem ext fname : Bytes) : Prop :=
  ∃ (st : Stamp) (p : Bytes), fname = stemDot stem ++ (st.text ++ p) ∧ st.Fits ∧ st.InRange ∧ p ∈ tails ext ∧
    ¬(st.Exact ∧ p ∈ strictTails ext)

theorem strictName_iff {stem ext fname : Bytes} :
    StrictName stem ext fname ↔
      ∃ (st : Stamp) (p : Bytes), fname = stemDot stem ++ (st.text ++ p) ∧ st.Exact ∧ p ∈ strictTails ext := by
  constructor
  · rintro ⟨y, m, d, i, p, rfl, ⟨hy, hyd⟩, ⟨hm, hmd⟩, ⟨hd, hdd⟩, ⟨hi, hid⟩, hp⟩
    have hne : ∀ {s : Bytes} {k : Nat}, s.length = k + 1 → s ≠ [] := by
      rintro s k hs rfl
      cases hs
    obtain ⟨py, wy⟩ := Numeral.ofDigits_plain hyd (hne hy)
    obtain ⟨pm, wm⟩ := Numeral.ofDigits_plain hmd (hne hm)
    obtain ⟨pd, wd⟩ := Numeral.ofDigits_plain hdd (hne hd)
    obtain ⟨pi, _⟩ := Numeral.ofDigits_plain hid hi
    refine ⟨⟨.ofDigits y hyd (hne hy), .ofDigits m hmd (hne hm), .ofDigits d hdd (hne hd), .ofDigits i hid hi⟩, p, rfl,
      ⟨⟨py, wy.trans hy⟩, ⟨pm, wm.trans hm⟩, ⟨pd, wd.trans hd⟩, pi⟩, hp⟩
  · rintro ⟨st, p, rfl, ⟨⟨py, wy⟩, ⟨pm, wm⟩, ⟨pd, wd⟩, pi⟩, hp⟩
    obtain ⟨ty, ly⟩ := Numeral.plain_text py
    obtain ⟨tm, lm⟩ := Numeral.plain_text pm
    obtain ⟨td, ld⟩ := Numeral.plain_text pd
    obtain ⟨ti, _⟩ := Numeral.plain_text pi
    refine ⟨st.year.digits, st.month.digits, st.day.digits, st.index.digits, p, ?_, ⟨ly ▸ wy, st.year.digits_digit⟩,
      ⟨lm ▸ wm, st.month.digits_digit⟩, ⟨ld ▸ wd, st.day.digits_digit⟩, ⟨st.index.digits_ne, st.index.digits_digit⟩, hp⟩
    rw [Stamp.text, ty, tm, td, ti]

/-- The recognizer is strict on a name unless that name is one of the sloppy ones. -/
theorem strict_iff_not_sloppy (stem ext fname : Bytes) :
    ((archiveNameMatch fname (stemDot stem) ext).isSome → StrictName stem ext fname) ↔ ¬SloppyName stem ext fname := by
  constructor
  · rintro h ⟨st, p, rfl, hfits, hrange, hp, hloose⟩
    have hacc := (archiveNameMatch_isSome _ (stemDot stem) ext).mpr ⟨st, p, rfl, hfits, hrange, hp⟩
    obtain ⟨st', p', heq, hexact, hp'⟩ := strictName_iff.mp (h hacc)
    obtain ⟨rfl, rfl⟩ := stamp_unique (List.append_cancel_left heq) hfits hexact.fits (tails_noDigit hp)
      (strictTails_noDigit hp')
    exact hloose ⟨hexact, hp'⟩
  · intro h hacc
    obtain ⟨st, p, rfl, hfits, hrange, hp⟩ := (archiveNameMatch_isSome _ _ _).mp hacc
    by_contra hstrict
    exact h ⟨st, p, rfl, hfits, hrange, hp, fun hex => hstrict (strictName_iff.mpr ⟨st, p, rfl, hex⟩)⟩

/-! ## The name of the active file -/

theorem lastDot_none : ∀ {name : Bytes}, lastDot name = none → chr '.' ∉ name
  | [], _ => by simp
  | c :: name, h => by
    unfold lastDot at h
    cases hrec : lastDot name with
    | some i => rw [hrec] at h; cases h
    | none =>
      rw [hrec] at h
      simp only at h
      split at h
      · cases h
      · rename_i hc
        rw [List.mem_cons, not_or]
        exact ⟨fun he => hc he.symm, lastDot_none hrec⟩

theorem lastDot_some : ∀ {name : Bytes} {i : Nat}, lastDot name = some i →
    ∃ a b, name = a ++ chr '.' :: b ∧ a.length = i ∧ chr '.' ∉ b
  | [], _, h => by cases h
  | c :: name, i, h => by
    unfold lastDot at h
    cases hrec : lastDot name with
    | some j =>
      rw [hrec] at h
      simp only [Option.some.injEq] at h
      obtain ⟨a, b, rfl, ha, hb⟩ := lastDot_some hrec
      exact ⟨c :: a, b, rfl, by rw [List.length_cons, ha, h], hb⟩
    | none =>
      rw [hrec] at h
      simp only at h
      split at h
      · rename_i hc
        cases h
        exact ⟨[], name, by rw [hc]; rfl, rfl, lastDot_none hrec⟩
      · cases h

/-- A name of the active file is its stem, or its stem, a dot and an extension without dots. -/
theorem splitName_cases {name : Bytes} (h : name.length < 256) :
    splitName name 256 64 = (name, []) ∨
      ∃ a b, name = a ++ chr '.' :: b ∧ chr '.' ∉ b ∧ splitName name 256 64 = (a, cut 64 b) := by
  unfold splitName
  cases hdot : lastDot name with
  | none => exact Or.inl (by simp only [cut_of_lt h])
  | some i =>
    obtain ⟨a, b, rfl, rfl, hb⟩ := lastDot_some hdot
    cases hlen : a.length with
    | zero => exact Or.inl (by simp only [cut_of_lt h])
    | succ i =>
      right
      rw [List.length_append, List.length_cons] at h
      refine ⟨a, b, rfl, hb, ?_⟩
      have htake : (a ++ chr '.' :: b).take (i + 1) = a := by rw [← hlen, List.take_left]
      have hdrop : (a ++ chr '.' :: b).drop (i + 2) = b := by
        rw [List.append_cons a (chr '.') b, show i + 2 = (a ++ [chr '.']).length by simp [hlen], List.drop_left]
      simp only [htake, hdrop, cut_of_lt (show a.length < 256 by omega)]

/-- The prefix of the archives of a file. -/
def archivePre (name : Bytes) : Bytes := cut 256 (stemDot (splitName name 256 64).1)

theorem dot_mem_stamp (st : Stamp) : chr '.' ∈ st.text := by
  simp [Stamp.text]

theorem scanStamp_nil : scanStamp [] = none := rfl

/-- What stands behind the prefix in the name of the active file is no stamp. -/
theorem active_no_stamp {name : Bytes} (h : name.length < 256) {st : Stamp} {p : Bytes} :
    name ≠ archivePre name ++ (st.text ++ p) := by
  intro heq
  unfold archivePre at heq
  rcases splitName_cases h with hs | ⟨a, b, hname, hb, hs⟩
  · rw [hs] at heq
    have hlen := congrArg List.length heq
    rw [List.length_append, cut_length, stemDot, List.length_append, List.length_append] at hlen
    have hpos : 0 < st.text.length := List.length_pos_of_mem (dot_mem_stamp st)
    simp only [List.length_singleton] at hlen
    omega
  · rw [hs] at heq
    have hlen : (stemDot a).length < 256 := by
      rw [hname, List.length_append, List.length_cons] at h
      rw [stemDot, List.length_append, List.length_singleton]
      omega
    have hcut := cut_of_lt hlen
    simp only [hcut] at heq
    rw [hname, stemDot, List.append_assoc] at heq
    have := (List.cons.inj (List.append_cancel_left heq)).2
    refine hb ?_
    rw [this]
    exact List.mem_append_right [] (List.mem_append_left _ (dot_mem_stamp st))

theorem active_not_archive {name : Bytes} (h : name.length < 256) (ext : Bytes) :
    archiveNameMatch name (archivePre name) ext = none := by
  rw [← Option.not_isSome_iff_eq_none, archiveNameMatch_isSome]
  rintro ⟨st, p, heq, -⟩
  exact active_no_stamp h heq

/-! ## Order keys -/

theorem archiveOrderKey_append {pre p : Bytes} {st : Stamp} (hst : st.Fits) (hp : NoDigit p)
    (h : 0 ≤ st.index.value) (fallback : Int) : archiveOrderKey (pre ++ (st.text ++ p)) pre fallback = st.key := by
  unfold archiveOrderKey
  rw [List.drop_left, scanStamp_append hst hp]
  exact if_pos h

/-- The key of an archive comes from its name alone. -/
theorem archiveOrderKey_accepted {fname pre ext : Bytes} (h : (archiveNameMatch fname pre ext).isSome) (fb fb' : Int) :
    archiveOrderKey fname pre fb = archiveOrderKey fname pre fb' := by
  obtain ⟨st, p, rfl, hfits, hrange, hp⟩ := (archiveNameMatch_isSome _ _ _).mp h
  rw [archiveOrderKey_append hfits (tails_noDigit hp) hrange.1,
    archiveOrderKey_append hfits (tails_noDigit hp) hrange.1]

theorem noDigit_gz {p : Bytes} (h : NoDigit p) : NoDigit (p ++ lit ".gz") := by
  cases p with
  | nil => exact noDigit_cons rfl _
  | cons c p => exact fun a ha => h a ha

/-- An archive has the same key plain and compressed. -/
theorem archiveOrderKey_gz {fname pre ext : Bytes} (h : (archiveNameMatch fname pre ext).isSome) (fb fb' : Int) :
    archiveOrderKey (fname ++ lit ".gz") pre fb = archiveOrderKey fname pre fb' := by
  obtain ⟨st, p, rfl, hfits, hrange, hp⟩ := (archiveNameMatch_isSome _ _ _).mp h
  have hassoc : pre ++ (st.text ++ p) ++ lit ".gz" = pre ++ (st.text ++ (p ++ lit ".gz")) := by simp
  rw [hassoc, archiveOrderKey_append hfits (noDigit_gz (tails_noDigit hp)) hrange.1,
    archiveOrderKey_append hfits (tails_noDigit hp) hrange.1]

/-- Behind a stamp in range the tail decides. -/
theorem archiveNameMatch_append {pre ext p : Bytes} {st : Stamp} (hst : st.Fits) (hrange : st.InRange) (hp : NoDigit p) :
    archiveNameMatch (pre ++ (st.text ++ p)) pre ext = archiveTail ext p := by
  unfold archiveNameMatch hasPrefix
  rw [if_pos (List.isPrefixOf_iff_prefix.mpr (List.prefix_append _ _)), List.drop_left, scanStamp_append hst hp]
  obtain ⟨hidx, hm₁, hm₂, hd₁, hd₂⟩ := hrange
  simp only
  rw [if_neg (by omega)]

/-- A plain archive's name with `.gz` is the name of a compressed one. -/
theorem archiveNameMatch_gz {fname pre ext : Bytes} (hext : ext.length < 64)
    (h : archiveNameMatch fname pre ext = some false) :
    archiveNameMatch (fname ++ lit ".gz") pre ext = some true := by
  obtain ⟨st, p, rfl, hfits, hrange, hp⟩ := (archiveNameMatch_isSome _ _ _).mp (by rw [h]; rfl)
  have hassoc : pre ++ (st.text ++ p) ++ lit ".gz" = pre ++ (st.text ++ (p ++ lit ".gz")) := by simp
  rw [archiveNameMatch_append hfits hrange (tails_noDigit hp)] at h
  rw [hassoc, archiveNameMatch_append hfits hrange (noDigit_gz (tails_noDigit hp))]
  have hdot : (chr '.' :: (ext ++ lit ".gz")).length < 70 := by
    rw [List.length_cons, List.length_append, show (lit ".gz").length = 3 from rfl]
    omega
  have hdot' : (chr '.' :: ext).length < 66 := by
    rw [List.length_cons]
    omega
  unfold archiveTail at h ⊢
  split at h
  · rename_i hnil
    rw [if_pos hnil]
    split at h
    · rename_i hp0
      rw [hp0]
      rfl
    · split at h <;> cases h
  · rename_i hnil
    rw [if_neg hnil]
    split at h
    · rename_i hp0
      rw [cut_of_lt hdot'] at hp0 ⊢
      rw [cut_of_lt hdot, hp0, if_neg ?_, if_pos (by simp)]
      intro he
      have := congrArg List.length he
      rw [List.length_append, show (lit ".gz").length = 3 from rfl] at this
      omega
    · split at h <;> cases h

/-! ## Printed names -/

/-- The stamp of an archive that rotation names. -/
def Tm.stamp (tm : Tm) (index : Int) : Stamp where
  year := .ofInt 4 (tm.year + 1900)
  month := .ofInt 2 (tm.mon + 1)
  day := .ofInt 2 tm.mday
  index := .ofInt 0 index

theorem Tm.stamp_text (tm : Tm) (index : Int) : (tm.stamp index).text = dateText tm ++ chr '.' :: padInt 0 index := by
  unfold Stamp.text Tm.stamp dateText
  simp only [Numeral.ofInt_text]
  simp

theorem text_length_le {v k : Nat} (hk : 0 < k) (h : v < 10 ^ k) : (Decimal.text v).length ≤ k := by
  unfold Decimal.text
  split
  · exact hk
  · rw [List.length_reverse, List.length_map]
    exact (Nat.digits_length_le_iff (by decide) v).mpr h

theorem padInt_length (width : Nat) {k : Nat} {v : Int} (h : 0 ≤ v) (hk : 0 < k) (hv : v < 10 ^ k) (hw : width ≤ k) :
    (padInt width v).length ≤ k ∧ width ≤ (padInt width v).length := by
  have := text_length_le hk (v := v.natAbs) (by zify; rwa [abs_of_nonneg h])
  unfold padInt Decimal.padded Decimal.padTo
  rw [if_neg (by omega), List.length_append, List.length_replicate]
  omega

/-- Month and day are printed with two digits. -/
theorem Tm.two_digits (tm : Tm) : (padInt 2 (tm.mon + 1)).length = 2 ∧ (padInt 2 tm.mday).length = 2 := by
  obtain ⟨hm₀, hm₁⟩ := tm.mon_range
  obtain ⟨hd₀, hd₁⟩ := tm.mday_range
  have hm := padInt_length 2 (v := tm.mon + 1) (k := 2) (by omega) (by decide) (by omega) (le_refl _)
  have hd := padInt_length 2 (v := tm.mday) (k := 2) (by omega) (by decide) (by omega) (le_refl _)
  omega

theorem dateText_length (tm : Tm) : (dateText tm).length = (padInt 4 (tm.year + 1900)).length + 6 := by
  have := tm.two_digits
  unfold dateText
  simp only [List.length_append, List.length_cons]
  omega

/-- The year takes four characters. -/
def Tm.FourDigits (tm : Tm) : Prop := -999 ≤ tm.year + 1900 ∧ tm.year + 1900 ≤ 9999

theorem Tm.FourDigits.length {tm : Tm} (h : tm.FourDigits) : (padInt 4 (tm.year + 1900)).length = 4 := by
  obtain ⟨h₀, h₁⟩ := h
  by_cases hneg : tm.year + 1900 < 0
  · have := text_length_le (k := 3) (v := (tm.year + 1900).natAbs) (by decide) (by omega)
    unfold padInt Decimal.padded Decimal.padTo
    rw [if_pos hneg, List.length_cons, List.length_append, List.length_replicate]
    omega
  · have := padInt_length 4 (v := tm.year + 1900) (k := 4) (by omega) (by decide) (by omega) (le_refl _)
    omega

theorem Tm.FourDigits.fits {tm : Tm} (h : tm.FourDigits) (index : Int) : (tm.stamp index).Fits := by
  unfold Stamp.Fits Tm.stamp
  simp only [Numeral.ofInt_width]
  rw [h.length, tm.two_digits.1, tm.two_digits.2]
  exact ⟨le_refl _, le_refl _, le_refl _⟩

/-- The date as a number. -/
def Tm.dateNum (tm : Tm) : Int := (tm.year + 1900) * 10000 + (tm.mon + 1) * 100 + tm.mday

theorem Tm.stamp_key {tm : Tm} {index : Int} (h₀ : 0 ≤ index) (h : index < 2 ^ 31) :
    (tm.stamp index).index.value = index ∧ (tm.stamp index).key = tm.dateNum * 100000000 + index := by
  have hy := tm.year_range
  have hm := tm.mon_range
  have hd := tm.mday_range
  unfold Stamp.key Tm.stamp Tm.dateNum
  simp only
  rw [Numeral.ofInt_value (by omega) (by omega), Numeral.ofInt_value (by omega) (by omega),
    Numeral.ofInt_value (by omega) (by omega), Numeral.ofInt_value (by omega) (by omega)]
  exact ⟨rfl, rfl⟩

/-! ## The index of a printed name -/

/-- The prefix of the scan. -/
theorem needle_whole {stem : Bytes} {tm : Tm} (hstem : stem.length < 256) (h : (dateText tm).length < 16) :
    cut 300 (stem ++ chr '.' :: (cut 16 (dateText tm) ++ [chr '.'])) = stem ++ chr '.' :: (dateText tm ++ [chr '.']) := by
  rw [cut_of_lt h, cut_of_lt]
  simp only [List.length_append, List.length_cons, List.length_nil]
  omega

/-- A name with the date and an index in it counts with this index. -/
theorem indexCb_counts {stem rest : Bytes} {tm : Tm} {index : Int} (hstem : stem.length < 256)
    (h : (dateText tm).length < 16) (h₀ : 0 ≤ index) (hlt : index < 2 ^ 31) (hrest : NoDigit rest) (m : Int) :
    index ≤ indexCb stem (cut 16 (dateText tm)) m (stem ++ chr '.' :: (dateText tm ++ chr '.' :: padInt 0 index) ++ rest) := by
  have hname : stem ++ chr '.' :: (dateText tm ++ chr '.' :: padInt 0 index) ++ rest =
      (stem ++ chr '.' :: (dateText tm ++ [chr '.'])) ++ (padInt 0 index ++ rest) := by simp
  have hpre : hasPrefix (stem ++ chr '.' :: (dateText tm ++ chr '.' :: padInt 0 index) ++ rest)
      (stem ++ chr '.' :: (dateText tm ++ [chr '.'])) = true := by
    unfold hasPrefix
    rw [List.isPrefixOf_iff_prefix, hname]
    exact List.prefix_append _ _
  have hatoi : atoi (padInt 0 index ++ rest) = index := by
    rw [← Numeral.ofInt_text, atoi_append _ hrest, Numeral.ofInt_value (by omega) hlt]
  unfold indexCb
  simp only
  rw [needle_whole hstem h, if_pos hpre, hname, List.drop_left, hatoi]
  exact le_max_right _ _

end HxClog
