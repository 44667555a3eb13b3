import HxClog.Overwrite

/-!
# Archive names decode

What rotation prints into the name of an archive is what cleanup reads out of it: the
recognizer accepts the name, plain and with `.gz` behind it, the order key is the date and
the index, and the scan for the next index counts it.
-/

namespace HxClog

open C Scan

/-- The name of an archive of the file `name`, before it is cut to the buffer. -/
def archiveText (name : Bytes) (tm : Tm) (index : Int) : Bytes :=
  stemDot (splitName name 256 64).1 ++ ((tm.stamp index).text ++ dotExt (splitName name 256 64).2)

/-- The name as `make_archive_name` writes it. -/
def archiveName (cap : Nat) (name : Bytes) (tm : Tm) (index : Int) : Bytes :=
  makeArchiveName cap (splitName name 256 64).1 (splitName name 256 64).2 tm index

/-- Year, month and day, in the order of the calendar. -/
def Tm.ymd (tm : Tm) : Int ×ₗ Int ×ₗ Int := toLex (tm.year, toLex (tm.mon, tm.mday))

theorem Tm.dateNum_lt_iff (a b : Tm) : a.dateNum < b.dateNum ↔ a.ymd < b.ymd := by
  have ham := a.mon_range
  have had := a.mday_range
  have hbm := b.mon_range
  have hbd := b.mday_range
  unfold Tm.dateNum Tm.ymd
  rw [Prod.Lex.toLex_lt_toLex, Prod.Lex.toLex_lt_toLex]
  simp only
  omega

theorem Tm.dateNum_eq_iff (a b : Tm) : a.dateNum = b.dateNum ↔ a.ymd = b.ymd := by
  have hlt := Tm.dateNum_lt_iff a b
  have hgt := Tm.dateNum_lt_iff b a
  rcases lt_trichotomy a.ymd b.ymd with h | h | h
  · exact iff_of_false (hlt.mpr h).ne h.ne
  · refine iff_of_true ?_ h
    rw [h] at hlt hgt
    exact le_antisymm (not_lt.mp fun hl => lt_irrefl _ (hgt.mp hl)) (not_lt.mp fun hl => lt_irrefl _ (hlt.mp hl))
  · exact iff_of_false (hgt.mpr h).ne' h.ne'

section
variable {name name' : Bytes} {cap : Nat} {tm tm' : Tm} {i j : Int}

theorem splitName_lengths (name : Bytes) : (splitName name 256 64).1.length < 256 ∧ (splitName name 256 64).2.length < 64 := by
  unfold splitName
  split
  · exact ⟨by rw [cut_length]; omega, Nat.zero_lt_succ 63⟩
  · exact ⟨by rw [cut_length]; omega, Nat.zero_lt_succ 63⟩
  · exact ⟨by rw [cut_length]; omega, by rw [cut_length]; omega⟩

theorem archiveName_whole (h : (archiveText name tm i).length < cap) : archiveName cap name tm i = archiveText name tm i := by
  have htext : archiveText name tm i = (splitName name 256 64).1 ++ chr '.' :: (dateText tm ++ chr '.' ::
      (padInt 0 i ++ dotExt (splitName name 256 64).2)) := by
    unfold archiveText stemDot
    rw [Tm.stamp_text]
    simp
  unfold archiveName makeArchiveName
  rw [← htext, cut_of_lt h]

theorem dotExt_noDigit (ext : Bytes) : NoDigit (dotExt ext) := strictTails_noDigit List.mem_cons_self

theorem archiveTail_dotExt {ext : Bytes} (h : ext.length < 64) : archiveTail ext (dotExt ext) = some false := by
  unfold archiveTail dotExt
  by_cases hnil : ext = []
  · rw [if_pos hnil, if_pos hnil, if_pos rfl]
  · have hlen : (chr '.' :: ext).length < 66 := by
      rw [List.length_cons]
      omega
    rw [if_neg hnil, if_neg hnil, cut_of_lt hlen, if_pos rfl]

theorem stamp_inRange (h₀ : 0 ≤ i) (h : i < 2 ^ 31) : (tm.stamp i).InRange := by
  have hm := tm.mon_range
  have hd := tm.mday_range
  unfold Stamp.InRange Tm.stamp
  simp only
  rw [Numeral.ofInt_value (by omega) (by omega), Numeral.ofInt_value (by omega) (by omega),
    Numeral.ofInt_value (by omega) (by omega)]
  omega

theorem archiveText_matches (name : Bytes) (htm : tm.FourDigits) (h₀ : 0 ≤ i) (h : i < 2 ^ 31) :
    archiveNameMatch (archiveText name tm i) (stemDot (splitName name 256 64).1) (splitName name 256 64).2 = some false := by
  unfold archiveText
  rw [archiveNameMatch_append (htm.fits i) (stamp_inRange h₀ h) (dotExt_noDigit _)]
  exact archiveTail_dotExt (splitName_lengths name).2

theorem archiveText_key (name : Bytes) (htm : tm.FourDigits) (h₀ : 0 ≤ i) (h : i < 2 ^ 31) (fallback : Int) :
    archiveOrderKey (archiveText name tm i) (stemDot (splitName name 256 64).1) fallback =
      tm.dateNum * 100000000 + i := by
  obtain ⟨hidx, hkey⟩ : (tm.stamp i).index.value = i ∧ _ := Tm.stamp_key h₀ h
  unfold archiveText
  rw [archiveOrderKey_append (htm.fits i) (dotExt_noDigit _) (by rw [hidx]; exact h₀), hkey]

theorem archiveText_counts (name tail : Bytes) (htm : tm.FourDigits) (h₀ : 0 ≤ i) (h : i < 2 ^ 31)
    (htail : NoDigit (dotExt (splitName name 256 64).2 ++ tail)) (m : Int) :
    i ≤ indexCb (splitName name 256 64).1 (cut 16 (dateText tm)) m (archiveText name tm i ++ tail) := by
  have hdate : (dateText tm).length < 16 := by
    rw [dateText_length, htm.length]
    decide
  have hname : archiveText name tm i ++ tail = (splitName name 256 64).1 ++ chr '.' :: (dateText tm ++ chr '.' ::
      padInt 0 i) ++ (dotExt (splitName name 256 64).2 ++ tail) := by
    unfold archiveText stemDot
    rw [Tm.stamp_text]
    simp
  rw [hname]
  exact indexCb_counts (splitName_lengths name).1 hdate h₀ h htail m

/-- The four readers and writers agree on the names of archives. -/
theorem archive_names_decode (name name' : Bytes) (cap : Nat) (hstem : (stemDot (splitName name 256 64).1).length < 256)
    (hsame : (splitName name' 256 64).1 = (splitName name 256 64).1) (htm : tm.FourDigits) (htm' : tm'.FourDigits)
    (hi : 0 ≤ i ∧ i < 10 ^ 8) (hj : 0 ≤ j ∧ j < 10 ^ 8) (hfit : (archiveText name tm i).length < cap)
    (hfit' : (archiveText name' tm' j).length < cap) :
    archiveNameMatch (archiveName cap name tm i) (archivePre name) (splitName name 256 64).2 = some false ∧
    archiveNameMatch (archiveName cap name tm i ++ lit ".gz") (archivePre name) (splitName name 256 64).2 = some true ∧
    (∀ fb fb', archiveOrderKey (archiveName cap name tm i ++ lit ".gz") (archivePre name) fb =
      archiveOrderKey (archiveName cap name tm i) (archivePre name) fb') ∧
    (∀ fb fb', archiveOrderKey (archiveName cap name tm i) (archivePre name) fb <
      archiveOrderKey (archiveName cap name' tm' j) (archivePre name) fb' ↔ toLex (tm.ymd, i) < toLex (tm'.ymd, j)) ∧
    (∀ m, i ≤ indexCb (splitName name 256 64).1 (cut 16 (dateText tm)) m (archiveName cap name tm i)) ∧
    ∀ m, i ≤ indexCb (splitName name 256 64).1 (cut 16 (dateText tm)) m (archiveName cap name tm i ++ lit ".gz") := by
  have hpre : archivePre name = stemDot (splitName name 256 64).1 := cut_of_lt hstem
  have hint : i < 2 ^ 31 ∧ j < 2 ^ 31 := by omega
  have hplain := archiveText_matches name htm hi.1 hint.1
  have hkey' := archiveText_key name' htm' hj.1 hint.2
  rw [hsame] at hkey'
  rw [archiveName_whole hfit, archiveName_whole hfit', hpre]
  refine ⟨hplain, archiveNameMatch_gz (splitName_lengths name).2 hplain, fun fb fb' => ?_, fun fb fb' => ?_,
    fun m => ?_, fun m => archiveText_counts name _ htm hi.1 hint.1 (noDigit_gz (dotExt_noDigit _)) m⟩
  · exact archiveOrderKey_gz (by rw [hplain]; rfl) fb fb'
  · rw [archiveText_key name htm hi.1 hint.1, hkey', Prod.Lex.toLex_lt_toLex]
    simp only
    rw [← Tm.dateNum_lt_iff, ← Tm.dateNum_eq_iff]
    omega
  · have hcount := archiveText_counts name [] htm hi.1 hint.1
      (by rw [List.append_nil]; exact dotExt_noDigit _) m
    rwa [List.append_nil] at hcount

/-- The first two archives of a day. -/
theorem archive_names_decode_app : ∃ tm : Tm, tm.FourDigits ∧
    archiveNameMatch (archiveName 1024 (lit "app.log") tm 1) (archivePre (lit "app.log")) (lit "log") = some false ∧
    (archiveOrderKey (archiveName 1024 (lit "app.log") tm 1) (archivePre (lit "app.log")) 0 <
      archiveOrderKey (archiveName 1024 (lit "app.log") tm 2) (archivePre (lit "app.log")) 0 ↔
        toLex (tm.ymd, (1 : Int)) < toLex (tm.ymd, 2)) := by
  have hdate : (january1970 0).FourDigits := ⟨by decide, by decide⟩
  have h := archive_names_decode (lit "app.log") (lit "app.log") 1024 (by decide +kernel) rfl hdate hdate
    (by decide : (0 : Int) ≤ 1 ∧ (1 : Int) < 10 ^ 8) (by decide : (0 : Int) ≤ 2 ∧ (2 : Int) < 10 ^ 8) (by decide +kernel)
    (by decide +kernel)
  exact ⟨_, hdate, h.1, h.2.2.2.1 0 0⟩

end

end HxClog
