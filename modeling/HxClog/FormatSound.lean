import HxClog.Format

/-!
# Both formatters write a prefix of one text

`rendering` and `jsonText` say what a record looks like. The appender, whatever
its capacity, holds as much of the text as fits and counts all of it.
-/

namespace HxClog

open C Decimal

/-! ## Reference texts -/

/-- A year from 0 on is a number of at least four digits. What stands for a
negative one are the low digits of its conversion to `unsigned long`. -/
def yearText (year : Int) : Bytes :=
  if 0 ≤ year then padded 4 year.toNat else padTo 4 (digitsLE 16 (toUlong year)).reverse

/-- The text of the placeholder `%z`. -/
def fieldText (rec : Record) (tm : Tm) (z : UInt8) : Bytes :=
  match Char.ofNat z.toNat with
  | 'Y' => yearText (tm.year + 1900)
  | 'm' => padded 2 (tm.mon + 1).toNat
  | 'd' => padded 2 tm.mday.toNat
  | 'H' => padded 2 tm.hour.toNat
  | 'M' => padded 2 tm.min.toNat
  | 'S' => padded 2 tm.sec.toNat
  | 'e' => padded 3 rec.timestampMsec.toNat
  | 'l' => hxLevelShortName rec.level
  | 'c' => orEmpty rec.loggerName
  | 't' => text rec.tid.toNat
  | 'p' => text rec.pid.toNat
  | 's' => basenameOf rec.file
  | 'F' => orEmpty rec.file
  | '#' => text (toUlong rec.line)
  | '!' => orEmpty rec.func
  | 'v' => rec.body
  | 'x' => orEmpty rec.context
  | 'n' => [chr '\n']
  | '%' => [chr '%']
  | _ => [chr '%', z]

/-- The text of a pattern. -/
def rendering (rec : Record) (tm : Tm) : Bytes → Bytes
  | [] => []
  | [c] => [c]
  | c :: z :: p => if c = chr '%' then fieldText rec tm z ++ rendering rec tm p else c :: rendering rec tm (z :: p)

def jsonCharText (c : UInt8) : Bytes :=
  match Char.ofNat c.toNat with
  | '\x22' => lit "\\\""
  | '\\' => lit "\\\\"
  | '\x08' => lit "\\b"
  | '\x0c' => lit "\\f"
  | '\n' => lit "\\n"
  | '\r' => lit "\\r"
  | '\t' => lit "\\t"
  | _ => if c < 32 then lit "\\u00" ++ [hexDigit (c >>> 4 &&& 15).toNat] ++ [hexDigit (c &&& 15).toNat] else [c]

/-- What is read of a string whose length is taken as an `unsigned int`. -/
def cstrText (s : Bytes) : Bytes := (s.take (u32 s.length)).flatMap jsonCharText

def jsonText (rec : Record) (tm : Tm) : Bytes :=
  [chr '\x7b'] ++ lit "\"ts\":\"" ++ yearText (tm.year + 1900) ++ [chr '-'] ++ padded 2 (tm.mon + 1).toNat ++
    [chr '-'] ++ padded 2 tm.mday.toNat ++ [chr 'T'] ++ padded 2 tm.hour.toNat ++ [chr ':'] ++
    padded 2 tm.min.toNat ++ [chr ':'] ++ padded 2 tm.sec.toNat ++ [chr '.'] ++ padded 3 rec.timestampMsec.toNat ++
    lit "\",\"epoch_ms\":" ++ text (epochMs rec) ++
    lit ",\"level\":\"" ++ cstrText (hxClogLevelName rec.level) ++
    lit "\",\"logger\":\"" ++ cstrText (orEmpty rec.loggerName) ++
    lit "\",\"pid\":" ++ text rec.pid.toNat ++ lit ",\"tid\":" ++ text rec.tid.toNat ++
    lit ",\"file\":\"" ++ cstrText (orEmpty rec.file) ++
    lit "\",\"line\":" ++ text (toUlong rec.line) ++
    lit ",\"func\":\"" ++ cstrText (orEmpty rec.func) ++
    lit "\",\"message\":\"" ++ rec.body.flatMap jsonCharText ++
    lit "\",\"context\":\"" ++ cstrText (orEmpty rec.context) ++ lit "\"\x7d\n"

/-! ## The appender -/

/-- The appender has been given the text `R`, starting from the memory `mem`. -/
structure Wrote (mem : Bytes) (cap : Nat) (R : Bytes) (a : Appender) : Prop where
  size : a.cap = cap
  pos : a.pos = min R.length (cap - 1)
  needed : a.needed = min R.length uintMax
  buf : a.buf = R.take a.pos ++ mem.drop a.pos

/-- The memory behind `out` has at least `cap` bytes, as the caller says. -/
structure Fits (mem : Bytes) (cap : Nat) : Prop where
  pos : 0 < cap
  fits : cap ≤ mem.length
  small : cap < 2 ^ 32

theorem wrote_start (mem : Bytes) (cap : Nat) : Wrote mem cap [] ⟨mem, cap, 0, 0⟩ :=
  ⟨rfl, (Nat.zero_min _).symm, (Nat.zero_min _).symm, rfl⟩

section
variable {mem R : Bytes} {cap : Nat} {a : Appender} (hm : Fits mem cap)
include hm

theorem apChar_wrote (c : UInt8) (h : Wrote mem cap R a) : Wrote mem cap (R ++ [c]) (apChar a c) := by
  obtain ⟨hcap, hpos, hneed, hbuf⟩ := h
  have hsmall := hm.small
  have hfits := hm.fits
  have hcpos := hm.pos
  have hbump : (apBump a).needed = min (R.length + 1) uintMax := by
    unfold apBump
    split <;> simp only [uintMax] at * <;> omega
  have hrest : (apBump a).buf = a.buf ∧ (apBump a).cap = a.cap ∧ (apBump a).pos = a.pos := by
    unfold apBump
    split <;> exact ⟨rfl, rfl, rfl⟩
  obtain ⟨hb, hc, hp⟩ := hrest
  unfold apChar
  simp only [hb, hc, hp]
  have hle : a.pos ≤ cap - 1 := by rw [hpos]; exact Nat.min_le_right _ _
  rw [u32_of_lt (by omega)]
  split
  · -- there is room: everything so far has been written
    rename_i hroom
    rw [hcap] at hroom
    have hlen : a.pos = R.length := by rw [hpos]; rw [hpos] at hroom; omega
    have hdrop : mem.drop R.length = mem.get ⟨R.length, by omega⟩ :: mem.drop (R.length + 1) := List.drop_eq_getElem_cons _
    refine ⟨hcap, ?_, ?_, ?_⟩
    · rw [List.length_append, List.length_singleton]; simp only; omega
    · rw [List.length_append, List.length_singleton]; exact hbump
    · simp only [hbuf, hlen, List.take_length]
      rw [List.set_append_right _ _ (Nat.le_refl _), Nat.sub_self, hdrop, List.set_cons_zero,
        List.take_of_length_le (by simp)]
      simp
  · rename_i hfull
    rw [hcap] at hfull
    have hlen : cap - 1 ≤ R.length := by rw [hpos] at hfull; omega
    refine ⟨hc.trans hcap, ?_, ?_, ?_⟩
    · rw [List.length_append, List.length_singleton, hp]; omega
    · rw [List.length_append, List.length_singleton]; exact hbump
    · rw [hb, hp, hbuf, List.take_append_of_le_length (by omega)]

theorem apStr_wrote : ∀ (s : Bytes) {R : Bytes} {a : Appender}, Wrote mem cap R a →
    Wrote mem cap (R ++ s) (apStr a s)
  | [], R, a, h => by rw [List.append_nil]; exact h
  | c :: s, R, a, h => by
    have := apStr_wrote s (apChar_wrote hm c h)
    rwa [List.append_assoc] at this

theorem apUint_wrote {v : Nat} (hv : v < 2 ^ 64) (h : Wrote mem cap R a) :
    Wrote mem cap (R ++ text v) (apUint a v) := by
  unfold apUint
  split
  · rename_i h0
    subst h0
    exact apChar_wrote hm _ h
  · rename_i h0
    rw [text_eq (by omega) h0]
    exact apStr_wrote hm _ h

theorem apUll_wrote {v : Nat} (hv : v < 2 ^ 64) (h : Wrote mem cap R a) :
    Wrote mem cap (R ++ text v) (apUll a v) := by
  unfold apUll
  split
  · rename_i h0
    subst h0
    exact apChar_wrote hm _ h
  · rename_i h0
    rw [text_eq (by omega) h0]
    exact apStr_wrote hm _ h

/-- What `ap_uint_pad` appends, the digits being `tmp`. -/
theorem apUintPad_digits (v width : Nat) (h : Wrote mem cap R a) :
    Wrote mem cap (R ++ padTo width (if v = 0 then [digit 0] else digitsLE 16 v).reverse) (apUintPad a v width) := by
  have := apStr_wrote hm (if v = 0 then [digit 0] else digitsLE 16 v).reverse
    (apStr_wrote hm (List.replicate (width - (if v = 0 then [digit 0] else digitsLE 16 v).length) (digit 0)) h)
  unfold padTo
  rw [List.length_reverse, ← List.append_assoc]
  exact this

theorem apUintPad_wrote {v : Nat} (width : Nat) (hv : v < 10 ^ 16) (h : Wrote mem cap R a) :
    Wrote mem cap (R ++ padded width v) (apUintPad a v width) := by
  have htmp : (if v = 0 then [digit 0] else digitsLE 16 v).reverse = text v := by
    split
    · rename_i h0; subst h0; rfl
    · rename_i h0; exact text_eq hv h0
  have := apUintPad_digits hm v width h
  rwa [htmp] at this

theorem apUintPad_int {n : Int} (width : Nat) (h0 : 0 ≤ n) (hn : n < 2 ^ 31) (h : Wrote mem cap R a) :
    Wrote mem cap (R ++ padded width n.toNat) (apUintPad a (toUlong n) width) := by
  rw [toUlong_of_nonneg h0 (by omega)]
  exact apUintPad_wrote hm width (by omega) h

theorem apYear_wrote (tm : Tm) (h : Wrote mem cap R a) :
    Wrote mem cap (R ++ yearText (tm.year + 1900)) (apUintPad a (toUlong (tm.year + 1900)) 4) := by
  obtain ⟨hge, hlt⟩ := tm.year_range
  unfold yearText
  split
  · rename_i h0
    exact apUintPad_int hm 4 h0 hlt h
  · rename_i hneg
    have hne : toUlong (tm.year + 1900) ≠ 0 := by
      unfold toUlong
      omega
    have := apUintPad_digits hm (toUlong (tm.year + 1900)) 4 h
    rwa [if_neg hne] at this

theorem apFinish_wrote (h : Wrote mem cap R a) :
    apFinish a = (min R.length uintMax,
      R.take (min R.length (cap - 1)) ++ 0 :: mem.drop (min R.length (cap - 1) + 1)) := by
  have hfits := hm.fits
  have hcpos := hm.pos
  unfold apFinish
  rw [h.needed, h.buf, h.pos]
  have hlt : min R.length (cap - 1) < mem.length := by omega
  have hlen : (R.take (min R.length (cap - 1))).length = min R.length (cap - 1) := by
    rw [List.length_take]
    exact Nat.min_eq_left (Nat.min_le_left _ _)
  rw [List.set_append_right _ _ (Nat.le_of_eq hlen), hlen, Nat.sub_self, List.drop_eq_getElem_cons hlt,
    List.set_cons_zero]

/-! ## The pattern engine -/

theorem formatField_wrote (rec : Record) (tm : Tm) (z : UInt8) (h : Wrote mem cap R a) :
    Wrote mem cap (R ++ fieldText rec tm z) (formatField rec tm a z) := by
  have hmon := tm.mon_range
  have hmday := tm.mday_range
  have hhour := tm.hour_range
  have hmin := tm.min_range
  have hsec := tm.sec_range
  unfold formatField fieldText
  generalize Char.ofNat z.toNat = c
  split
  · exact apYear_wrote hm tm h
  · exact apUintPad_int hm 2 (by omega) (by omega) h
  · exact apUintPad_int hm 2 (by omega) (by omega) h
  · exact apUintPad_int hm 2 (by omega) (by omega) h
  · exact apUintPad_int hm 2 (by omega) (by omega) h
  · exact apUintPad_int hm 2 (by omega) (by omega) h
  · exact apUintPad_wrote hm 3 (Nat.lt_trans rec.timestampMsec.toNat_lt (by decide)) h
  · exact apStr_wrote hm _ h
  · exact apStr_wrote hm _ h
  · exact apUint_wrote hm rec.tid.toNat_lt h
  · exact apUint_wrote hm rec.pid.toNat_lt h
  · exact apStr_wrote hm _ h
  · exact apStr_wrote hm _ h
  · exact apUint_wrote hm (toUlong_lt _) h
  · exact apStr_wrote hm _ h
  · exact apStr_wrote hm _ h
  · exact apStr_wrote hm _ h
  · exact apChar_wrote hm _ h
  · exact apChar_wrote hm _ h
  · have := apChar_wrote hm z (apChar_wrote hm (chr '%') h)
    rw [List.append_assoc] at this
    first
    | exact this
    | split <;> first | contradiction | exact this

theorem formatLoop_wrote (rec : Record) (tm : Tm) : ∀ (p : Bytes) {R : Bytes} {a : Appender}, Wrote mem cap R a →
    Wrote mem cap (R ++ rendering rec tm p) (formatLoop rec tm a p)
  | [], R, a, h => by rw [rendering, List.append_nil]; exact h
  | [c], R, a, h => by
    simp only [formatLoop, rendering]
    split
    · exact apChar_wrote hm c h
    · rename_i hc
      rw [not_not.mp hc]
      exact apChar_wrote hm _ h
  | c :: z :: p, R, a, h => by
    rw [formatLoop, rendering]
    by_cases hc : c = chr '%'
    · rw [if_pos hc, if_neg (not_not.mpr hc), ← List.append_assoc]
      exact formatLoop_wrote rec tm p (formatField_wrote hm rec tm z h)
    · rw [if_neg hc, if_pos hc]
      have := formatLoop_wrote rec tm (z :: p) (apChar_wrote hm c h)
      rwa [List.append_assoc] at this

/-! ## The JSON formatter -/

theorem apJsonChar_wrote (c : UInt8) (h : Wrote mem cap R a) :
    Wrote mem cap (R ++ jsonCharText c) (apJsonChar a c) := by
  unfold apJsonChar jsonCharText
  generalize Char.ofNat c.toNat = d
  split
  · exact apStr_wrote hm _ h
  · exact apStr_wrote hm _ h
  · exact apStr_wrote hm _ h
  · exact apStr_wrote hm _ h
  · exact apStr_wrote hm _ h
  · exact apStr_wrote hm _ h
  · exact apStr_wrote hm _ h
  · have hplain := apChar_wrote hm c h
    have hescaped := apChar_wrote hm (hexDigit (c &&& 15).toNat) (apChar_wrote hm (hexDigit (c >>> 4 &&& 15).toNat)
      (apStr_wrote hm (lit "\\u00") h))
    rw [List.append_assoc, List.append_assoc, ← List.append_assoc (lit _)] at hescaped
    by_cases hc : c < 32
    · simp only [if_pos hc]
      exact hescaped
    · simp only [if_neg hc]
      exact hplain

theorem apJsonEscaped_wrote : ∀ (s : Bytes) {R : Bytes} {a : Appender}, Wrote mem cap R a →
    Wrote mem cap (R ++ s.flatMap jsonCharText) (apJsonEscaped a s)
  | [], R, a, h => by rw [List.flatMap_nil, List.append_nil]; exact h
  | c :: s, R, a, h => by
    have := apJsonEscaped_wrote s (apJsonChar_wrote hm c h)
    rwa [List.append_assoc, ← List.flatMap_cons] at this

theorem apJsonCstr_wrote (s : Bytes) (h : Wrote mem cap R a) :
    Wrote mem cap (R ++ cstrText s) (apJsonCstr a s) := apJsonEscaped_wrote hm _ h

end

/-- What both formatters leave behind for the text `R`. -/
def formatted (R mem : Bytes) (cap : Nat) : Nat × Bytes :=
  (min R.length uintMax, R.take (min R.length (cap - 1)) ++ 0 :: mem.drop (min R.length (cap - 1) + 1))

/-- The text of a record under a pattern that may be missing. -/
def patternText (localtime : Int → Tm) (pattern : Option CStr) (rec : Record) : Bytes :=
  rendering rec (localtime rec.timestampSec) ((pattern.map CStr.bytes).getD defaultPattern)

theorem hxFormatRecord_spec (localtime : Int → Tm) (pattern : Option CStr) (rec : Record) {out : Bytes} {outSize : Nat}
    (hm : Fits out outSize) :
    hxFormatRecord localtime pattern rec out outSize = formatted (patternText localtime pattern rec) out outSize := by
  unfold hxFormatRecord formatted patternText
  rw [if_neg (Nat.ne_of_gt hm.pos)]
  exact apFinish_wrote hm (formatLoop_wrote hm rec _ _ (wrote_start out outSize))

theorem hxFormatJsonRecord_spec (localtime : Int → Tm) (rec : Record) {out : Bytes} {outSize : Nat}
    (hm : Fits out outSize) :
    hxFormatJsonRecord localtime rec out outSize =
      formatted (jsonText rec (localtime rec.timestampSec)) out outSize := by
  have hmon := (localtime rec.timestampSec).mon_range
  have hmday := (localtime rec.timestampSec).mday_range
  have hhour := (localtime rec.timestampSec).hour_range
  have hmin := (localtime rec.timestampSec).min_range
  have hsec := (localtime rec.timestampSec).sec_range
  have h1 := apYear_wrote hm (localtime rec.timestampSec)
    (apStr_wrote hm (lit "\"ts\":\"") (apChar_wrote hm (chr '\x7b') (wrote_start out outSize)))
  have h2 := apUintPad_int hm 2 (n := (localtime rec.timestampSec).mon + 1) (by omega) (by omega)
    (apChar_wrote hm (chr '-') h1)
  have h3 := apUintPad_int hm 2 (n := (localtime rec.timestampSec).mday) (by omega) (by omega)
    (apChar_wrote hm (chr '-') h2)
  have h4 := apUintPad_int hm 2 (n := (localtime rec.timestampSec).hour) (by omega) (by omega)
    (apChar_wrote hm (chr 'T') h3)
  have h5 := apUintPad_int hm 2 (n := (localtime rec.timestampSec).min) (by omega) (by omega)
    (apChar_wrote hm (chr ':') h4)
  have h6 := apUintPad_int hm 2 (n := (localtime rec.timestampSec).sec) (by omega) (by omega)
    (apChar_wrote hm (chr ':') h5)
  have h7 := apUintPad_wrote hm 3 (Nat.lt_trans rec.timestampMsec.toNat_lt (by decide)) (apChar_wrote hm (chr '.') h6)
  have h8 := apUll_wrote hm (v := epochMs rec) (Nat.mod_lt _ (by decide)) (apStr_wrote hm (lit "\",\"epoch_ms\":") h7)
  have h9 := apJsonCstr_wrote hm (hxClogLevelName rec.level) (apStr_wrote hm (lit ",\"level\":\"") h8)
  have h10 := apJsonCstr_wrote hm (orEmpty rec.loggerName) (apStr_wrote hm (lit "\",\"logger\":\"") h9)
  have h11 := apUint_wrote hm rec.pid.toNat_lt (apStr_wrote hm (lit "\",\"pid\":") h10)
  have h12 := apUint_wrote hm rec.tid.toNat_lt (apStr_wrote hm (lit ",\"tid\":") h11)
  have h13 := apJsonCstr_wrote hm (orEmpty rec.file) (apStr_wrote hm (lit ",\"file\":\"") h12)
  have h14 := apUint_wrote hm (toUlong_lt rec.line) (apStr_wrote hm (lit "\",\"line\":") h13)
  have h15 := apJsonCstr_wrote hm (orEmpty rec.func) (apStr_wrote hm (lit ",\"func\":\"") h14)
  have h16 := apJsonEscaped_wrote hm rec.body (apStr_wrote hm (lit "\",\"message\":\"") h15)
  have h17 := apJsonCstr_wrote hm (orEmpty rec.context) (apStr_wrote hm (lit "\",\"context\":\"") h16)
  have h18 := apStr_wrote hm (lit "\"\x7d\n") h17
  unfold hxFormatJsonRecord formatted
  rw [if_neg (Nat.ne_of_gt hm.pos)]
  exact apFinish_wrote hm h18

end HxClog
