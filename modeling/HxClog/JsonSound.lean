import HxClog.Dispatch
import HxClog.Lib.Json

/-!
# A JSON line decodes to its record

The text of the JSON formatter is an object whose strings are spelled so that a
reader undoes them. So the line gives back every field that was put in.
-/

namespace HxClog

open C Decimal Scan Json

/-! ## Escaping -/

theorem readString_plain {c : UInt8} (hq : c ≠ quote) (hb : c ≠ backslash) (h : ¬c < 32) (s : Bytes) :
    readString (c :: s) = (readString s).map fun (t, s) => (c :: t, s) := by
  conv => lhs; unfold readString
  rw [if_neg hq, if_neg hb, if_neg h]
  cases readString s <;> rfl

theorem readString_escape {e b : UInt8} (hu : e ≠ chr 'u') (h : unescape e = some b) (s : Bytes) :
    readString (backslash :: e :: s) = (readString s).map fun (t, s) => (b :: t, s) := by
  conv => lhs; unfold readString
  rw [if_neg (by decide), if_pos rfl]
  simp only [if_neg hu, h]
  cases readString s <;> rfl

theorem readString_hex {h₃ h₄ : UInt8} {n₃ n₄ : Nat} (h : hexValue h₃ = some n₃) (h' : hexValue h₄ = some n₄)
    (s : Bytes) : readString (lit "\\u00" ++ [h₃] ++ [h₄] ++ s) =
      (readString s).map fun (t, s) => (utf8 (n₃ * 16 + n₄) ++ t, s) := by
  rw [show lit "\\u00" ++ [h₃] ++ [h₄] ++ s =
    backslash :: chr 'u' :: chr '0' :: chr '0' :: h₃ :: h₄ :: s from rfl]
  conv => lhs; unfold readString
  rw [if_neg (by decide), if_pos rfl]
  simp only [if_pos, show hexValue (chr '0') = some 0 from rfl, h, h', Option.bind_eq_bind, Option.bind_some,
    Nat.zero_mul, Nat.zero_add]
  cases readString s <;> rfl

/-- Both hex digits of a control character, read back. -/
theorem hexDigit_value : ∀ n < 32,
    hexValue (hexDigit (UInt8.ofNat n >>> 4 &&& 15).toNat) = some (n / 16) ∧
      hexValue (hexDigit (UInt8.ofNat n &&& 15).toNat) = some (n % 16) ∧
        utf8 (n / 16 * 16 + n % 16) = [UInt8.ofNat n] := by
  decide

theorem byte_of_char {c : UInt8} {d : Char} (h : Char.ofNat c.toNat = d) : c = chr d := by
  subst h
  unfold chr
  rw [Char.toNat_ofNat, if_pos (Or.inl (by have := c.toNat_lt; omega))]
  simp

/-- The reader undoes the escaping of every byte. -/
theorem jsonCharText_undone (c : UInt8) : Undone jsonCharText c := by
  intro s
  unfold jsonCharText
  split
  · rename_i h
    rw [byte_of_char h]
    exact readString_escape (by decide) rfl s
  · rename_i h
    rw [byte_of_char h]
    exact readString_escape (by decide) rfl s
  · rename_i h
    rw [byte_of_char h]
    exact readString_escape (by decide) rfl s
  · rename_i h
    rw [byte_of_char h]
    exact readString_escape (by decide) rfl s
  · rename_i h
    rw [byte_of_char h]
    exact readString_escape (by decide) rfl s
  · rename_i h
    rw [byte_of_char h]
    exact readString_escape (by decide) rfl s
  · rename_i h
    rw [byte_of_char h]
    exact readString_escape (by decide) rfl s
  · rename_i hquote hback _ _ _ _ _
    by_cases hc : c < 32
    · have hn : c.toNat < 32 := hc
      obtain ⟨h₃, h₄, hbyte⟩ := hexDigit_value c.toNat hn
      rw [UInt8.ofNat_toNat] at h₃ h₄ hbyte
      rw [if_pos hc, readString_hex h₃ h₄, hbyte]
      rfl
    · rw [if_neg hc]
      exact readString_plain (fun h => hquote (by rw [h]; rfl)) (fun h => hback (by rw [h]; rfl)) hc s

theorem printable_of_all {s : Bytes} (h : s.all (32 ≤ ·) = true) : ∀ b ∈ s, 32 ≤ b :=
  fun b hb => of_decide_eq_true (List.all_eq_true.mp h b hb)

theorem jsonCharText_printable (c : UInt8) : ∀ b ∈ jsonCharText c, 32 ≤ b := by
  have hhex : ∀ n < 32, (lit "\\u00" ++ [hexDigit (UInt8.ofNat n >>> 4 &&& 15).toNat] ++
      [hexDigit (UInt8.ofNat n &&& 15).toNat]).all (32 ≤ ·) = true := by decide
  unfold jsonCharText
  split
  · exact printable_of_all rfl
  · exact printable_of_all rfl
  · exact printable_of_all rfl
  · exact printable_of_all rfl
  · exact printable_of_all rfl
  · exact printable_of_all rfl
  · exact printable_of_all rfl
  · split
    · rename_i hc
      have := hhex c.toNat hc
      rw [UInt8.ofNat_toNat] at this
      exact printable_of_all this
    · rename_i hc
      intro b hb
      rw [List.mem_singleton.mp hb]
      exact UInt8.not_lt.mp hc

theorem jsonCharText_ne_nil (c : UInt8) : jsonCharText c ≠ [] := by
  unfold jsonCharText
  split
  iterate 7 exact List.cons_ne_nil _ _
  split <;> exact List.cons_ne_nil _ _

theorem jsonCharText_digit {c : UInt8} (h : isDigit c) : jsonCharText c = [c] := by
  have hdigit : ∀ d < 10, jsonCharText (digit d) = [digit d] := by decide
  unfold isDigit at h
  rw [decide_eq_true_eq] at h
  have hlow : 48 ≤ c.toNat := h.1
  have hhigh : c.toNat ≤ 57 := h.2
  have hc : digit (c.toNat - 48) = c := by
    unfold digit
    rw [show 48 + (c.toNat - 48) = c.toNat by omega, UInt8.ofNat_toNat]
  rw [← hc]
  exact hdigit _ (by omega)

/-- Digits are copied. -/
theorem jsonCharText_digits {s : Bytes} (h : ∀ c ∈ s, isDigit c) : s.flatMap jsonCharText = s := by
  induction s with
  | nil => rfl
  | cons c s ih =>
    rw [List.flatMap_cons, jsonCharText_digit (h c (List.mem_cons_self ..)), ih fun d hd => h d (List.mem_cons_of_mem _ hd)]
    rfl

/-! ## The object of a record -/

/-- `YYYY-MM-DDTHH:MM:SS.mmm`. -/
def isoText (rec : Record) (tm : Tm) : Bytes :=
  padded 4 (tm.year + 1900).toNat ++ [chr '-'] ++ padded 2 (tm.mon + 1).toNat ++ [chr '-'] ++ padded 2 tm.mday.toNat ++
    [chr 'T'] ++ padded 2 tm.hour.toNat ++ [chr ':'] ++ padded 2 tm.min.toNat ++ [chr ':'] ++ padded 2 tm.sec.toNat ++
    [chr '.'] ++ padded 3 rec.timestampMsec.toNat

/-- The members of a JSON line, in their order. -/
def jsonFields (rec : Record) (tm : Tm) : Json.Object :=
  [(lit "ts", .str (isoText rec tm)),
    (lit "epoch_ms", .num (rec.timestampSec.toNat * 1000 + rec.timestampMsec.toNat)),
    (lit "level", .str (hxClogLevelName rec.level)),
    (lit "logger", .str (orEmpty rec.loggerName)),
    (lit "pid", .num rec.pid.toNat),
    (lit "tid", .num rec.tid.toNat),
    (lit "file", .str (orEmpty rec.file)),
    (lit "line", .num rec.line.toNat),
    (lit "func", .str (orEmpty rec.func)),
    (lit "message", .str rec.body),
    (lit "context", .str (orEmpty rec.context))]

theorem isoText_escaped (rec : Record) (tm : Tm) : (isoText rec tm).flatMap jsonCharText = isoText rec tm := by
  have hpad : ∀ w v, (padded w v).flatMap jsonCharText = padded w v := fun w v => jsonCharText_digits (padded_digit w v)
  have hsep : [chr '-'].flatMap jsonCharText = [chr '-'] ∧ [chr 'T'].flatMap jsonCharText = [chr 'T'] ∧
      [chr ':'].flatMap jsonCharText = [chr ':'] ∧ [chr '.'].flatMap jsonCharText = [chr '.'] := by decide
  obtain ⟨hdash, ht, hcolon, hdot⟩ := hsep
  unfold isoText
  simp only [List.flatMap_append, hpad, hdash, ht, hcolon, hdot]

/-- The texts in front of the values are the keys, quoted. -/
theorem jsonText_object (rec : Record) (tm : Tm) (hyear : 0 ≤ tm.year + 1900) (hms : epochMs rec =
      rec.timestampSec.toNat * 1000 + rec.timestampMsec.toNat) (hline : toUlong rec.line = rec.line.toNat)
    (hshort : ∀ s ∈ [orEmpty rec.loggerName, orEmpty rec.file, orEmpty rec.func, orEmpty rec.context], s.length < 2 ^ 32) :
    jsonText rec tm = objectText jsonCharText (jsonFields rec tm) ++ [chr '\n'] := by
  have hcstr : ∀ s ∈ [orEmpty rec.loggerName, orEmpty rec.file, orEmpty rec.func, orEmpty rec.context],
      cstrText s = s.flatMap jsonCharText := by
    intro s hs
    unfold cstrText
    rw [u32_of_lt (hshort s hs), List.take_length]
  simp only [List.forall_mem_cons, List.not_mem_nil, false_implies, implies_true, and_true] at hcstr
  obtain ⟨hlogger, hfile, hfunc, hcontext⟩ := hcstr
  have hlevel : cstrText (hxClogLevelName rec.level) = (hxClogLevelName rec.level).flatMap jsonCharText := by
    unfold cstrText
    rw [u32_of_lt, List.take_length]
    unfold hxClogLevelName
    split <;> decide
  have hkeys : ∀ k ∈ ["ts", "epoch_ms", "level", "logger", "pid", "tid", "file", "line", "func", "message", "context"],
      (lit k).flatMap jsonCharText = lit k := by decide
  simp only [List.forall_mem_cons, List.not_mem_nil, false_implies, implies_true, and_true] at hkeys
  unfold jsonText objectText jsonFields
  rw [hms, hline, hlogger, hfile, hfunc, hcontext, hlevel]
  simp only [membersText, memberText, stringText, valueText, isoText_escaped, hkeys]
  unfold isoText yearText
  rw [if_pos hyear]
  simp [lit, quote]

/-- The line of a record, for a buffer that is large enough, is one object and a
line break, and a reader finds every field of the record in it. -/
theorem json_decodes (localtime : Int → Tm) (rec : Record) {out : Bytes} {outSize : Nat} (hm : Fits out outSize)
    (hyear : 0 ≤ (localtime rec.timestampSec).year + 1900) (hsec : 0 ≤ rec.timestampSec)
    (hms : rec.timestampSec * 1000 + rec.timestampMsec.toNat < 2 ^ 64) (hline : 0 ≤ rec.line ∧ rec.line < 2 ^ 31)
    (hroom : (objectText jsonCharText (jsonFields rec (localtime rec.timestampSec))).length + 1 < outSize) :
    ∃ object : Bytes,
      (hxFormatJsonRecord localtime rec out outSize).2.take (hxFormatJsonRecord localtime rec out outSize).1 =
        object ++ [chr '\n'] ∧
      (∀ c ∈ object, 32 ≤ c) ∧
      readObject object = some (jsonFields rec (localtime rec.timestampSec), []) := by
  have hsmall := hm.small
  have hepoch : epochMs rec = rec.timestampSec.toNat * 1000 + rec.timestampMsec.toNat := by
    unfold epochMs
    rw [toUlong_of_nonneg hsec (by omega), Nat.mod_eq_of_lt (by omega)]
  have hshort : ∀ s ∈ [orEmpty rec.loggerName, orEmpty rec.file, orEmpty rec.func, orEmpty rec.context],
      s.length < 2 ^ 32 := by
    have hfield : ∀ k s, (k, Value.str s) ∈ jsonFields rec (localtime rec.timestampSec) → s.length < 2 ^ 32 :=
      fun k s h => by
        have := string_length jsonCharText_ne_nil h
        omega
    intro s hs
    simp only [List.mem_cons, List.not_mem_nil, or_false] at hs
    rcases hs with rfl | rfl | rfl | rfl
    · exact hfield (lit "logger") _ (by simp [jsonFields])
    · exact hfield (lit "file") _ (by simp [jsonFields])
    · exact hfield (lit "func") _ (by simp [jsonFields])
    · exact hfield (lit "context") _ (by simp [jsonFields])
  have htext := jsonText_object rec (localtime rec.timestampSec) hyear hepoch (toUlong_of_nonneg hline.1 (by omega)) hshort
  refine ⟨objectText jsonCharText (jsonFields rec (localtime rec.timestampSec)), ?_,
    objectText_printable jsonCharText_printable _, ?_⟩
  · rw [hxFormatJsonRecord_spec localtime rec hm, htext]
    generalize objectText jsonCharText (jsonFields rec (localtime rec.timestampSec)) = object at hroom
    have hlen : (object ++ [chr '\n']).length = object.length + 1 := List.length_append
    have hall : (object ++ [chr '\n']).take (object.length + 1) = object ++ [chr '\n'] :=
      List.take_of_length_le (by omega)
    unfold formatted
    simp only [hlen]
    rw [Nat.min_eq_left (by unfold uintMax; omega), Nat.min_eq_left (by omega), hall, ← hlen, List.take_left]
  · have := readObject_text jsonCharText_undone (jsonFields rec (localtime rec.timestampSec)) []
    rwa [List.append_nil] at this

set_option maxRecDepth 8000 in
theorem json_decodes_short : ∃ object : Bytes,
    (hxFormatJsonRecord (fun _ => midnight) shortRecord (List.replicate 512 9) 512).2.take
        (hxFormatJsonRecord (fun _ => midnight) shortRecord (List.replicate 512 9) 512).1 = object ++ [chr '\n'] ∧
      (∀ c ∈ object, 32 ≤ c) ∧ readObject object = some (jsonFields shortRecord midnight, []) :=
  json_decodes (fun _ => midnight) shortRecord ⟨by decide, by simp, by decide⟩ (by decide) (by decide) (by decide)
    (by decide) (by decide)

end HxClog
