import HxClog.JsonSound
import HxClog.Routing

/-!
# JSON lines

A line is complete when it is one object and one line break. The text of a record is,
whatever the record holds; the line is as long as the text fits the line cap.
-/

namespace HxClog

open C Decimal Json Scan

/-! ## The text is complete -/

/-- What the formatter writes for the time. -/
def stampText (rec : Record) (tm : Tm) : Bytes :=
  yearText (tm.year + 1900) ++ [chr '-'] ++ padded 2 (tm.mon + 1).toNat ++ [chr '-'] ++ padded 2 tm.mday.toNat ++
    [chr 'T'] ++ padded 2 tm.hour.toNat ++ [chr ':'] ++ padded 2 tm.min.toNat ++ [chr ':'] ++ padded 2 tm.sec.toNat ++
    [chr '.'] ++ padded 3 rec.timestampMsec.toNat

/-- The string that `ap_json_cstr` goes through. -/
def cstrSeen (s : Bytes) : Bytes := s.take (u32 s.length)

/-- The members as they are written, with the conversions of C. -/
def writtenFields (rec : Record) (tm : Tm) : Json.Object :=
  [(lit "ts", .str (stampText rec tm)),
    (lit "epoch_ms", .num (epochMs rec)),
    (lit "level", .str (hxClogLevelName rec.level)),
    (lit "logger", .str (cstrSeen (orEmpty rec.loggerName))),
    (lit "pid", .num rec.pid.toNat),
    (lit "tid", .num rec.tid.toNat),
    (lit "file", .str (cstrSeen (orEmpty rec.file))),
    (lit "line", .num (toUlong rec.line)),
    (lit "func", .str (cstrSeen (orEmpty rec.func))),
    (lit "message", .str rec.body),
    (lit "context", .str (cstrSeen (orEmpty rec.context)))]

theorem digitsLE_digit : ∀ (fuel v : Nat), ∀ c ∈ digitsLE fuel v, isDigit c
  | 0, _, c, h => by simp [digitsLE] at h
  | fuel + 1, v, c, h => by
    have hall : ∀ d < 10, isDigit (digit d) := by decide
    rw [digitsLE] at h
    split at h
    · simp at h
    · rcases List.mem_cons.mp h with rfl | h
      · exact hall _ (Nat.mod_lt _ (by decide))
      · exact digitsLE_digit fuel _ c h

theorem yearText_digit (year : Int) : ∀ c ∈ yearText year, isDigit c := by
  unfold yearText
  split
  · exact padded_digit 4 _
  · intro c hc
    unfold padTo at hc
    rcases List.mem_append.mp hc with hc | hc
    · rw [List.eq_of_mem_replicate hc]
      decide
    · exact digitsLE_digit 16 _ c (List.mem_reverse.mp hc)

theorem stampText_escaped (rec : Record) (tm : Tm) : (stampText rec tm).flatMap jsonCharText = stampText rec tm := by
  have hpad : ∀ w v, (padded w v).flatMap jsonCharText = padded w v := fun w v => jsonCharText_digits (padded_digit w v)
  have hyear : (yearText (tm.year + 1900)).flatMap jsonCharText = yearText (tm.year + 1900) :=
    jsonCharText_digits (yearText_digit _)
  have hsep : [chr '-'].flatMap jsonCharText = [chr '-'] ∧ [chr 'T'].flatMap jsonCharText = [chr 'T'] ∧
      [chr ':'].flatMap jsonCharText = [chr ':'] ∧ [chr '.'].flatMap jsonCharText = [chr '.'] := by decide
  obtain ⟨hdash, ht, hcolon, hdot⟩ := hsep
  unfold stampText
  simp only [List.flatMap_append, hyear, hpad, hdash, ht, hcolon, hdot]

theorem levelName_escaped (level : Level) : cstrText (hxClogLevelName level) = (hxClogLevelName level).flatMap jsonCharText := by
  unfold cstrText
  rw [u32_of_lt, List.take_length]
  unfold hxClogLevelName
  split <;> decide

theorem jsonText_written (rec : Record) (tm : Tm) :
    jsonText rec tm = objectText jsonCharText (writtenFields rec tm) ++ [chr '\n'] := by
  have hcstr : ∀ s, cstrText s = (cstrSeen s).flatMap jsonCharText := fun _ => rfl
  have hkeys : ∀ k ∈ ["ts", "epoch_ms", "level", "logger", "pid", "tid", "file", "line", "func", "message", "context"],
      (lit k).flatMap jsonCharText = lit k := by decide
  simp only [List.forall_mem_cons, List.not_mem_nil, false_implies, implies_true, and_true] at hkeys
  unfold jsonText objectText writtenFields
  rw [levelName_escaped, hcstr (orEmpty rec.loggerName), hcstr (orEmpty rec.file), hcstr (orEmpty rec.func),
    hcstr (orEmpty rec.context)]
  simp only [membersText, memberText, stringText, valueText, stampText_escaped, hkeys]
  unfold stampText
  simp [lit, quote]

/-- One object, without control characters, and one line break behind it. -/
def CompleteLine (line : Bytes) : Prop :=
  ∃ object : Bytes, line = object ++ [chr '\n'] ∧ (∀ c ∈ object, 32 ≤ c) ∧
    ∃ fields, readObject object = some (fields, [])

theorem jsonText_complete (rec : Record) (tm : Tm) : CompleteLine (jsonText rec tm) := by
  refine ⟨objectText jsonCharText (writtenFields rec tm), jsonText_written rec tm,
    objectText_printable jsonCharText_printable _, writtenFields rec tm, ?_⟩
  have := readObject_text jsonCharText_undone (writtenFields rec tm) []
  rwa [List.append_nil] at this

theorem CompleteLine.newline {line : Bytes} (h : CompleteLine line) : chr '\n' ∈ line := by
  obtain ⟨object, rfl, -, -⟩ := h
  simp

/-- Nothing below the blank but the line break is in a complete line. -/
theorem CompleteLine.printable {line : Bytes} (h : CompleteLine line) {c : UInt8} (hc : c ∈ line) : 32 ≤ c ∨ c = chr '\n' := by
  obtain ⟨object, rfl, hp, -⟩ := h
  rcases List.mem_append.mp hc with hc | hc
  · exact .inl (hp c hc)
  · exact .inr (List.mem_singleton.mp hc)

/-- A cut line has lost the line break. -/
theorem CompleteLine.cut {line : Bytes} (h : CompleteLine line) {n : Nat} (hn : n < line.length) : chr '\n' ∉ line.take n := by
  obtain ⟨object, rfl, hp, -⟩ := h
  rw [List.length_append, List.length_singleton] at hn
  rw [List.take_append_of_le_length (by omega)]
  intro hmem
  exact absurd (hp _ (List.mem_of_mem_take hmem)) (by decide)

/-! ## Its length -/

/-- How many bytes a byte of a string takes. -/
def escapedWidth (c : UInt8) : Nat :=
  if c ∈ [chr '\x22', chr '\\', 8, 12, 10, 13, 9] then 2 else if c < 32 then 6 else 1

def escapedSize (s : Bytes) : Nat := (s.map escapedWidth).sum

theorem jsonCharText_length (c : UInt8) : (jsonCharText c).length = escapedWidth c := by
  have hall : ∀ n < 256, (jsonCharText (UInt8.ofNat n)).length = escapedWidth (UInt8.ofNat n) := by decide +kernel
  have := hall c.toNat c.toNat_lt
  rwa [UInt8.ofNat_toNat] at this

theorem escaped_length (s : Bytes) : (s.flatMap jsonCharText).length = escapedSize s := by
  rw [List.length_flatMap]
  exact congrArg List.sum (List.map_congr_left fun c _ => jsonCharText_length c)

/-- The length of a record's text: braces, keys, the numbers, and the strings as they are escaped. -/
def jsonSize (rec : Record) (tm : Tm) : Nat :=
  113 + (stampText rec tm).length + (text (epochMs rec)).length + (hxClogLevelName rec.level).length +
    escapedSize (cstrSeen (orEmpty rec.loggerName)) + (text rec.pid.toNat).length + (text rec.tid.toNat).length +
    escapedSize (cstrSeen (orEmpty rec.file)) + (text (toUlong rec.line)).length +
    escapedSize (cstrSeen (orEmpty rec.func)) + escapedSize rec.body + escapedSize (cstrSeen (orEmpty rec.context))

theorem jsonText_length (rec : Record) (tm : Tm) : (jsonText rec tm).length = jsonSize rec tm := by
  have hlit : (lit "\"ts\":\"").length = 6 ∧ (lit "\",\"epoch_ms\":").length = 13 ∧ (lit ",\"level\":\"").length = 10 ∧
      (lit "\",\"logger\":\"").length = 12 ∧ (lit "\",\"pid\":").length = 8 ∧ (lit ",\"tid\":").length = 7 ∧
      (lit ",\"file\":\"").length = 9 ∧ (lit "\",\"line\":").length = 9 ∧ (lit ",\"func\":\"").length = 9 ∧
      (lit "\",\"message\":\"").length = 13 ∧ (lit "\",\"context\":\"").length = 13 ∧ (lit "\"\x7d\n").length = 3 := by decide
  have hlevel : (cstrText (hxClogLevelName rec.level)).length = (hxClogLevelName rec.level).length := by
    rw [levelName_escaped]
    unfold hxClogLevelName
    split <;> decide
  have hcstr : ∀ s, (cstrText s).length = escapedSize (cstrSeen s) := fun s => escaped_length (cstrSeen s)
  unfold jsonText jsonSize stampText
  simp only [List.length_append, List.length_singleton, hlevel, hcstr, escaped_length, hlit]
  omega

/-! ## The line of a text -/

/-- A text of `n` bytes fits the buffer on the stack, or a block under the line cap; the
length is an `unsigned int` whose largest value wraps. -/
def LineFits (lineCap : Option UInt32) (stackSize n : Nat) : Prop :=
  n < stackSize ∨ n < uintMax ∧ ∀ max ∈ lineCap, n < max.toNat

section
variable {localtime : Int → Tm} {lineCap : Option UInt32} {heap : Heap} {fmt : Format} {rec : Record}
  {stackbuf R : Bytes} {stackSize : Nat} (hs : Fits stackbuf stackSize)
  (hspec : ∀ call out outSize, Fits out outSize → formatLine localtime fmt call rec out outSize = formatted R out outSize)
include hs hspec

theorem formatWithRetry_whole (halloc : R.length < stackSize ∨ (heap.malloc (R.length + 1)).isSome)
    (h : LineFits lineCap stackSize R.length) :
    (formatWithRetry localtime lineCap heap fmt rec stackbuf stackSize).line = R := by
  have hsmall := hs.small
  have hR : R.length < uintMax := by
    rcases h with h | h
    · unfold uintMax
      omega
    · exact h.1
  have hu : u32 (R.length + 1) = R.length + 1 := u32_of_lt (by unfold uintMax at hR; omega)
  unfold formatWithRetry
  simp only [hspec 0 stackbuf stackSize hs, formatted_fst _ _ hR, hu]
  by_cases hfit : R.length + 1 ≤ stackSize
  · rw [if_pos hfit]
    exact formatted_fits hfit
  · rw [if_neg hfit, if_pos hR]
    have hcap : hxClampLine lineCap (R.length + 1) = R.length + 1 := by
      have hmax := (h.resolve_left (by omega)).2
      unfold hxClampLine
      cases lineCap with
      | none => rfl
      | some max => exact if_neg (by have := hmax max rfl; omega)
    obtain ⟨hp, hmalloc⟩ := Option.isSome_iff_exists.mp (halloc.resolve_left (by omega))
    have hfits := fits_heap hmalloc (Nat.succ_pos _) (by unfold uintMax at hR; omega)
    have hsub : u32Sub (R.length + 1) 1 = R.length := u32Sub_of_le (Nat.succ_pos _) hfits.small
    simp only [hcap, hmalloc, hspec 1 hp _ hfits, formatted_fst _ _ hR, hsub, Nat.lt_irrefl, if_false]
    exact formatted_fits (Nat.le_refl _)

/-- A text that does not fit is cut, or the line goes past its terminator. -/
theorem formatWithRetry_part (halloc : ∀ n, (heap.malloc n).isSome) (hzero : ∀ call out, (formatLine localtime fmt call rec out 0).1 = 0)
    (h : ¬LineFits lineCap stackSize R.length) :
    (∃ n < R.length, (formatWithRetry localtime lineCap heap fmt rec stackbuf stackSize).line = R.take n) ∨
      0 ∈ (formatWithRetry localtime lineCap heap fmt rec stackbuf stackSize).line := by
  have hsmall := hs.small
  have hpos := hs.pos
  unfold LineFits at h
  rw [not_or, not_lt] at h
  obtain ⟨hlong, h⟩ := h
  unfold formatWithRetry
  simp only [hspec 0 stackbuf stackSize hs]
  by_cases hR : R.length < uintMax
  · have hu : u32 (R.length + 1) = R.length + 1 := u32_of_lt (by unfold uintMax at hR; omega)
    simp only [formatted_fst _ _ hR, hu]
    rw [if_neg (by omega), if_pos hR]
    obtain ⟨max, hmax, hle⟩ : ∃ max, max ∈ lineCap ∧ max.toNat ≤ R.length := by simpa [hR] using h
    have hcap : hxClampLine lineCap (R.length + 1) = max.toNat := by
      unfold hxClampLine
      rw [show lineCap = some max from hmax]
      exact if_pos (by omega)
    obtain ⟨hp, hmalloc⟩ := Option.isSome_iff_exists.mp (halloc max.toNat)
    simp only [hcap, hmalloc]
    left
    by_cases h0 : max.toNat = 0
    · refine ⟨0, by omega, ?_⟩
      simp [Formatted.line, h0, hzero]
    · have hfits := fits_heap hmalloc (Nat.pos_of_ne_zero h0) (UInt32.toNat_lt max)
      have hsub : u32Sub max.toNat 1 = max.toNat - 1 := u32Sub_of_le (Nat.pos_of_ne_zero h0) hfits.small
      refine ⟨max.toNat - 1, by omega, ?_⟩
      simp only [hspec 1 hp _ hfits, formatted_fst _ _ hR, hsub]
      rw [if_pos (by omega)]
      exact formatted_cut (by omega)
  · -- the length wraps: the line is said to have all bytes an `unsigned int` can count
    have hfst : (formatted R stackbuf stackSize).1 = uintMax := Nat.min_eq_right (by omega)
    rw [hfst, if_pos (by rw [show u32 (uintMax + 1) = 0 from rfl]; omega)]
    right
    have hmin : min R.length (stackSize - 1) = stackSize - 1 := Nat.min_eq_right (by unfold uintMax at hR; omega)
    have hlen : (R.take (stackSize - 1)).length = stackSize - 1 := List.length_take_of_le (by omega)
    unfold Formatted.line
    simp only [formatted, hmin]
    rw [List.take_append, hlen]
    obtain ⟨k, hk⟩ : ∃ k, uintMax - (stackSize - 1) = k + 1 := ⟨uintMax - stackSize, by unfold uintMax; omega⟩
    rw [hk, List.take_succ_cons]
    simp

end

/-! ## The lines of a record -/

/-- `l` is a line that the record has in JSON: the line of all sinks without an override, or one of an override. -/
def JsonLine (th : FmtCache) (e : Renderer) (rec : Record) (ovs : List OverrideSnap) (haveDefaultTargets : Bool) (l : Line) :
    Prop :=
  (haveDefaultTargets || ovs.isEmpty) = true ∧ th.mode = .json ∧ th.formatter = none ∧
      l = ⟨rec.level, e.line 0 th.format rec, 0, true⟩ ∨
    ∃ k o, ovs[k]? = some o ∧ o.mode = .json ∧ l = overrideLine th e rec (haveDefaultTargets || ovs.isEmpty) k o

theorem jsonLine_dispatched {th : FmtCache} {e : Renderer} {rec : Record} {ovs : List OverrideSnap}
    {haveDefaultTargets : Bool} {l : Line} (h : JsonLine th e rec ovs haveDefaultTargets l) :
    l ∈ dispatchLines th e rec ovs haveDefaultTargets := by
  unfold dispatchLines
  rw [List.mem_append]
  rcases h with ⟨hcounted, -, -, rfl⟩ | ⟨k, o, hk, -, rfl⟩
  · left
    rw [if_pos hcounted]
    exact List.mem_singleton_self _
  · right
    rw [List.mem_iff_getElem?]
    exact ⟨k, by rw [List.getElem?_mapIdx, hk]; rfl⟩

/-- Every such line is the record's text through `format_with_retry`. -/
theorem jsonLine_rendered {th : FmtCache} {e : Renderer} {rec : Record} {ovs : List OverrideSnap}
    {haveDefaultTargets : Bool} {l : Line} (h : JsonLine th e rec ovs haveDefaultTargets l) :
    ∃ k pattern, l.bytes = e.line k ⟨pattern, .json, none⟩ rec := by
  rcases h with ⟨-, hmode, hformatter, rfl⟩ | ⟨k, o, -, hmode, rfl⟩
  · refine ⟨0, some th.pattern, ?_⟩
    unfold FmtCache.format
    rw [hmode, hformatter]
  · refine ⟨k + 1, some (if o.hasPattern then o.pattern else th.pattern), ?_⟩
    unfold overrideLine OverrideSnap.format
    rw [hmode]

theorem json_line_complete_iff {th : FmtCache} {e : Renderer} {rec : Record} {ovs : List OverrideSnap}
    {haveDefaultTargets : Bool} {l : Line} (hstack : ∀ k, lineStackSize ≤ (e.stack k).length)
    (halloc : ∀ k n, ((e.heap k).malloc n).isSome) (hl : JsonLine th e rec ovs haveDefaultTargets l) :
    CompleteLine l.bytes ↔ LineFits e.lineCap lineStackSize (jsonSize rec (e.localtime rec.timestampSec)) := by
  obtain ⟨k, pattern, hline⟩ := jsonLine_rendered hl
  have hs : Fits (e.stack k) lineStackSize := ⟨by decide, hstack k, by decide⟩
  have hspec : ∀ call out outSize, Fits out outSize →
      formatLine e.localtime ⟨pattern, .json, none⟩ call rec out outSize =
        formatted (jsonText rec (e.localtime rec.timestampSec)) out outSize :=
    fun _ _ _ hm => hxFormatJsonRecord_spec e.localtime rec hm
  have hcomplete := jsonText_complete rec (e.localtime rec.timestampSec)
  rw [hline, ← jsonText_length]
  unfold Renderer.line
  constructor
  · intro h
    by_contra hfit
    rcases formatWithRetry_part hs hspec (halloc k) (fun _ _ => rfl) hfit with ⟨n, hn, hcut⟩ | hnul
    · rw [hcut] at h
      exact hcomplete.cut hn h.newline
    · exact absurd (h.printable hnul) (by decide)
  · intro hfit
    rw [formatWithRetry_whole hs hspec (.inr (halloc k _)) hfit]
    exact hcomplete

/-- A heap that always has a block. -/
def zeroHeap : Heap := ⟨fun n => some (List.replicate n 0), fun n b h => by cases h; exact List.length_replicate⟩

theorem message_pattern_noNul : 0 ∉ lit "%v" := by decide

theorem app_logger_noNul : 0 ∉ lit "app" := by decide

def jsonCache : FmtCache := ⟨1, ⟨lit "%v", message_pattern_noNul⟩, ⟨lit "app", app_logger_noNul⟩, .json, none⟩

/-- Rendering with the line cap of the header. -/
def plainRenderer : Renderer := ⟨fun _ => midnight, some 524288, fun _ => zeroHeap, fun _ => List.replicate lineStackSize 0⟩

theorem json_line_complete_short :
    CompleteLine (Line.mk shortRecord.level (plainRenderer.line 0 jsonCache.format shortRecord) 0 true).bytes :=
  (json_line_complete_iff (e := plainRenderer) (fun _ => Nat.le_of_eq List.length_replicate.symm) (fun _ _ => rfl)
    (.inl ⟨rfl, rfl, rfl, rfl⟩ : JsonLine jsonCache plainRenderer shortRecord [] true _)).mpr
    (.inl (by decide +kernel))

/-- A message of three hundred thousand quotes. -/
def quotesRecord : Record where
  level := 2
  loggerName := none
  file := none
  line := 7
  func := none
  pid := 1
  tid := 1
  timestampSec := 0
  timestampMsec := 0
  message := some (List.replicate 300000 (chr '\x22'))
  messageLen := 300000
  context := none
  readable := by
    intro m hm
    cases hm
    rw [List.length_replicate]
    decide

theorem body_le_jsonSize (rec : Record) (tm : Tm) : escapedSize rec.body ≤ jsonSize rec tm := by
  unfold jsonSize
  omega

theorem quotesRecord_size : 600000 ≤ jsonSize quotesRecord midnight := by
  have hbody : quotesRecord.body = List.replicate 300000 (chr '\x22') := List.take_of_length_le (by rw [List.length_replicate]; decide)
  have hsize : escapedSize quotesRecord.body = 600000 := by
    rw [hbody, escapedSize, List.map_replicate, List.sum_replicate]
    decide
  rw [← hsize]
  exact body_le_jsonSize _ _

/-- A message of quotes is within the cap, and its line is not. -/
theorem json_line_cut : ¬∀ (th : FmtCache) (e : Renderer) (rec : Record) (ovs : List OverrideSnap)
    (haveDefaultTargets : Bool) (l : Line), (∀ k, lineStackSize ≤ (e.stack k).length) →
    (∀ k n, ((e.heap k).malloc n).isSome) → JsonLine th e rec ovs haveDefaultTargets l → CompleteLine l.bytes := by
  intro h
  have hstack : ∀ k, lineStackSize ≤ (plainRenderer.stack k).length := fun _ =>
    Nat.le_of_eq List.length_replicate.symm
  have halloc : ∀ k n, ((plainRenderer.heap k).malloc n).isSome := fun _ _ => rfl
  have hl : JsonLine jsonCache plainRenderer quotesRecord [] true
      ⟨quotesRecord.level, plainRenderer.line 0 jsonCache.format quotesRecord, 0, true⟩ := .inl ⟨rfl, rfl, rfl, rfl⟩
  have hcomplete := h _ _ _ _ _ _ hstack halloc hl
  rw [json_line_complete_iff hstack halloc hl] at hcomplete
  have hsize := quotesRecord_size
  rcases hcomplete with hshort | ⟨-, hcap⟩
  · have : jsonSize quotesRecord midnight < 1280 := hshort
    omega
  · have : jsonSize quotesRecord midnight < 524288 := hcap 524288 rfl
    omega

end HxClog
