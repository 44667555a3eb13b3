import HxClog.Context
import HxClog.JsonLines

/-!
# JSON lines in UTF-8

The formatter keeps valid strings valid. The strings it is given have been cut to the
arrays they are stored in, wherever the cut falls.
-/

namespace HxClog

open C Decimal Utf8

/-! ## The text of a record -/

theorem jsonCharText_high {b : UInt8} (h : 128 ≤ b) : jsonCharText b = [b] := by
  have hall : ∀ n < 128, jsonCharText (UInt8.ofNat (128 + n)) = [UInt8.ofNat (128 + n)] := by decide +kernel
  rw [UInt8.le_iff_toNat_le, show (128 : UInt8).toNat = 128 from rfl] at h
  have := hall (b.toNat - 128) (by have := b.toNat_lt; omega)
  rwa [show 128 + (b.toNat - 128) = b.toNat by omega, UInt8.ofNat_toNat] at this

theorem hexDigit_ascii (c : UInt8) : Ascii [hexDigit (c &&& 15).toNat] := by
  have hall : ∀ n < 16, hexDigit n < 128 := by decide
  have hlow : (c &&& 15).toNat < 16 := by
    rw [UInt8.toNat_and]
    exact Nat.lt_of_le_of_lt Nat.and_le_right (by decide)
  exact ascii_singleton.mpr (hall _ hlow)

theorem jsonCharText_ascii {b : UInt8} (h : b < 128) : Ascii (jsonCharText b) := by
  unfold jsonCharText
  split
  any_goals simp [lit, Ascii, chr]; done
  split
  · rw [ascii_append, ascii_append]
    exact ⟨⟨by simp [lit, Ascii, chr], hexDigit_ascii _⟩, hexDigit_ascii _⟩
  · exact ascii_singleton.mpr h

theorem escaped_valid_iff (s : Bytes) : Valid (s.flatMap jsonCharText) ↔ Valid s :=
  valid_escape_iff (fun _ => jsonCharText_high) (fun _ => jsonCharText_ascii) jsonCharText_ne_nil

theorem digits_ascii {s : Bytes} (h : ∀ c ∈ s, Scan.isDigit c) : Ascii s := by
  intro c hc
  have hd := h c hc
  unfold Scan.isDigit at hd
  rw [decide_eq_true_eq, UInt8.le_iff_toNat_le, UInt8.le_iff_toNat_le] at hd
  rw [UInt8.lt_iff_toNat_lt]
  exact lt_of_le_of_lt hd.2 (by decide)

theorem levelName_ascii (level : Level) : Ascii (hxClogLevelName level) := by
  unfold hxClogLevelName
  split <;> simp [lit, Ascii, chr]

/-- The strings of the record are valid, as far as the formatter reads them. -/
structure ValidStrings (rec : Record) : Prop where
  logger : Valid (cstrSeen (orEmpty rec.loggerName))
  file : Valid (cstrSeen (orEmpty rec.file))
  func : Valid (cstrSeen (orEmpty rec.func))
  body : Valid rec.body
  context : Valid (cstrSeen (orEmpty rec.context))

/-- The text in front of the logger name. -/
def jsonLead (rec : Record) (tm : Tm) : Bytes :=
  [chr '\x7b'] ++ lit "\"ts\":\"" ++ yearText (tm.year + 1900) ++ [chr '-'] ++ padded 2 (tm.mon + 1).toNat ++
    [chr '-'] ++ padded 2 tm.mday.toNat ++ [chr 'T'] ++ padded 2 tm.hour.toNat ++ [chr ':'] ++
    padded 2 tm.min.toNat ++ [chr ':'] ++ padded 2 tm.sec.toNat ++ [chr '.'] ++ padded 3 rec.timestampMsec.toNat ++
    lit "\",\"epoch_ms\":" ++ text (epochMs rec) ++ lit ",\"level\":\"" ++ cstrText (hxClogLevelName rec.level) ++
    lit "\",\"logger\":\""

theorem jsonLead_ascii (rec : Record) (tm : Tm) : Ascii (jsonLead rec tm) := by
  have hpad : ∀ w v, Ascii (padded w v) := fun w v => digits_ascii (Scan.padded_digit w v)
  have hlevel : Ascii (cstrText (hxClogLevelName rec.level)) := by
    intro b hb
    obtain ⟨a, ha, hb⟩ := List.mem_flatMap.mp hb
    exact jsonCharText_ascii (levelName_ascii _ a (List.mem_of_mem_take ha)) b hb
  have hlit : Ascii (lit "\"ts\":\"") ∧ Ascii (lit "\",\"epoch_ms\":") ∧ Ascii (lit ",\"level\":\"") ∧
      Ascii (lit "\",\"logger\":\"") ∧ Ascii [chr '\x7b'] ∧ Ascii [chr '-'] ∧ Ascii [chr 'T'] ∧ Ascii [chr ':'] ∧
      Ascii [chr '.'] := by simp [lit, Ascii, chr]
  have hyear : Ascii (yearText (tm.year + 1900)) := digits_ascii (yearText_digit _)
  have hms : Ascii (text (epochMs rec)) := digits_ascii (Scan.text_digit _)
  unfold jsonLead
  simp only [ascii_append, hpad, hlevel, hlit, hyear, hms, and_self]

/-- The strings of a text, each with what stands in front of it. -/
def jsonPieces (rec : Record) (tm : Tm) : List (Bytes × Bytes) :=
  [(jsonLead rec tm, cstrText (orEmpty rec.loggerName)),
    (lit "\",\"pid\":" ++ text rec.pid.toNat ++ lit ",\"tid\":" ++ text rec.tid.toNat ++ lit ",\"file\":\"",
      cstrText (orEmpty rec.file)),
    (lit "\",\"line\":" ++ text (toUlong rec.line) ++ lit ",\"func\":\"", cstrText (orEmpty rec.func)),
    (lit "\",\"message\":\"", rec.body.flatMap jsonCharText),
    (lit "\",\"context\":\"", cstrText (orEmpty rec.context))]

theorem jsonText_pieces (rec : Record) (tm : Tm) :
    jsonText rec tm = (jsonPieces rec tm).flatMap (fun p => p.1 ++ p.2) ++ lit "\"\x7d\n" := by
  unfold jsonText jsonPieces jsonLead
  simp only [List.flatMap_cons, List.flatMap_nil, List.append_nil, List.append_assoc]

theorem jsonPieces_ascii (rec : Record) (tm : Tm) : ∀ p ∈ jsonPieces rec tm, Ascii p.1 ∧ p.1 ≠ [] := by
  have hnum : ∀ n, Ascii (text n) := fun n => digits_ascii (Scan.text_digit n)
  have hlit : Ascii (lit "\",\"pid\":") ∧ Ascii (lit ",\"tid\":") ∧ Ascii (lit ",\"file\":\"") ∧ Ascii (lit "\",\"line\":") ∧
      Ascii (lit ",\"func\":\"") ∧ Ascii (lit "\",\"message\":\"") ∧ Ascii (lit "\",\"context\":\"") := by simp [lit, Ascii, chr]
  unfold jsonPieces
  simp only [List.forall_mem_cons, List.not_mem_nil, false_implies, implies_true, and_true, ascii_append, hnum, hlit,
    jsonLead_ascii, true_and]
  have hne : lit "\",\"logger\":\"" ≠ [] ∧ lit ",\"file\":\"" ≠ [] ∧ lit ",\"func\":\"" ≠ [] ∧ lit "\",\"message\":\"" ≠ [] ∧
      lit "\",\"context\":\"" ≠ [] := by simp [lit]
  obtain ⟨h₁, h₂, h₃, h₄, h₅⟩ := hne
  unfold jsonLead
  exact ⟨List.append_ne_nil_of_right_ne_nil _ h₁, List.append_ne_nil_of_right_ne_nil _ h₂,
    List.append_ne_nil_of_right_ne_nil _ h₃, h₄, h₅⟩

theorem jsonText_valid_iff (rec : Record) (tm : Tm) : Valid (jsonText rec tm) ↔ ValidStrings rec := by
  have hlast : Ascii (lit "\"\x7d\n") := by simp [lit, Ascii, chr]
  rw [jsonText_pieces, valid_pieces_iff hlast (jsonPieces_ascii rec tm)]
  unfold jsonPieces
  simp only [List.forall_mem_cons, List.not_mem_nil, false_implies, implies_true, and_true, cstrText, escaped_valid_iff]
  constructor
  · rintro ⟨hlogger, hfile, hfunc, hbody, hcontext⟩
    exact ⟨hlogger, hfile, hfunc, hbody, hcontext⟩
  · rintro ⟨hlogger, hfile, hfunc, hbody, hcontext⟩
    exact ⟨hlogger, hfile, hfunc, hbody, hcontext⟩

/-! ## The context -/

namespace Context

/-- The stored strings are valid. -/
def Clean (ctx : Context) : Prop := ∀ i ∈ ctx.items, Valid i.key.bytes ∧ Valid i.value.bytes

theorem empty_clean : empty.Clean := fun _ h => absurd h List.not_mem_nil

theorem cut_valid {cap : Nat} {s : CStr} (h : Valid s.bytes) (hb : Between (cap - 1) s.bytes) : Valid (CStr.cut cap s).bytes :=
  (valid_take_iff h _).mpr hb

theorem put_clean {ctx : Context} (h : ctx.Clean) {key value : CStr} (hk : Valid key.bytes) (hv : Valid value.bytes)
    (hkey : Between (contextKeyMax - 1) key.bytes) (hvalue : Between (contextValueMax - 1) value.bytes) :
    (ctx.hxClogContextPut (some key) (some value)).1.Clean := by
  unfold hxClogContextPut
  simp only
  split
  · exact h
  split
  · rename_i items hput
    unfold putItems at hput
    simp only at hput
    intro i hi
    split at hput
    · -- the value of a pair is replaced
      rename_i n _
      cases hput
      obtain ⟨m, hm⟩ := List.mem_iff_getElem?.mp hi
      simp only [List.getElem?_modify, Option.map_eq_map, Option.map_eq_some_iff] at hm
      obtain ⟨item, hitem, rfl⟩ := hm
      have hold := h item (List.mem_of_getElem? hitem)
      split
      · exact ⟨hold.1, cut_valid hv hvalue⟩
      · exact hold
    · split at hput
      · cases hput
      · cases hput
        rcases List.mem_append.mp hi with hi | hi
        · exact h i hi
        · rw [List.mem_singleton.mp hi]
          exact ⟨cut_valid hk hkey, cut_valid hv hvalue⟩
  · exact h

theorem remove_clean {ctx : Context} (h : ctx.Clean) (key : Option CStr) : (ctx.hxClogContextRemove key).Clean := by
  unfold hxClogContextRemove
  split
  · exact h
  · split
    · exact h
    · split
      · exact fun i hi => h i (List.mem_of_mem_eraseIdx hi)
      · exact h

theorem snapshotLoop_valid (cap : Nat) : ∀ {items : List ContextItem} {out : Bytes}, Valid out →
    (∀ i ∈ items, Valid i.key.bytes ∧ Valid i.value.bytes) → Valid (snapshotLoop cap out items)
  | [], out, hout, _ => hout
  | i :: items, out, hout, h => by
    have hblank : Valid (out ++ [chr ' ']) := hout.append (Ascii.valid (by simp [Ascii, chr]))
    have hstart : Valid (if 0 < out.length then out ++ [chr ' '] else out) := by
      split
      · exact hblank
      · exact hout
    obtain ⟨hk, hv⟩ := h i List.mem_cons_self
    unfold snapshotLoop
    simp only
    split
    · exact hout
    · generalize (if 0 < out.length then out ++ [chr ' '] else out) = start at hstart ⊢
      split
      · exact hstart
      · refine snapshotLoop_valid cap ?_ fun j hj => h j (List.mem_cons_of_mem i hj)
        rw [List.append_assoc, ← List.singleton_append]
        exact hstart.append (hk.append (Valid.append (Ascii.valid (by simp [Ascii, chr])) hv))

theorem snapshotLoop_noNul (cap : Nat) : ∀ {items : List ContextItem} {out : Bytes}, 0 ∉ out → 0 ∉ snapshotLoop cap out items
  | [], out, hout => hout
  | i :: items, out, hout => by
    have hstart : 0 ∉ (if 0 < out.length then out ++ [chr ' '] else out) := by
      split
      · rw [List.mem_append, not_or]
        exact ⟨hout, by decide⟩
      · exact hout
    unfold snapshotLoop
    simp only
    split
    · exact hout
    · generalize (if 0 < out.length then out ++ [chr ' '] else out) = start at hstart ⊢
      split
      · exact hstart
      · refine snapshotLoop_noNul cap ?_
        rw [List.mem_append, List.mem_append, List.mem_cons]
        rintro ((h | h) | h | h)
        · exact hstart h
        · exact i.key.noNul h
        · exact absurd h (by decide)
        · exact i.value.noNul h

/-- The snapshot as the string that the record points to. -/
def snapshot (ctx : Context) : CStr := ⟨ctx.hxContextSnapshotText contextTextMax, snapshotLoop_noNul _ List.not_mem_nil⟩

theorem snapshot_valid {ctx : Context} (h : ctx.Clean) : Valid ctx.snapshot.bytes := snapshotLoop_valid _ Valid.nil h

end Context

/-! ## Runs -/

/-- Where the logger name of a call comes from: the default logger, the array of a logger, or the caller. -/
inductive NameSource where
  | default
  | stored (name : Option CStr)
  | given (name : Option CStr)

def NameSource.pointer : NameSource → Option CStr
  | .default => none
  | .stored name => some (storedName (givenName name))
  | .given name => name

/-- A call on the context, or a log call. -/
inductive LogStep where
  | context (c : ContextCall)
  | write (source : NameSource) (c : WriteCall)

/-- A thread that logs. -/
structure LogState where
  writer : Writer
  context : Context

def LogState.callOf (s : LogState) (source : NameSource) (c : WriteCall) : WriteCall :=
  { c with loggerName := source.pointer, context := s.context.snapshot }

def LogStep.run (s : LogState) : LogStep → LogState × List Record
  | .context c => ({ s with context := c.run s.context }, [])
  | .write source c =>
    let (w, out) := coreWritev s.writer (s.callOf source c)
    ({ s with writer := w }, out)

def runLog (s : LogState) : List LogStep → LogState × List Record
  | [] => (s, [])
  | step :: steps =>
    let (s, out) := step.run s
    let (s, more) := runLog s steps
    (s, out ++ more)

def ValidStr (s : Option CStr) : Prop := ∀ t ∈ s, Valid t.bytes

def NameSource.Supplied : NameSource → Prop
  | .default => True
  | .stored name | .given name => ValidStr name

/-- The strings of the call are valid, and the message has no NUL. -/
def LogStep.Supplied : LogStep → Prop
  | .context (.put key value) => ValidStr key ∧ ValidStr value
  | .context _ => True
  | .write source c => source.Supplied ∧ ValidStr c.file ∧ ValidStr c.func ∧
      ∀ t ∈ c.text, Valid t ∧ 0 ∉ t ∧ t.length < 2 ^ 31

/-- No character is cut when the name is stored, as a logger's or as that of a run of duplicates. -/
def NameSource.Whole (enabled : Bool) : NameSource → Prop
  | .default => True
  | .stored name => Between (loggerNameMax - 1) (givenName name).bytes
  | .given name => ∀ t ∈ name, Between (u32 t.bytes.length) t.bytes ∧ (enabled = true → Between 127 t.bytes)

/-- No character is cut in the call. -/
def LogStep.Whole (enabled : Bool) : LogStep → Prop
  | .context (.put key value) => (∀ t ∈ key, Between (contextKeyMax - 1) t.bytes) ∧
      ∀ t ∈ value, Between (contextValueMax - 1) t.bytes
  | .context _ => True
  | .write source c => source.Whole enabled ∧ (∀ t ∈ c.file, Between (u32 t.bytes.length) t.bytes) ∧
      (∀ t ∈ c.func, Between (u32 t.bytes.length) t.bytes) ∧
      ∀ t ∈ c.text, t.length < stackBufSize ∨ c.heapOk = true ∨ Between (stackBufSize - 1) t

/-! ## Every record of a run -/

theorem seen_valid {s : Bytes} (h : Valid s) (hb : Between (u32 s.length) s) : Valid (cstrSeen s) := (valid_take_iff h _).mpr hb

theorem between_short {s : Bytes} (h : s.length < 2 ^ 32) : Between (u32 s.length) s :=
  between_of_le (by rw [u32_of_lt h])

theorem Context.snapshotLoop_length {cap : Nat} : ∀ {items : List ContextItem} {out : Bytes}, out.length < cap →
    (snapshotLoop cap out items).length < cap
  | [], out, h => h
  | i :: items, out, h => by
    unfold snapshotLoop
    simp only
    by_cases hfull : 0 < out.length ∧ cap ≤ out.length + 1
    · rw [if_pos hfull]
      exact h
    · rw [if_neg hfull]
      have hstart : (if 0 < out.length then out ++ [chr ' '] else out).length < cap := by
        split
        · rw [List.length_append, List.length_singleton]
          omega
        · exact h
      generalize (if 0 < out.length then out ++ [chr ' '] else out) = start at hstart ⊢
      by_cases hroom : cap ≤ start.length + (i.key.bytes.length + i.value.bytes.length + 2)
      · rw [if_pos hroom]
        exact hstart
      · rw [if_neg hroom]
        refine snapshotLoop_length ?_
        rw [List.length_append, List.length_append, List.length_cons]
        omega

/-- The record is valid, but for a message that fills the line cap. -/
structure SoundRecord (lineCap : Option UInt32) (rec : Record) : Prop where
  logger : Valid (cstrSeen (orEmpty rec.loggerName))
  file : Valid (cstrSeen (orEmpty rec.file))
  func : Valid (cstrSeen (orEmpty rec.func))
  context : Valid (cstrSeen (orEmpty rec.context))
  body : (∀ max ∈ lineCap, rec.body.length + 1 < max.toNat) → Valid rec.body

structure LogState.Sound (s : LogState) : Prop where
  name : Valid s.writer.loggerName.bytes
  context : s.context.Clean
  last : s.writer.dup.repeats = 0 ∧ s.writer.dup.haveLast = false ∨ Valid s.writer.dup.lastLogger.bytes
  off : s.writer.dup.enabled = false → s.writer.dup.repeats = 0

theorem optional_valid {f : Option CStr} (h : ValidStr f) (hw : ∀ t ∈ f, Between (u32 t.bytes.length) t.bytes) :
    Valid (cstrSeen (orEmpty f)) := by
  cases f with
  | none => exact Valid.nil
  | some t => exact seen_valid (h t rfl) (hw t rfl)

theorem givenName_valid {name : Option CStr} (h : ValidStr name) : Valid (givenName name).bytes := by
  have hdefault : Valid defaultLoggerName.bytes := Ascii.valid (by decide +kernel)
  unfold givenName
  split
  · split
    · exact hdefault
    · exact h _ rfl
  · exact hdefault

section
variable {s : LogState} {source : NameSource} {c : WriteCall}

/-- The name of a call's record, and what a run of duplicates keeps of it. -/
theorem effectiveLogger_valid (hs : s.Sound) (hsource : source.Supplied) (hwhole : source.Whole s.writer.dup.enabled) :
    Valid (cstrSeen (s.writer.effectiveLogger (s.callOf source c)).bytes) ∧
      (s.writer.dup.enabled = true → Valid (cut 128 (s.writer.effectiveLogger (s.callOf source c)).bytes)) := by
  have hstored : ∀ t : CStr, Valid t.bytes → t.bytes.length < 128 → Valid (cstrSeen t.bytes) ∧
      (s.writer.dup.enabled = true → Valid (cut 128 t.bytes)) := by
    intro t ht hlen
    exact ⟨seen_valid ht (between_short (by omega)), fun _ => by rw [cut_of_lt hlen]; exact ht⟩
  have hdefault := hstored _ hs.name s.writer.loggerName_fits
  unfold Writer.effectiveLogger LogState.callOf
  cases source with
  | default => exact hdefault
  | stored name =>
    simp only [NameSource.pointer]
    split
    · exact hstored _ (Context.cut_valid (givenName_valid hsource) hwhole) (storedName_fits _)
    · exact hdefault
  | given name =>
    simp only [NameSource.pointer]
    cases name with
    | none => exact hdefault
    | some t =>
      simp only
      split
      · have ht := hsource t rfl
        exact ⟨seen_valid ht (hwhole t rfl).1, fun he => (valid_take_iff ht _).mpr ((hwhole t rfl).2 he)⟩
      · exact hdefault

theorem record_sound (hs : s.Sound) (hsup : (LogStep.write source c).Supplied)
    (hwhole : (LogStep.write source c).Whole s.writer.dup.enabled) {text : Bytes} (ht : c.text = some text) :
    SoundRecord s.writer.lineCap (s.writer.record (s.callOf source c) text) := by
  obtain ⟨hsource, hfile, hfunc, htext⟩ := hsup
  obtain ⟨hname, hwfile, hwfunc, hwtext⟩ := hwhole
  obtain ⟨hvalid, hnul, hlen⟩ := htext text ht
  have hcontext : s.context.snapshot.bytes.length < contextTextMax := Context.snapshotLoop_length (by decide)
  have hbody := (record_body s.writer (s.callOf source c) (hlen.trans (by decide))).1
  refine ⟨(effectiveLogger_valid hs hsource hname).1, optional_valid hfile hwfile, optional_valid hfunc hwfunc,
    seen_valid (Context.snapshot_valid hs.context) (between_short (hcontext.trans (by decide))), fun hroom => ?_⟩
  have hno : ∀ n, ∀ b ∈ text.take n, decide (b ≠ 0) = true := by
    intro n b hb
    rw [decide_eq_true_eq]
    rintro rfl
    exact hnul (List.mem_of_mem_take hb)
  rw [hbody] at hroom ⊢
  by_cases hstack : text.length < stackBufSize
  · rw [messageBody_stack hstack]
    exact hvalid
  · cases hheap : c.heapOk with
    | true =>
      rw [show (s.callOf source c).heapOk = true from hheap, messageBody_heap hstack,
        List.takeWhile_eq_self_iff.mpr (hno _)] at hroom ⊢
      -- a message cut by the line cap leaves no room for the rest of the line
      have hall : messageLimit s.writer.lineCap text.length = text.length := by
        unfold messageLimit at hroom ⊢
        cases hcap : s.writer.lineCap with
        | none => rfl
        | some max =>
          rw [hcap] at hroom
          have := hroom max rfl
          simp only [List.length_take] at this ⊢
          omega
      rw [hall, List.take_length]
      exact hvalid
    | false =>
      unfold messageBody
      rw [if_neg hstack, show (s.callOf source c).heapOk = false from hheap, if_neg (by simp)]
      refine (valid_take_iff hvalid _).mpr ?_
      have := hwtext text ht
      rw [hheap] at this
      exact (this.resolve_left hstack).resolve_left (by simp)

end

/-- A valid text is valid up to its first NUL. -/
theorem ofBytes_valid {s : Bytes} (h : Valid s) : Valid (CStr.ofBytes s).bytes := by
  have hsplit := List.takeWhile_append_dropWhile (p := fun c : UInt8 => decide (c ≠ 0)) (l := s)
  rw [← hsplit] at h
  refine ((valid_append_iff ?_).mp h).1
  intro b hb
  have h0 : decide (b ≠ 0) = false := Scan.dropWhile_head b hb
  have : b = 0 := by simpa using h0
  rw [this]
  decide

theorem summary_sound (w : Writer) (hname : Valid w.loggerName.bytes) (lineCap : Option UInt32) (level : Level)
    {logger : Buf 128} (hlogger : Valid logger.bytes) (repeats : Nat) (m : Moment) :
    SoundRecord lineCap (summaryRecord w level logger.bytes repeats m) := by
  have hshort : ∀ {t : CStr}, Valid t.bytes → t.bytes.length < 128 → Valid (cstrSeen (orEmpty (some t))) :=
    fun ht hlen => seen_valid ht (between_short (by simp only [orEmpty, Option.map_some, Option.getD_some]; omega))
  have hascii : Ascii (repeatedText repeats) := by
    unfold repeatedText
    rw [ascii_append, ascii_append]
    exact ⟨⟨by simp [lit, Ascii, chr], digits_ascii (Scan.text_digit _)⟩, by simp [lit, Ascii, chr]⟩
  unfold summaryRecord
  refine ⟨?_, ?_, ?_, ?_, fun _ => ?_⟩
  · simp only [recordOf]
    split
    · rename_i hne
      refine hshort ?_ ((List.takeWhile_prefix _).length_le.trans_lt logger.fits)
      exact ofBytes_valid hlogger
    · exact hshort hname w.loggerName_fits
  · exact (show Ascii (cstrSeen (orEmpty (some (CStr.ofBytes (lit "hx_clog"))))) by decide +kernel).valid
  · exact (show Ascii (cstrSeen (orEmpty (some (CStr.ofBytes (lit "dup"))))) by decide +kernel).valid
  · exact Valid.nil
  · exact Ascii.valid fun b hb => hascii b (List.mem_of_mem_take hb)

/-- What one step preserves. -/
theorem LogStep.run_sound {s : LogState} (hs : s.Sound) : ∀ {step : LogStep}, step.Supplied →
    step.Whole s.writer.dup.enabled → (step.run s).1.Sound ∧
      (step.run s).1.writer.dup.enabled = s.writer.dup.enabled ∧ (step.run s).1.writer.lineCap = s.writer.lineCap ∧
      ∀ rec ∈ (step.run s).2, SoundRecord s.writer.lineCap rec
  | .context c, hsup, hwhole => by
    have hclean : (c.run s.context).Clean := by
      cases c with
      | put key value =>
        cases key with
        | none => exact hs.context
        | some key =>
          cases value with
          | none => exact hs.context
          | some value =>
            exact Context.put_clean hs.context (hsup.1 key rfl) (hsup.2 value rfl) (hwhole.1 key rfl) (hwhole.2 value rfl)
      | remove key => exact Context.remove_clean hs.context key
      | clear => exact Context.empty_clean
    exact ⟨⟨hs.name, hclean, hs.last, hs.off⟩, rfl, rfl, fun _ h => absurd h List.not_mem_nil⟩
  | .write source c, hsup, hwhole => by
    unfold LogStep.run
    simp only
    have hidle : coreWritev s.writer (s.callOf source c) = (s.writer, []) →
        (LogState.Sound { s with writer := (coreWritev s.writer (s.callOf source c)).1 }) ∧
          (coreWritev s.writer (s.callOf source c)).1.dup.enabled = s.writer.dup.enabled ∧
          (coreWritev s.writer (s.callOf source c)).1.lineCap = s.writer.lineCap ∧
          ∀ rec ∈ (coreWritev s.writer (s.callOf source c)).2, SoundRecord s.writer.lineCap rec := by
      intro h
      rw [h]
      exact ⟨hs, rfl, rfl, fun _ h => absurd h List.not_mem_nil⟩
    by_cases hi : s.writer.initialized = true
    · cases ha : s.writer.accepted (s.callOf source c) with
      | none => exact hidle (coreWritev_turned_away ha)
      | some text =>
        obtain ⟨hp, htext⟩ := Writer.accepted_eq ha
        have hrec : SoundRecord s.writer.lineCap (s.writer.record (s.callOf source c) text) :=
          record_sound hs hsup hwhole htext
        by_cases he : s.writer.dup.enabled = true
        · rw [coreWritev_spec hi he ha]
          by_cases hf : s.writer.dup.folds (s.writer.key (s.callOf source c) text) (s.callOf source c).checkedAt.ms = true
          · rw [if_pos hf]
            have hlast := hs.last.resolve_left fun h => by rw [DupState.folds_haveLast hf] at h; exact absurd h.2 (by simp)
            exact ⟨⟨hs.name, hs.context, .inr hlast, fun h => absurd (he.symm.trans h) (by simp)⟩, rfl, rfl,
              fun _ h => absurd h List.not_mem_nil⟩
          · rw [if_neg hf]
            have hkept := (effectiveLogger_valid (c := c) hs hsup.1 hwhole.1).2 he
            refine ⟨⟨hs.name, hs.context, .inr hkept, fun _ => rfl⟩, rfl, rfl, ?_⟩
            intro rec hmem
            rcases List.mem_append.mp hmem with hmem | hmem
            · unfold Writer.report at hmem
              split at hmem
              · rename_i hpos
                rw [List.mem_singleton.mp hmem]
                exact summary_sound _ hs.name _ _ (hs.last.resolve_left fun h => by omega) _ _
              · exact absurd hmem List.not_mem_nil
            · rw [List.mem_singleton.mp hmem]
              exact hrec
        · have hrepeats := hs.off (Bool.eq_false_of_not_eq_true he)
          have hout : coreWritev s.writer (s.callOf source c) =
              (s.writer, [s.writer.record (s.callOf source c) text]) := by
            unfold coreWritev
            rw [if_neg (by simp [hi, hp]), htext]
            simp only [if_neg he]
            exact coreDispatchRecord_idle hrepeats _ _ _
          rw [hout]
          refine ⟨hs, rfl, rfl, fun rec hmem => ?_⟩
          rw [List.mem_singleton.mp hmem]
          exact hrec
    · exact hidle (coreWritev_off hi _)

theorem runLog_sound : ∀ {steps : List LogStep} {s : LogState}, s.Sound → (∀ step ∈ steps, step.Supplied) →
    (∀ step ∈ steps, step.Whole s.writer.dup.enabled) → ∀ rec ∈ (runLog s steps).2, SoundRecord s.writer.lineCap rec
  | [], _, _, _, _ => fun _ h => absurd h List.not_mem_nil
  | step :: steps, s, hs, hsup, hwhole => by
    obtain ⟨hnext, henabled, hcap, hout⟩ := step.run_sound hs (hsup step List.mem_cons_self) (hwhole step List.mem_cons_self)
    have hrest := runLog_sound hnext (fun t ht => hsup t (List.mem_cons_of_mem step ht)) fun t ht => by
      rw [henabled]
      exact hwhole t (List.mem_cons_of_mem step ht)
    intro rec hmem
    rcases List.mem_append.mp hmem with hmem | hmem
    · exact hout rec hmem
    · have := hrest rec hmem
      rwa [hcap] at this

/-! ## The lines -/

theorem escapedWidth_pos (c : UInt8) : 1 ≤ escapedWidth c := by
  unfold escapedWidth
  split
  · decide
  · split <;> decide

theorem length_le_escaped : ∀ s : Bytes, s.length ≤ escapedSize s
  | [] => Nat.zero_le _
  | c :: s => by
    have ih := length_le_escaped s
    have := escapedWidth_pos c
    rw [escapedSize, List.map_cons, List.sum_cons, List.length_cons]
    unfold escapedSize at ih
    omega

theorem body_lt_jsonSize (rec : Record) (tm : Tm) : rec.body.length + 113 ≤ jsonSize rec tm := by
  have := length_le_escaped rec.body
  unfold jsonSize
  omega

/-- A line that is not cut is valid exactly when its strings are. -/
theorem json_line_valid_iff {th : FmtCache} {e : Renderer} {rec : Record} {ovs : List OverrideSnap}
    {haveDefaultTargets : Bool} {l : Line} (hstack : ∀ k, lineStackSize ≤ (e.stack k).length)
    (hfits : ∀ max ∈ e.lineCap, jsonSize rec (e.localtime rec.timestampSec) < max.toNat)
    (hsize : jsonSize rec (e.localtime rec.timestampSec) < 2 ^ 32 - 1)
    (hblock : ∀ k, jsonSize rec (e.localtime rec.timestampSec) < lineStackSize ∨
      ((e.heap k).malloc (jsonSize rec (e.localtime rec.timestampSec) + 1)).isSome)
    (hl : JsonLine th e rec ovs haveDefaultTargets l) : Valid l.bytes ↔ ValidStrings rec := by
  obtain ⟨k, pattern, hline⟩ := jsonLine_rendered hl
  have hs : Fits (e.stack k) lineStackSize := ⟨by decide, hstack k, by decide⟩
  have hspec : ∀ call out outSize, Fits out outSize →
      formatLine e.localtime ⟨pattern, .json, none⟩ call rec out outSize =
        formatted (jsonText rec (e.localtime rec.timestampSec)) out outSize :=
    fun _ _ _ hm => hxFormatJsonRecord_spec e.localtime rec hm
  have hblock' := hblock k
  have hfit : LineFits e.lineCap lineStackSize (jsonSize rec (e.localtime rec.timestampSec)) := .inr ⟨hsize, hfits⟩
  rw [← jsonText_length] at hblock' hfit
  rw [hline, Renderer.line, formatWithRetry_whole hs hspec hblock' hfit, jsonText_valid_iff]

/-- In a run that cuts no character every line is valid. -/
theorem json_lines_utf8 {w : Writer} {name : CStr} (hname : w.loggerName = CStr.cut 128 name) (hvalid : Valid name.bytes)
    (hcut : Between 127 name.bytes) (hfresh : w.dup.repeats = 0 ∧ w.dup.haveLast = false) {steps : List LogStep}
    (hsup : ∀ step ∈ steps, step.Supplied) (hwhole : ∀ step ∈ steps, step.Whole w.dup.enabled) {rec : Record}
    (hrec : rec ∈ (runLog ⟨w, .empty⟩ steps).2) {th : FmtCache} {e : Renderer} {ovs : List OverrideSnap}
    {haveDefaultTargets : Bool} {l : Line} (hcap : e.lineCap = w.lineCap) (hstack : ∀ k, lineStackSize ≤ (e.stack k).length)
    (hfits : ∀ max ∈ e.lineCap, jsonSize rec (e.localtime rec.timestampSec) < max.toNat)
    (hsize : jsonSize rec (e.localtime rec.timestampSec) < 2 ^ 32 - 1)
    (hblock : ∀ k, jsonSize rec (e.localtime rec.timestampSec) < lineStackSize ∨
      ((e.heap k).malloc (jsonSize rec (e.localtime rec.timestampSec) + 1)).isSome)
    (hl : JsonLine th e rec ovs haveDefaultTargets l) : Valid l.bytes := by
  have hstart : LogState.Sound ⟨w, .empty⟩ := by
    refine ⟨?_, Context.empty_clean, .inl hfresh, fun _ => hfresh.1⟩
    rw [hname]
    exact Context.cut_valid hvalid hcut
  have hsound := runLog_sound hstart hsup hwhole rec hrec
  refine (json_line_valid_iff hstack hfits hsize hblock hl).mpr
    ⟨hsound.logger, hsound.file, hsound.func, hsound.body fun max hmax => ?_, hsound.context⟩
  have := hfits max (by rw [hcap]; exact hmax)
  have := body_lt_jsonSize rec (e.localtime rec.timestampSec)
  omega

/-- Rendering without a line cap. -/
def freeRenderer : Renderer := { plainRenderer with lineCap := none }

def userKey : CStr := ⟨lit "user", by decide⟩

/-- A value in the context, and a line. -/
def contextSteps (value : CStr) : List LogStep :=
  [.context (.put (some userKey) (some value)), .write .default (appCall (lit "up") 5)]

def contextRecord (value : CStr) : Record :=
  appWriter.record (LogState.callOf ⟨appWriter, (ContextCall.put (some userKey) (some value)).run .empty⟩ .default
    (appCall (lit "up") 5)) (lit "up")

theorem contextSteps_records (value : CStr) : (runLog ⟨appWriter, .empty⟩ (contextSteps value)).2 = [contextRecord value] := rfl

/-- The JSON line of a record, for all sinks. -/
def jsonLineOf (rec : Record) : Line := ⟨rec.level, freeRenderer.line 0 jsonCache.format rec, 0, true⟩

theorem jsonLineOf_json (rec : Record) : JsonLine jsonCache freeRenderer rec [] true (jsonLineOf rec) :=
  .inl ⟨rfl, rfl, rfl, rfl⟩

theorem contextSteps_supplied {value : CStr} (h : Valid value.bytes) : ∀ step ∈ contextSteps value, step.Supplied := by
  have hkey : Valid userKey.bytes := Ascii.valid (by simp [userKey, lit, Ascii, chr])
  have hfile : Valid (lit "app.c") := Ascii.valid (by simp [lit, Ascii, chr])
  have htext : Valid (lit "up") := Ascii.valid (by simp [lit, Ascii, chr])
  unfold contextSteps
  simp only [List.forall_mem_cons, List.not_mem_nil, false_implies, implies_true, and_true]
  refine ⟨⟨?_, ?_⟩, trivial, ?_, ?_, ?_⟩
  · rintro _ ⟨⟩
    exact hkey
  · rintro _ ⟨⟩
    exact h
  · rintro _ ⟨⟩
    exact hfile
  · rintro _ ⟨⟩
  · rintro _ ⟨⟩
    exact ⟨htext, by decide, by decide⟩

/-- A short value. -/
def annValue : CStr := ⟨lit "ann", by decide⟩

theorem json_lines_utf8_ann : Valid (jsonLineOf (contextRecord annValue)).bytes := by
  have hwhole : ∀ step ∈ contextSteps annValue, step.Whole appWriter.dup.enabled := by
    unfold contextSteps
    simp only [List.forall_mem_cons, List.not_mem_nil, false_implies, implies_true, and_true]
    refine ⟨⟨?_, ?_⟩, trivial, ?_, ?_, ?_⟩
    · rintro _ ⟨⟩
      exact between_of_le (by decide)
    · rintro _ ⟨⟩
      exact between_of_le (by decide)
    · rintro _ ⟨⟩
      exact between_of_le (by decide)
    · rintro _ ⟨⟩
    · rintro _ ⟨⟩
      exact .inl (by decide)
  have hrec : contextRecord annValue ∈ (runLog ⟨appWriter, .empty⟩ (contextSteps annValue)).2 := by
    rw [contextSteps_records]
    exact List.mem_singleton_self _
  have hname : appWriter.loggerName = CStr.cut 128 ⟨lit "app", by decide⟩ := by decide
  have hvalid : Valid (lit "app") := Ascii.valid (by simp [lit, Ascii, chr])
  have hcut : Between 127 (lit "app") := between_of_le (by decide)
  have hsup : ∀ step ∈ contextSteps annValue, step.Supplied := contextSteps_supplied (Ascii.valid (by simp [annValue, lit, Ascii, chr]))
  have hstack : ∀ k, lineStackSize ≤ (freeRenderer.stack k).length := fun _ => Nat.le_of_eq List.length_replicate.symm
  exact json_lines_utf8 hname hvalid hcut ⟨rfl, rfl⟩ hsup hwhole hrec rfl hstack (fun _ h => by cases h) (by decide +kernel)
    (fun _ => .inr rfl) (jsonLineOf_json _)

/-- 126 letters and one of two bytes. -/
def cutValue : CStr := ⟨List.replicate 126 (chr 'a') ++ [0xc3, 0xa9], by decide +kernel⟩

theorem cutValue_valid : Valid cutValue.bytes := by
  refine Valid.append (Ascii.valid fun b hb => ?_) ⟨['é'], by decide +kernel⟩
  rw [List.eq_of_mem_replicate hb]
  decide

/-- Half a character is in the line. -/
theorem json_line_not_utf8 : ¬∀ (w : Writer) (name : CStr), w.loggerName = CStr.cut 128 name → Valid name.bytes →
    w.dup.repeats = 0 ∧ w.dup.haveLast = false → ∀ steps : List LogStep, (∀ step ∈ steps, step.Supplied) →
    ∀ rec ∈ (runLog ⟨w, .empty⟩ steps).2, ∀ (th : FmtCache) (e : Renderer) (ovs : List OverrideSnap)
      (haveDefaultTargets : Bool) (l : Line), e.lineCap = w.lineCap → (∀ k, lineStackSize ≤ (e.stack k).length) →
      (∀ max ∈ e.lineCap, jsonSize rec (e.localtime rec.timestampSec) < max.toNat) →
      (∀ k n, ((e.heap k).malloc n).isSome) → JsonLine th e rec ovs haveDefaultTargets l → Valid l.bytes := by
  intro h
  have hstack : ∀ k, lineStackSize ≤ (freeRenderer.stack k).length := fun _ => Nat.le_of_eq List.length_replicate.symm
  have hcap : ∀ max ∈ freeRenderer.lineCap,
      jsonSize (contextRecord cutValue) (freeRenderer.localtime (contextRecord cutValue).timestampSec) < max.toNat :=
    fun _ h => by cases h
  have hline := h appWriter ⟨lit "app", by decide⟩ (by decide) (Ascii.valid (by simp [lit, Ascii, chr])) ⟨rfl, rfl⟩ _
    (contextSteps_supplied cutValue_valid) (contextRecord cutValue)
    (by rw [contextSteps_records]; exact List.mem_singleton_self _) jsonCache freeRenderer [] true _ rfl hstack hcap
    (fun _ _ => rfl) (jsonLineOf_json _)
  rw [json_line_valid_iff hstack hcap (by decide +kernel) (fun _ => .inr rfl) (jsonLineOf_json _)] at hline
  have hcontext : cstrSeen (orEmpty (contextRecord cutValue).context) = lit "user=" ++ cutValue.bytes.take 127 := by
    decide +kernel
  have hvalue := hline.context
  rw [hcontext] at hvalue
  have hascii : Valid (lit "user=") := Ascii.valid (by simp [lit, Ascii, chr])
  have hbetween := (valid_take_iff cutValue_valid 127).mp (hascii.tail hvalue)
  exact absurd hbetween (by decide +kernel)

end HxClog
