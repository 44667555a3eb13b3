import HxClog.FormatSound

/-!
# Rendering a record into a line

`format_with_retry` renders into the caller's buffer and, when the text does not
fit, once more into a block of the length the first rendering asked for, cut to
the line cap. With the built-in formatters the line is the text of the record;
with any formatter it stays inside its buffer, unless the first length is the
largest `unsigned int` there is or the line cap is zero.
-/

namespace HxClog

open C

inductive FormatMode where
  | pattern
  | json
  deriving DecidableEq, Repr

/-- `hx_clog_formatter_t` with its user data: what it does when it is called for
the `n`-th time on one record. -/
abbrev Formatter := Nat → Record → Bytes → Nat → UInt32 × Bytes

structure Format where
  pattern : Option CStr
  mode : FormatMode
  formatter : Option Formatter

def formatLine (localtime : Int → Tm) (fmt : Format) (call : Nat) (rec : Record) (out : Bytes) (outSize : Nat) :
    Nat × Bytes :=
  match fmt.formatter with
  | some f =>
    let (n, out) := f call rec out outSize
    let w := if outSize ≤ n.toNat then outSize - 1 else n.toNat
    (n.toNat, if 0 < outSize then out.set w 0 else out)
  | none =>
    match fmt.mode with
    | .json => hxFormatJsonRecord localtime rec out outSize
    | .pattern => hxFormatRecord localtime fmt.pattern rec out outSize

/-- `hx_clamp_line`; no cap stands for `HX_CLOG_UNLIMITED_LINE`. -/
def hxClampLine (lineCap : Option UInt32) (need : Nat) : Nat :=
  match lineCap with
  | none => need
  | some max => if max.toNat < need then max.toNat else need

/-- `hx_clog__malloc`: a block of the size asked for, with any content, or nothing. -/
structure Heap where
  malloc : Nat → Option Bytes
  size : ∀ n b, malloc n = some b → b.length = n

/-- `*line_out` and `*len_out`, with the block the line points into. -/
structure Formatted where
  onHeap : Bool
  block : Bytes
  capacity : Nat
  len : Nat

def Formatted.line (f : Formatted) : Bytes := f.block.take f.len

def formatWithRetry (localtime : Int → Tm) (lineCap : Option UInt32) (heap : Heap) (fmt : Format) (rec : Record)
    (stackbuf : Bytes) (stackSize : Nat) : Formatted :=
  let (needed, stackbuf) := formatLine localtime fmt 0 rec stackbuf stackSize
  if u32 (needed + 1) ≤ stackSize then ⟨false, stackbuf, stackSize, needed⟩
  else
    let want := if needed < uintMax then needed + 1 else uintMax
    let cap := hxClampLine lineCap want
    match heap.malloc cap with
    | some hp =>
      let (got, hp) := formatLine localtime fmt 1 rec hp cap
      ⟨true, hp, cap, if u32Sub cap 1 < got then u32Sub cap 1 else got⟩
    | none => ⟨false, stackbuf, stackSize, stackSize - 1⟩

/-! ## The line is the text -/

theorem formatted_fits {R mem : Bytes} {cap : Nat} (h : R.length + 1 ≤ cap) :
    (formatted R mem cap).2.take R.length = R := by
  have hmin : min R.length (cap - 1) = R.length := Nat.min_eq_left (by omega)
  simp only [formatted, hmin, List.take_length, List.take_left]

theorem formatted_cut {R mem : Bytes} {cap : Nat} (h : cap - 1 ≤ R.length) :
    (formatted R mem cap).2.take (cap - 1) = R.take (cap - 1) := by
  have hlen : (R.take (cap - 1)).length = cap - 1 := List.length_take_of_le h
  simp only [formatted, Nat.min_eq_right h, List.take_left' hlen]

theorem formatted_fst {R : Bytes} (mem : Bytes) (cap : Nat) (h : R.length < uintMax) : (formatted R mem cap).1 = R.length :=
  Nat.min_eq_left (Nat.le_of_lt h)

theorem clamp_le (lineCap : Option UInt32) (need : Nat) : hxClampLine lineCap need ≤ need := by
  unfold hxClampLine
  split
  · exact Nat.le_refl _
  · split <;> omega

theorem clamp_pos {lineCap : Option UInt32} {need : Nat} (hn : 0 < need) (hc : lineCap ≠ some 0) :
    0 < hxClampLine lineCap need := by
  unfold hxClampLine
  split
  · exact hn
  · rename_i max
    have hm : max.toNat ≠ 0 := fun h0 => hc (by rw [UInt32.toNat_inj.mp (show max.toNat = (0 : UInt32).toNat from h0)])
    split <;> omega

theorem fits_heap {heap : Heap} {n : Nat} {b : Bytes} (h : heap.malloc n = some b) (hpos : 0 < n) (hlt : n < 2 ^ 32) :
    Fits b n := ⟨hpos, Nat.le_of_eq (heap.size n b h).symm, hlt⟩

def midnight : Tm :=
  ⟨70, 0, 1, 0, 0, 0, 0, by decide, by decide, by decide, by decide, by decide, by decide, by decide⟩

def shortRecord : Record :=
  { level := 2, loggerName := none, file := none, line := 7, func := none, pid := 1, tid := 1, timestampSec := 0,
    timestampMsec := 0, message := some [97, 98], messageLen := 2, context := none,
    readable := by rintro m ⟨⟩; decide }

/-- The length the first rendering asks for: what a custom formatter returns,
or the length of the text, which saturates. -/
def requiredLength (localtime : Int → Tm) (fmt : Format) (rec : Record) (stackbuf : Bytes) (stackSize : Nat) : Nat :=
  match fmt.formatter with
  | some f => (f 0 rec stackbuf stackSize).1.toNat
  | none =>
    match fmt.mode with
    | .json => min (jsonText rec (localtime rec.timestampSec)).length uintMax
    | .pattern => min (patternText localtime fmt.pattern rec).length uintMax

theorem formatLine_required (localtime : Int → Tm) (fmt : Format) (rec : Record) {stackbuf : Bytes} {stackSize : Nat}
    (hs : Fits stackbuf stackSize) :
    (formatLine localtime fmt 0 rec stackbuf stackSize).1 = requiredLength localtime fmt rec stackbuf stackSize := by
  unfold formatLine requiredLength
  split
  · rfl
  · split
    · rw [hxFormatJsonRecord_spec localtime rec hs]; rfl
    · rw [hxFormatRecord_spec localtime _ rec hs]; rfl

theorem requiredLength_le (localtime : Int → Tm) (fmt : Format) (rec : Record) (stackbuf : Bytes) (stackSize : Nat) :
    requiredLength localtime fmt rec stackbuf stackSize ≤ uintMax := by
  unfold requiredLength
  split
  · exact Nat.le_sub_one_of_lt (UInt32.toNat_lt _)
  · split <;> exact Nat.min_le_right _ _

theorem clamp_eq_zero {lineCap : Option UInt32} {need : Nat} (hn : 0 < need) :
    hxClampLine lineCap need = 0 ↔ lineCap = some 0 := by
  constructor
  · intro h
    by_contra hc
    have := clamp_pos hn hc
    omega
  · rintro rfl
    exact if_pos hn

/-- The line claims fewer bytes than its buffer has, so that the terminator fits
too, exactly when the first length is not the largest there is and no block of
zero bytes is rendered into. -/
theorem line_within_buffer_iff (localtime : Int → Tm) (lineCap : Option UInt32) (heap : Heap) (fmt : Format)
    (rec : Record) {stackbuf : Bytes} {stackSize : Nat} (hs : Fits stackbuf stackSize) :
    (formatWithRetry localtime lineCap heap fmt rec stackbuf stackSize).len <
        (formatWithRetry localtime lineCap heap fmt rec stackbuf stackSize).capacity ↔
      requiredLength localtime fmt rec stackbuf stackSize ≠ 2 ^ 32 - 1 ∧
      ¬(stackSize ≤ requiredLength localtime fmt rec stackbuf stackSize ∧ lineCap = some 0 ∧ (heap.malloc 0).isSome) := by
  have hle := requiredLength_le localtime fmt rec stackbuf stackSize
  have hspos := hs.pos
  have hsmall := hs.small
  unfold formatWithRetry
  simp only [formatLine_required localtime fmt rec hs]
  generalize requiredLength localtime fmt rec stackbuf stackSize = needed at hle ⊢
  unfold uintMax at hle ⊢
  rcases Nat.lt_or_ge needed (2 ^ 32 - 1) with hlt | hge
  · rw [u32_of_lt (by omega), if_pos hlt]
    split
    · rename_i hfit
      exact iff_of_true (by simp only; omega) ⟨by omega, by omega⟩
    · rename_i hlong
      cases hmalloc : heap.malloc (hxClampLine lineCap (needed + 1)) with
      | none =>
        refine iff_of_true (by simp only; omega) ⟨by omega, ?_⟩
        rintro ⟨_, hc, hsome⟩
        rw [(clamp_eq_zero (Nat.succ_pos needed)).mpr hc] at hmalloc
        rw [hmalloc] at hsome
        cases hsome
      | some hp =>
        simp only
        rcases Nat.eq_zero_or_pos (hxClampLine lineCap (needed + 1)) with h0 | hpos
        · refine iff_of_false (by omega) fun h => h.2 ⟨by omega, (clamp_eq_zero (Nat.succ_pos needed)).mp h0, ?_⟩
          rw [← h0, hmalloc]
          rfl
        · have hcap := clamp_le lineCap (needed + 1)
          have hsub := u32Sub_of_le hpos (by omega)
          refine iff_of_true ?_ ⟨by omega, ?_⟩
          · rw [hsub]
            split <;> omega
          · rintro ⟨_, hc, _⟩
            rw [(clamp_eq_zero (Nat.succ_pos needed)).mpr hc] at hpos
            omega
  · obtain rfl : needed = 2 ^ 32 - 1 := by omega
    have hwrap : u32 (2 ^ 32 - 1 + 1) ≤ stackSize := by
      rw [show u32 (2 ^ 32 - 1 + 1) = 0 from rfl]; omega
    rw [if_pos hwrap]
    exact iff_of_false (by simp only; omega) fun h => h.1 rfl

/-- A formatter whose `snprintf` failed, and which returns the result as it is. -/
def failingFormatter : Formatter := fun _ _ out _ => (0xffffffff, out)

def noHeap : Heap := ⟨fun _ => none, fun _ _ h => nomatch h⟩

theorem line_within_buffer_plain :
    (formatWithRetry (fun _ => midnight) (some 524288) noHeap ⟨some ⟨[37, 118], by decide⟩, .pattern, none⟩ shortRecord
      [9, 9, 9, 9] 4).len < 4 :=
  (line_within_buffer_iff (fun _ => midnight) (some 524288) noHeap ⟨some ⟨[37, 118], by decide⟩, .pattern, none⟩
    shortRecord ⟨by decide, by decide, by decide⟩).mpr
    ⟨by decide, by decide⟩

/-- The line is said to have `2 ^ 32 - 1` bytes, in the buffer of 1280 that
`core_dispatch_record` has on its stack. -/
theorem line_beyond_buffer :
    (formatWithRetry (fun _ => midnight) (some 524288) noHeap ⟨none, .pattern, some failingFormatter⟩ shortRecord
      (List.replicate 1280 0) 1280).len = 4294967295 ∧
    (formatWithRetry (fun _ => midnight) (some 524288) noHeap ⟨none, .pattern, some failingFormatter⟩ shortRecord
      (List.replicate 1280 0) 1280).capacity = 1280 :=
  ⟨rfl, rfl⟩

end HxClog
