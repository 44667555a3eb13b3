import HxClog.DupSound

/-!
# The message of a record

`core_writev` expands a short message in its stack buffer and takes the length that
`vsnprintf` returns. A long one it expands once more on the heap, under the line cap,
and looks for the end of it.
-/

namespace HxClog

open C

/-- How many bytes of a message of `n` bytes the line cap leaves. -/
def messageLimit (lineCap : Option UInt32) (n : Nat) : Nat :=
  match lineCap with
  | none => n
  | some max => min n (max.toNat - 1)

theorem messageLimit_le (lineCap : Option UInt32) (n : Nat) : messageLimit lineCap n ≤ n := by
  unfold messageLimit
  cases lineCap with
  | none => exact Nat.le_refl n
  | some max => exact Nat.min_le_left n _

theorem clamp_message (lineCap : Option UInt32) (n : Nat) : hxClampLine lineCap (n + 1) - 1 = messageLimit lineCap n := by
  unfold hxClampLine messageLimit
  cases lineCap with
  | none => rfl
  | some max =>
    simp only
    split
    · rw [Nat.min_eq_right (by omega)]
    · rw [Nat.min_eq_left (by omega)]
      rfl

section
variable {lineCap : Option UInt32} {text : Bytes}

theorem messageBody_stack {heapOk : Bool} (h : text.length < stackBufSize) : messageBody lineCap heapOk text = text :=
  if_pos h

/-- On the heap the message ends at the first NUL. -/
theorem messageBody_heap (h : ¬text.length < stackBufSize) :
    messageBody lineCap true text = (text.take (messageLimit lineCap text.length)).takeWhile (· ≠ 0) := by
  unfold messageBody
  rw [if_neg h, if_pos rfl, cut, clamp_message]

theorem messageLimit_stack (hcap : ∀ max ∈ lineCap, stackBufSize < max.toNat) (h : text.length < stackBufSize) :
    messageLimit lineCap text.length = text.length := by
  unfold messageLimit
  cases lineCap with
  | none => rfl
  | some max =>
    have := hcap max rfl
    exact Nat.min_eq_left (by omega)

theorem messageBody_iff (hcap : ∀ max ∈ lineCap, stackBufSize < max.toNat) :
    messageBody lineCap true text = text.take (messageLimit lineCap text.length) ↔
      text.length < stackBufSize ∨ 0 ∉ text.take (messageLimit lineCap text.length) := by
  by_cases h : text.length < stackBufSize
  · rw [messageBody_stack h, messageLimit_stack hcap h, List.take_length]
    simp [h]
  · rw [messageBody_heap h, List.takeWhile_eq_self_iff]
    simp only [h, false_or, ne_eq, decide_eq_true_eq]
    constructor
    · exact fun hall h0 => hall 0 h0 rfl
    · rintro hno c hc rfl
      exact hno hc

theorem messageBody_length (heapOk : Bool) : (messageBody lineCap heapOk text).length ≤ text.length := by
  unfold messageBody
  split
  · exact Nat.le_refl _
  · split
    · exact (List.takeWhile_prefix _).length_le.trans (by rw [cut_length]; exact Nat.min_le_right _ _)
    · rw [List.length_take]
      exact Nat.min_le_right _ _

end

/-- The bytes of the record are those of the message. -/
theorem record_body (w : Writer) (c : WriteCall) {text : Bytes} (h : text.length < 2 ^ 32) :
    (w.record c text).body = messageBody w.lineCap c.heapOk text ∧
      (w.record c text).messageLen.toNat = (messageBody w.lineCap c.heapOk text).length := by
  have hlen : (messageBody w.lineCap c.heapOk text).length ≤ text.length := messageBody_length c.heapOk
  have hsmall : (messageBody w.lineCap c.heapOk text).length.toUInt32.toNat = (messageBody w.lineCap c.heapOk text).length :=
    Nat.mod_eq_of_lt (by omega)
  refine ⟨?_, hsmall⟩
  unfold Record.body Writer.record recordOf
  simp only [Option.map_some, Option.getD_some, hsmall, List.take_length]

/-- Both paths leave the same message, unless one that is too long for the stack has a NUL in it. -/
theorem message_paths_agree_iff (w : Writer) (c : WriteCall) {text : Bytes} (hlen : text.length < 2 ^ 31 - 1)
    (hcap : ∀ max ∈ w.lineCap, stackBufSize < max.toNat) (halloc : c.heapOk = true) :
    (w.record c text).body = text.take (messageLimit w.lineCap text.length) ∧
        (w.record c text).messageLen.toNat = messageLimit w.lineCap text.length ↔
      text.length < stackBufSize ∨ 0 ∉ text.take (messageLimit w.lineCap text.length) := by
  obtain ⟨hbody, hcount⟩ := record_body w c (hlen.trans (by decide))
  rw [halloc] at hbody hcount
  rw [hbody, hcount, ← messageBody_iff hcap]
  constructor
  · exact fun h => h.1
  · intro h
    refine ⟨h, ?_⟩
    rw [h, List.length_take]
    exact Nat.min_eq_left (messageLimit_le _ _)

theorem message_paths_agree_short :
    (appWriter.record (appCall [chr 'a', 0, chr 'b'] 5) [chr 'a', 0, chr 'b']).body = [chr 'a', 0, chr 'b'] ∧
      (appWriter.record (appCall [chr 'a', 0, chr 'b'] 5) [chr 'a', 0, chr 'b']).messageLen.toNat = 3 :=
  (message_paths_agree_iff appWriter (appCall [chr 'a', 0, chr 'b'] 5) (by decide)
    (fun _ h => by cases h) rfl).mpr (.inl (by decide))

/-- A NUL in front of more than the stack buffer holds. -/
def nulText : Bytes := 0 :: List.replicate stackBufSize (chr 'a')

/-- The message of a long text is cut at its first NUL. -/
theorem message_paths_disagree : ¬∀ (w : Writer) (c : WriteCall) (text : Bytes), text.length < 2 ^ 31 - 1 →
    (∀ max ∈ w.lineCap, stackBufSize < max.toNat) → c.heapOk = true →
      (w.record c text).body = text.take (messageLimit w.lineCap text.length) ∧
        (w.record c text).messageLen.toNat = messageLimit w.lineCap text.length := by
  intro h
  have hlen : nulText.length = stackBufSize + 1 := by
    unfold nulText
    rw [List.length_cons, List.length_replicate]
  have hsmall : nulText.length < 2 ^ 31 - 1 := by
    rw [hlen]
    decide
  have hcap : ∀ max ∈ appWriter.lineCap, stackBufSize < max.toNat := fun _ h => by cases h
  have hagree := h appWriter (appCall nulText 5) nulText hsmall hcap rfl
  rw [message_paths_agree_iff appWriter (appCall nulText 5) hsmall hcap rfl] at hagree
  rcases hagree with hshort | hnul
  · rw [hlen] at hshort
    omega
  · rw [show messageLimit appWriter.lineCap nulText.length = nulText.length from rfl, List.take_length] at hnul
    exact hnul List.mem_cons_self

end HxClog
