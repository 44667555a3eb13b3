import Mathlib

/-!
# Texts in UTF-8

A text is valid when it is the encoding of some characters. Where a valid text may be cut
is seen from the byte behind the cut. An escaping of single bytes that touches ASCII
characters only keeps validity, and nothing invalid becomes valid by it.
-/

namespace Utf8

def Valid (s : List UInt8) : Prop := ∃ cs : List Char, s = cs.flatMap String.utf8EncodeChar

/-- The place in front of the `n`-th byte is not inside a character of a valid text. -/
def Between (n : Nat) (s : List UInt8) : Prop := ∀ b ∈ s[n]?, b.IsUTF8FirstByte

instance (n : Nat) (s : List UInt8) : Decidable (Between n s) := inferInstanceAs (Decidable (∀ b ∈ s[n]?, _))

/-- Only ASCII characters. -/
def Ascii (s : List UInt8) : Prop := ∀ b ∈ s, b < 128

instance (s : List UInt8) : Decidable (Ascii s) := inferInstanceAs (Decidable (∀ b ∈ s, b < 128))

theorem ascii_singleton {b : UInt8} : Ascii [b] ↔ b < 128 := by simp [Ascii]

theorem ascii_append {s t : List UInt8} : Ascii (s ++ t) ↔ Ascii s ∧ Ascii t := by
  unfold Ascii
  simp only [List.mem_append]
  constructor
  · exact fun h => ⟨fun b hb => h b (.inl hb), fun b hb => h b (.inr hb)⟩
  · rintro ⟨hs, ht⟩ b (hb | hb)
    · exact hs b hb
    · exact ht b hb

theorem between_of_le {n : Nat} {s : List UInt8} (h : s.length ≤ n) : Between n s := by
  intro b hb
  rw [List.getElem?_eq_none h] at hb
  cases hb

/-! ## Characters -/

theorem encode_ne_nil (c : Char) : String.utf8EncodeChar c ≠ [] := String.utf8EncodeChar_ne_nil

theorem encode_first {c : Char} {i : Nat} {b : UInt8} (h : (String.utf8EncodeChar c)[i]? = some b) :
    b.IsUTF8FirstByte ↔ i = 0 := by
  obtain ⟨hi, rfl⟩ := List.getElem?_eq_some_iff.mp h
  exact UInt8.isUTF8FirstByte_getElem_utf8EncodeChar

theorem le_or {a m : UInt8} (h : 128 ≤ m) : 128 ≤ a ||| m := by
  rw [UInt8.le_iff_toNat_le] at h ⊢
  rw [UInt8.toNat_or]
  exact h.trans Nat.right_le_or

/-- One ASCII byte, or only bytes that are not ASCII. -/
theorem encode_cases (c : Char) : (∃ b < (128 : UInt8), String.utf8EncodeChar c = [b]) ∨
    ∀ b ∈ String.utf8EncodeChar c, (128 : UInt8) ≤ b := by
  rw [String.utf8EncodeChar_eq_utf8EncodeCharFast]
  unfold String.utf8EncodeCharFast
  simp only
  split
  · rename_i h
    left
    refine ⟨c.val.toUInt8, ?_, rfl⟩
    rw [UInt32.le_iff_toNat_le] at h
    rw [UInt8.lt_iff_toNat_lt, UInt32.toNat_toUInt8]
    exact lt_of_le_of_lt (Nat.mod_le _ _) (Nat.lt_succ_of_le h)
  · right
    split
    · simp only [List.mem_cons, List.not_mem_nil, or_false]
      rintro b (rfl | rfl) <;> exact le_or (by decide)
    · split
      · simp only [List.mem_cons, List.not_mem_nil, or_false]
        rintro b (rfl | rfl | rfl) <;> exact le_or (by decide)
      · simp only [List.mem_cons, List.not_mem_nil, or_false]
        rintro b (rfl | rfl | rfl | rfl) <;> exact le_or (by decide)

theorem ascii_encode {b : UInt8} (h : b < 128) : String.utf8EncodeChar (Char.ofNat b.toNat) = [b] := by
  have hall : ∀ n < 128, String.utf8EncodeChar (Char.ofNat n) = [UInt8.ofNat n] := by decide +kernel
  have := hall b.toNat (UInt8.lt_iff_toNat_lt.mp h)
  rwa [UInt8.ofNat_toNat] at this

theorem ascii_first {b : UInt8} (h : b < 128) : b.IsUTF8FirstByte := by
  have hall : ∀ n < 128, (UInt8.ofNat n).IsUTF8FirstByte := by decide +kernel
  have := hall b.toNat (UInt8.lt_iff_toNat_lt.mp h)
  rwa [UInt8.ofNat_toNat] at this

/-- The first character of a text is determined by the text. -/
theorem encode_inj {c d : Char} {s t : List UInt8} (h : String.utf8EncodeChar c ++ s = String.utf8EncodeChar d ++ t) :
    c = d ∧ s = t := by
  have hdecode : ∀ (c : Char) (s : List UInt8), ByteArray.utf8DecodeChar? (String.utf8EncodeChar c ++ s).toByteArray 0 = some c := by
    intro c s
    rw [List.toByteArray_append]
    exact ByteArray.utf8DecodeChar?_utf8EncodeChar_append
  have hc := hdecode c s
  rw [h, hdecode d t] at hc
  cases hc
  exact ⟨rfl, List.append_cancel_left h⟩

/-! ## Valid texts -/

theorem Valid.nil : Valid [] := ⟨[], rfl⟩

theorem Valid.append {s t : List UInt8} : Valid s → Valid t → Valid (s ++ t) := by
  rintro ⟨cs, rfl⟩ ⟨ds, rfl⟩
  exact ⟨cs ++ ds, List.flatMap_append.symm⟩

theorem Valid.encode (c : Char) : Valid (String.utf8EncodeChar c) := ⟨[c], (List.append_nil _).symm⟩

theorem Ascii.valid : ∀ {s : List UInt8}, Ascii s → Valid s
  | [], _ => Valid.nil
  | b :: s, h => by
    have hb : Valid [b] := by
      rw [← ascii_encode (h b List.mem_cons_self)]
      exact Valid.encode _
    exact hb.append (Ascii.valid fun a ha => h a (List.mem_cons_of_mem b ha))

theorem Valid.head {s : List UInt8} (h : Valid s) : ∀ b ∈ s.head?, b.IsUTF8FirstByte := by
  obtain ⟨cs, rfl⟩ := h
  cases cs with
  | nil => simp
  | cons c cs =>
    intro b hb
    rw [List.flatMap_cons, List.head?_append_of_ne_nil _ (encode_ne_nil c), List.head?_eq_getElem?] at hb
    exact (encode_first hb).mpr rfl

/-- Behind a valid text comes a valid text. -/
theorem Valid.tail {s t : List UInt8} (hs : Valid s) (h : Valid (s ++ t)) : Valid t := by
  obtain ⟨cs, rfl⟩ := hs
  induction cs with
  | nil => exact h
  | cons c cs ih =>
    rw [List.flatMap_cons, List.append_assoc] at h
    obtain ⟨ds, hds⟩ := h
    cases ds with
    | nil =>
      rw [List.flatMap_nil, List.append_eq_nil_iff] at hds
      exact absurd hds.1 (encode_ne_nil c)
    | cons d ds =>
      rw [List.flatMap_cons] at hds
      exact ih ⟨ds, (encode_inj hds).2⟩

/-- In front of a first byte a valid text can be cut. -/
theorem Valid.front : ∀ {cs : List Char} {s t : List UInt8}, cs.flatMap String.utf8EncodeChar = s ++ t →
    (∀ b ∈ t.head?, b.IsUTF8FirstByte) → Valid s
  | [], s, t, h, _ => by
    rw [List.flatMap_nil, eq_comm, List.append_eq_nil_iff] at h
    rw [h.1]
    exact Valid.nil
  | c :: cs, s, t, h, ht => by
    rw [List.flatMap_cons] at h
    by_cases hs : s = []
    · rw [hs]
      exact Valid.nil
    rcases List.append_eq_append_iff.mp h with ⟨r, hr, hrest⟩ | ⟨r, hr, hrest⟩
    · rw [hr]
      exact (Valid.encode c).append (Valid.front hrest ht)
    · -- the cut is inside the first character, or right behind it
      cases r with
      | nil =>
        rw [List.append_nil] at hr
        rw [← hr]
        exact Valid.encode c
      | cons b r =>
        have hb : (String.utf8EncodeChar c)[s.length]? = some b := by
          rw [hr, List.getElem?_append_right (Nat.le_refl _), Nat.sub_self]
          rfl
        have hfirst := (encode_first hb).mp (ht b (by rw [hrest]; rfl))
        exact absurd (List.length_eq_zero_iff.mp hfirst) hs

theorem valid_append_iff {s t : List UInt8} (ht : ∀ b ∈ t.head?, b.IsUTF8FirstByte) :
    Valid (s ++ t) ↔ Valid s ∧ Valid t := by
  constructor
  · rintro ⟨cs, hcs⟩
    have hs := Valid.front hcs.symm ht
    exact ⟨hs, hs.tail ⟨cs, hcs⟩⟩
  · rintro ⟨hs, ht⟩
    exact hs.append ht

/-- Where a valid text can be cut. -/
theorem valid_take_iff {s : List UInt8} (h : Valid s) (n : Nat) : Valid (s.take n) ↔ Between n s := by
  have hhead : (s.drop n).head? = s[n]? := List.head?_drop
  rw [← List.take_append_drop n s] at h
  constructor
  · intro hs b hb
    exact (hs.tail h).head b (by rw [hhead]; exact hb)
  · intro hb
    exact ((valid_append_iff fun b hm => hb b (by rw [← hhead]; exact hm)).mp h).1

/-! ## Escaping -/

section
variable {f : UInt8 → List UInt8} (hhigh : ∀ b, 128 ≤ b → f b = [b]) (hlow : ∀ b < 128, Ascii (f b)) (hne : ∀ b, f b ≠ [])
include hhigh

theorem flatMap_high : ∀ {s : List UInt8}, (∀ b ∈ s, 128 ≤ b) → s.flatMap f = s
  | [], _ => rfl
  | b :: s, h => by
    rw [List.flatMap_cons, hhigh b (h b List.mem_cons_self), flatMap_high fun a ha => h a (List.mem_cons_of_mem b ha)]
    rfl

include hlow

theorem Valid.escape {s : List UInt8} (h : Valid s) : Valid (s.flatMap f) := by
  obtain ⟨cs, rfl⟩ := h
  induction cs with
  | nil => exact Valid.nil
  | cons c cs ih =>
    rw [List.flatMap_cons, List.flatMap_append]
    refine Valid.append ?_ ih
    rcases encode_cases c with ⟨b, hb, hc⟩ | hall
    · rw [hc, List.flatMap_singleton]
      exact (hlow b hb).valid
    · rw [flatMap_high hhigh hall]
      exact Valid.encode c

include hne

/-- Bytes that are not ASCII have not been escaped. -/
theorem flatMap_strip : ∀ {w s r : List UInt8}, (∀ b ∈ w, 128 ≤ b) → s.flatMap f = w ++ r →
    ∃ s', s = w ++ s' ∧ s'.flatMap f = r
  | [], s, r, _, h => ⟨s, rfl, h⟩
  | b :: w, [], r, _, h => by simp at h
  | b :: w, a :: s, r, hw, h => by
    have hb : 128 ≤ b := hw b List.mem_cons_self
    rw [List.flatMap_cons, List.cons_append] at h
    by_cases ha : a < 128
    · obtain ⟨x, xs, hx⟩ := List.exists_cons_of_ne_nil (hne a)
      rw [hx, List.cons_append] at h
      have hlt : x < 128 := hlow a ha x (by rw [hx]; exact List.mem_cons_self)
      rw [(List.cons.inj h).1] at hlt
      exact absurd hb (UInt8.not_le.mpr hlt)
    · rw [hhigh a (UInt8.not_lt.mp ha), List.singleton_append] at h
      obtain ⟨s', hs, hr⟩ := flatMap_strip (fun c hc => hw c (List.mem_cons_of_mem b hc)) (List.cons.inj h).2
      exact ⟨s', by rw [(List.cons.inj h).1, hs]; rfl, hr⟩

theorem valid_of_escape : ∀ {n : Nat} {s : List UInt8}, s.length ≤ n → Valid (s.flatMap f) → Valid s
  | _, [], _, _ => Valid.nil
  | 0, _ :: _, hn, _ => absurd hn (Nat.not_succ_le_zero _)
  | n + 1, a :: s, hn, h => by
    rw [List.length_cons] at hn
    by_cases ha : a < 128
    · rw [List.flatMap_cons] at h
      have hs := valid_of_escape (Nat.le_of_succ_le_succ hn) ((hlow a ha).valid.tail h)
      refine Valid.append (s := [a]) (Ascii.valid fun b hb => ?_) hs
      rw [List.mem_singleton] at hb
      exact hb ▸ ha
    · obtain ⟨cs, hcs⟩ := h
      cases cs with
      | nil => exact absurd (List.append_eq_nil_iff.mp hcs).1 (hne a)
      | cons c cs =>
        rw [List.flatMap_cons (f := String.utf8EncodeChar)] at hcs
        have hfirst : ∃ w, String.utf8EncodeChar c = a :: w := by
          obtain ⟨x, w, hw⟩ := List.exists_cons_of_ne_nil (encode_ne_nil c)
          rw [List.flatMap_cons, hhigh a (UInt8.not_lt.mp ha), hw] at hcs
          exact ⟨w, by rw [hw, (List.cons.inj hcs).1]⟩
        obtain ⟨w, hw⟩ := hfirst
        have hall : ∀ b ∈ String.utf8EncodeChar c, 128 ≤ b := by
          refine (encode_cases c).resolve_left ?_
          rintro ⟨b, hb, hc⟩
          rw [hw] at hc
          exact ha ((List.cons.inj hc).1 ▸ hb)
        obtain ⟨s', hs, hr⟩ := flatMap_strip hhigh hlow hne hall hcs
        have hlen : s'.length ≤ n := by
          have := congrArg List.length hs
          have hpos := List.length_pos_of_ne_nil (encode_ne_nil c)
          rw [List.length_cons, List.length_append] at this
          omega
        rw [hs]
        exact (Valid.encode c).append (valid_of_escape hlen ⟨cs, hr⟩)

theorem valid_escape_iff {s : List UInt8} : Valid (s.flatMap f) ↔ Valid s :=
  ⟨valid_of_escape hhigh hlow hne (Nat.le_refl _), Valid.escape hhigh hlow⟩

end

/-! ## Pieces between ASCII texts -/

/-- Pieces with an ASCII text in front of each, and one behind the last. -/
theorem valid_pieces_iff {last : List UInt8} (hlast : Ascii last) : ∀ {ps : List (List UInt8 × List UInt8)},
    (∀ p ∈ ps, Ascii p.1 ∧ p.1 ≠ []) → (Valid (ps.flatMap (fun p => p.1 ++ p.2) ++ last) ↔ ∀ p ∈ ps, Valid p.2)
  | [], _ => by simp [hlast.valid]
  | p :: ps, h => by
    have ih := valid_pieces_iff hlast fun q hq => h q (List.mem_cons_of_mem p hq)
    obtain ⟨hp, -⟩ := h p List.mem_cons_self
    have hhead : ∀ b ∈ (ps.flatMap (fun p => p.1 ++ p.2) ++ last).head?, b.IsUTF8FirstByte := by
      cases ps with
      | nil =>
        intro b hb
        cases last with
        | nil => simp at hb
        | cons a last => exact ascii_first (hlast b (by simp at hb; simp [hb]))
      | cons q ps =>
        obtain ⟨hq, hne⟩ := h q (List.mem_cons_of_mem p List.mem_cons_self)
        obtain ⟨a, w, hw⟩ := List.exists_cons_of_ne_nil hne
        intro b hb
        rw [List.flatMap_cons, hw] at hb
        have hab : a = b := by simpa using hb
        exact ascii_first (hq b (by rw [hw, hab]; exact List.mem_cons_self))
    rw [List.flatMap_cons, List.append_assoc, List.append_assoc]
    constructor
    · intro hv
      obtain ⟨hpiece, hrest⟩ := (valid_append_iff hhead).mp (hp.valid.tail hv)
      intro q hq
      rcases List.mem_cons.mp hq with rfl | hq
      · exact hpiece
      · exact ih.mp hrest q hq
    · intro hall
      refine hp.valid.append ((hall p List.mem_cons_self).append (ih.mpr fun q hq => hall q (List.mem_cons_of_mem p hq)))

end Utf8
