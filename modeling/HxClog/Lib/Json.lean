import HxClog.Lib.Scan

/-!
# Flat JSON objects

A byte-level reader for objects whose values are strings and unsigned numbers, in
the compact form without blanks. Bytes from 0x20 on are taken as they are. A
writer that spells each byte of a string in a way the reader undoes is undone as a
whole.
-/

namespace Json

open C Decimal Scan

inductive Value where
  | str (s : Bytes)
  | num (n : Nat)
  deriving DecidableEq

abbrev Object := List (Bytes × Value)

def quote : UInt8 := chr '\x22'

def backslash : UInt8 := chr '\\'

/-! ## Reading -/

def hexValue (c : UInt8) : Option Nat :=
  if isDigit c then some (c.toNat - 48)
  else if 97 ≤ c ∧ c ≤ 102 then some (c.toNat - 87)
  else if 65 ≤ c ∧ c ≤ 70 then some (c.toNat - 55)
  else none

/-- The bytes of a code unit. -/
def utf8 (n : Nat) : Bytes :=
  if n < 0x80 then [UInt8.ofNat n]
  else if n < 0x800 then [UInt8.ofNat (0xc0 + n / 64), UInt8.ofNat (0x80 + n % 64)]
  else [UInt8.ofNat (0xe0 + n / 4096), UInt8.ofNat (0x80 + n / 64 % 64), UInt8.ofNat (0x80 + n % 64)]

/-- The byte that a backslash and this character stand for. -/
def unescape (c : UInt8) : Option UInt8 :=
  match Char.ofNat c.toNat with
  | '\x22' => some (chr '\x22')
  | '\\' => some (chr '\\')
  | '/' => some (chr '/')
  | 'b' => some 8
  | 'f' => some 12
  | 'n' => some 10
  | 'r' => some 13
  | 't' => some 9
  | _ => none

/-- What is in front of the closing quote, and what is behind it. -/
def readString : Bytes → Option (Bytes × Bytes)
  | [] => none
  | c :: s =>
    if c = quote then some ([], s)
    else if c = backslash then
      match s with
      | [] => none
      | e :: s =>
        if e = chr 'u' then
          match s with
          | h₁ :: h₂ :: h₃ :: h₄ :: s => do
            let n := (← hexValue h₁) * 4096 + (← hexValue h₂) * 256 + (← hexValue h₃) * 16 + (← hexValue h₄)
            let (t, s) ← readString s
            some (utf8 n ++ t, s)
          | _ => none
        else do
          let b ← unescape e
          let (t, s) ← readString s
          some (b :: t, s)
    -- a control character has to be escaped
    else if c < 32 then none
    else do
      let (t, s) ← readString s
      some (c :: t, s)

/-- An unsigned integer, without leading zeros. -/
def readNumber (s : Bytes) : Option (Nat × Bytes) :=
  let ds := s.takeWhile isDigit
  if ds = [] ∨ ds.head? = some (digit 0) ∧ ds.length ≠ 1 then none
  else some (value ds, s.drop ds.length)

def readValue : Bytes → Option (Value × Bytes)
  | [] => none
  | c :: s =>
    if c = quote then (readString s).map fun (t, s) => (.str t, s)
    else (readNumber (c :: s)).map fun (n, s) => (.num n, s)

def readMember (s : Bytes) : Option ((Bytes × Value) × Bytes) := do
  let s ← expect quote s
  let (key, s) ← readString s
  let s ← expect (chr ':') s
  let (v, s) ← readValue s
  some ((key, v), s)

/-- The members up to the closing brace, at most `fuel` of them. -/
def readMembers : Nat → Bytes → Option (Object × Bytes)
  | 0, _ => none
  | fuel + 1, s =>
    match readMember s with
    | none | some (_, []) => none
    | some (m, c :: s) =>
      if c = chr ',' then (readMembers fuel s).map fun (members, s) => (m :: members, s)
      else if c = chr '\x7d' then some ([m], s)
      else none

def readObject (s : Bytes) : Option (Object × Bytes) := do
  let s ← expect (chr '\x7b') s
  match expect (chr '\x7d') s with
  | some s => some ([], s)
  | none => readMembers s.length s

/-! ## Writing -/

section

variable (esc : UInt8 → Bytes)

def stringText (s : Bytes) : Bytes := quote :: (s.flatMap esc ++ [quote])

def valueText : Value → Bytes
  | .str s => stringText esc s
  | .num n => text n

def memberText (m : Bytes × Value) : Bytes := stringText esc m.1 ++ chr ':' :: valueText esc m.2

/-- The members, with the closing brace. -/
def membersText : Object → Bytes
  | [] => [chr '\x7d']
  | [m] => memberText esc m ++ [chr '\x7d']
  | m :: m' :: ms => memberText esc m ++ chr ',' :: membersText (m' :: ms)

def objectText (o : Object) : Bytes := chr '\x7b' :: membersText esc o

/-- The reader undoes the spelling of a byte. -/
def Undone (b : UInt8) : Prop := ∀ s, readString (esc b ++ s) = (readString s).map fun (t, s) => (b :: t, s)

end

/-! ## Reading back -/

theorem digit_inj {a b : Nat} (ha : a < 10) (hb : b < 10) (h : digit a = digit b) : a = b := by
  rw [← digit_toNat ha, h, digit_toNat hb]

/-- A text of more than one digit starts with no zero. -/
theorem text_lead (n : Nat) : ¬((text n).head? = some (digit 0) ∧ (text n).length ≠ 1) := by
  rintro ⟨hhead, hlen⟩
  unfold text at hhead hlen
  split at hhead
  · rename_i h0
    rw [if_pos h0] at hlen
    exact hlen rfl
  · rename_i h0
    have hne : Nat.digits 10 n ≠ [] := Nat.digits_ne_nil_iff_ne_zero.mpr h0
    rw [List.head?_reverse, List.getLast?_map, List.getLast?_eq_some_getLast hne, Option.map_some,
      Option.some.injEq] at hhead
    have hlast := Nat.digits_lt_base (by decide) (List.getLast_mem hne)
    exact Nat.getLast_digit_ne_zero 10 h0 (digit_inj hlast (by decide) hhead)

theorem readNumber_text (n : Nat) {r : Bytes} (hr : NoDigit r) : readNumber (text n ++ r) = some (n, r) := by
  have hds : (text n ++ r).takeWhile isDigit = text n := takeWhile_append_stop (text_digit n) hr
  unfold readNumber
  simp only [hds]
  rw [if_neg, value_text, List.drop_left]
  rintro (h | h)
  · exact text_ne_nil n h
  · exact text_lead n h

section

variable {esc : UInt8 → Bytes} (hesc : ∀ b, Undone esc b)
include hesc

theorem readString_text : ∀ (s r : Bytes), readString (s.flatMap esc ++ quote :: r) = some (s, r)
  | [], r => by
    rw [List.flatMap_nil, List.nil_append]
    unfold readString
    rw [if_pos rfl]
  | b :: s, r => by
    rw [List.flatMap_cons, List.append_assoc, hesc, readString_text s r]
    rfl

theorem readValue_text (v : Value) {r : Bytes} (hr : NoDigit r) : readValue (valueText esc v ++ r) = some (v, r) := by
  cases v with
  | str s =>
    have htext : valueText esc (.str s) ++ r = quote :: (s.flatMap esc ++ quote :: r) := by
      unfold valueText stringText
      simp
    rw [htext, readValue, if_pos rfl, readString_text hesc]
    rfl
  | num n =>
    have hread := readNumber_text n hr
    rw [show valueText esc (.num n) = text n from rfl]
    cases ht : text n with
    | nil => exact absurd ht (text_ne_nil n)
    | cons c t =>
      have hc : c ≠ quote := by
        rintro rfl
        have := text_digit n quote (by rw [ht]; exact List.mem_cons_self ..)
        cases this
      rw [ht, List.cons_append] at hread
      rw [List.cons_append, readValue, if_neg hc, hread]
      rfl

theorem readMember_text (m : Bytes × Value) {r : Bytes} (hr : NoDigit r) :
    readMember (memberText esc m ++ r) = some (m, r) := by
  have hkey := readString_text hesc m.1 (chr ':' :: (valueText esc m.2 ++ r))
  have hval := readValue_text hesc m.2 hr
  have htext : memberText esc m ++ r =
      quote :: (m.1.flatMap esc ++ quote :: chr ':' :: (valueText esc m.2 ++ r)) := by
    unfold memberText stringText
    simp
  unfold readMember
  rw [htext]
  simp only [expect_cons, Option.bind_eq_bind, Option.bind_some, hkey, hval]

theorem readMembers_text : ∀ (o : Object) (fuel : Nat) (r : Bytes), o ≠ [] → o.length ≤ fuel →
    readMembers fuel (membersText esc o ++ r) = some (o, r)
  | [], _, _, hne, _ => absurd rfl hne
  | [m], 0, _, _, hf => absurd hf (by simp)
  | m :: m' :: o, 0, _, _, hf => absurd hf (by simp)
  | [m], fuel + 1, r, _, _ => by
    unfold readMembers
    rw [membersText, List.append_assoc, List.singleton_append, readMember_text hesc m (noDigit_cons rfl r)]
    simp only
    rw [if_neg (by decide), if_pos trivial]
  | m :: m' :: o, fuel + 1, r, _, hf => by
    have ih := readMembers_text (m' :: o) fuel r (by simp) (Nat.le_of_succ_le_succ hf)
    unfold readMembers
    rw [membersText, List.append_assoc, List.cons_append, readMember_text hesc m (noDigit_cons rfl _)]
    simp only
    rw [if_pos trivial, ih]
    rfl

omit hesc in
theorem membersText_length : ∀ o : Object, o.length ≤ (membersText esc o).length
  | [] => Nat.zero_le _
  | [m] => by
    rw [membersText, List.length_append]
    simp
  | m :: m' :: o => by
    have ih := membersText_length (m' :: o)
    simp only [membersText, List.length_append, List.length_cons] at ih ⊢
    omega

/-- The reader takes back the text of an object. -/
theorem readObject_text (o : Object) (r : Bytes) : readObject (objectText esc o ++ r) = some (o, r) := by
  unfold readObject objectText
  rw [List.cons_append]
  simp only [expect_cons, Option.bind_eq_bind, Option.bind_some]
  cases o with
  | nil => rfl
  | cons m o =>
    have hhead : expect (chr '\x7d') (membersText esc (m :: o) ++ r) = none := by
      cases o <;> rfl
    rw [hhead]
    refine readMembers_text hesc (m :: o) _ r (by simp) ?_
    have := @membersText_length esc (m :: o)
    rw [List.length_append]
    omega

end

/-! ## Lengths -/

theorem member_length {esc : UInt8 → Bytes} {m : Bytes × Value} : ∀ {o : Object}, m ∈ o →
    (memberText esc m).length ≤ (membersText esc o).length
  | [m'], h => by
    rw [List.mem_singleton.mp h, membersText, List.length_append]
    exact Nat.le_add_right _ _
  | m' :: m'' :: o, h => by
    rw [membersText, List.length_append, List.length_cons]
    rcases List.mem_cons.mp h with rfl | h
    · omega
    · have := @member_length esc _ _ h
      omega

/-- No string is longer than the object that holds it. -/
theorem string_length {esc : UInt8 → Bytes} (hesc : ∀ b, esc b ≠ []) {o : Object} {k s : Bytes}
    (h : (k, Value.str s) ∈ o) : s.length ≤ (objectText esc o).length := by
  have hflat : ∀ s : Bytes, s.length ≤ (s.flatMap esc).length := by
    intro s
    induction s with
    | nil => exact Nat.le_refl 0
    | cons b s ih =>
      have := List.length_pos_iff.mpr (hesc b)
      rw [List.flatMap_cons, List.length_append, List.length_cons]
      omega
  have hmember := @member_length esc _ _ h
  have := hflat s
  simp only [memberText, valueText, stringText, objectText, List.length_append, List.length_cons] at hmember ⊢
  omega

/-! ## Printable text -/

section

variable {esc : UInt8 → Bytes} (hesc : ∀ b, ∀ c ∈ esc b, 32 ≤ c)
include hesc

theorem stringText_printable (s : Bytes) : ∀ c ∈ stringText esc s, 32 ≤ c := by
  intro c hc
  unfold stringText at hc
  rcases List.mem_cons.mp hc with rfl | hc
  · decide
  · rcases List.mem_append.mp hc with hc | hc
    · obtain ⟨b, _, hb⟩ := List.mem_flatMap.mp hc
      exact hesc b c hb
    · rw [List.mem_singleton.mp hc]
      decide

theorem memberText_printable (m : Bytes × Value) : ∀ c ∈ memberText esc m, 32 ≤ c := by
  intro c hc
  unfold memberText at hc
  rcases List.mem_append.mp hc with hc | hc
  · exact stringText_printable hesc m.1 c hc
  · rcases List.mem_cons.mp hc with rfl | hc
    · decide
    · cases hv : m.2 with
      | str s =>
        rw [hv] at hc
        exact stringText_printable hesc s c hc
      | num n =>
        rw [hv] at hc
        have := text_digit n c hc
        unfold isDigit at this
        simp only [decide_eq_true_eq] at this
        exact UInt8.le_trans (by decide) this.1

theorem membersText_printable : ∀ o : Object, ∀ c ∈ membersText esc o, 32 ≤ c
  | [], c, hc => by
    rw [List.mem_singleton.mp hc]
    decide
  | [m], c, hc => by
    rcases List.mem_append.mp hc with hc | hc
    · exact memberText_printable hesc m c hc
    · rw [List.mem_singleton.mp hc]
      decide
  | m :: m' :: o, c, hc => by
    rcases List.mem_append.mp hc with hc | hc
    · exact memberText_printable hesc m c hc
    · rcases List.mem_cons.mp hc with rfl | hc
      · decide
      · exact membersText_printable (m' :: o) c hc

/-- A writer that spells every byte in printable bytes puts no line break into an object. -/
theorem objectText_printable (o : Object) : ∀ c ∈ objectText esc o, 32 ≤ c := by
  intro c hc
  rcases List.mem_cons.mp hc with rfl | hc
  · decide
  · exact membersText_printable hesc o c hc

end

end Json
