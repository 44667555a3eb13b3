import HxClog.Lib.C
import HxClog.Lib.Decimal

/-!
# Reading numbers

The language of the `%d` conversion of `sscanf`: blanks that do not count
against the width, a sign that does, and digits. Out of range values are clamped
to a `long` and converted to `int`, as `strtol` behind `sscanf` and `atoi` does.
-/

namespace Scan

open C Decimal

def isSpace (c : UInt8) : Bool := c = 32 ∨ 9 ≤ c ∧ c ≤ 13

def isSign (c : UInt8) : Bool := c = chr '+' ∨ c = chr '-'

def isDigit (c : UInt8) : Bool := 48 ≤ c ∧ c ≤ 57

/-- The number a run of digits stands for. -/
def value (ds : Bytes) : Nat := ds.foldl (fun v c => v * 10 + (c.toNat - 48)) 0

def longMax : Int := 2 ^ 63 - 1

def longMin : Int := -2 ^ 63

/-- `(int)strtol(…)`. -/
def toInt (v : Int) : Int := Int.bmod (max longMin (min v longMax)) (2 ^ 32)

/-- The text one conversion consumes. -/
structure Numeral where
  blanks : Bytes
  sign : Bytes
  digits : Bytes
  blanks_space : ∀ c ∈ blanks, isSpace c
  sign_sign : ∀ c ∈ sign, isSign c
  sign_one : sign.length ≤ 1
  digits_digit : ∀ c ∈ digits, isDigit c
  digits_ne : digits ≠ []
  deriving DecidableEq

namespace Numeral

def text (n : Numeral) : Bytes := n.blanks ++ (n.sign ++ n.digits)

def value (n : Numeral) : Int :=
  toInt (if n.sign = [chr '-'] then -(Scan.value n.digits : Int) else Scan.value n.digits)

/-- The characters that count against the width of the conversion. -/
def width (n : Numeral) : Nat := n.sign.length + n.digits.length

/-- Digits only. -/
def plain (n : Numeral) : Prop := n.blanks = [] ∧ n.sign = []

instance (n : Numeral) : Decidable n.plain := inferInstanceAs (Decidable (_ ∧ _))

end Numeral

/-- The digits in front, at most `width` of them when there is a width. -/
def takeDigits (width : Option Nat) (s : Bytes) : Bytes :=
  match width with
  | none => s.takeWhile isDigit
  | some w => (s.takeWhile isDigit).take w

theorem takeDigits_digit (width : Option Nat) (s : Bytes) : ∀ c ∈ takeDigits width s, isDigit c := by
  intro c hc
  unfold takeDigits at hc
  split at hc
  · exact List.mem_takeWhile_imp hc
  · exact List.mem_takeWhile_imp (List.mem_of_mem_take hc)

/-- One `%d` conversion: the numeral in front and what is behind it. -/
def scanInt (width : Option Nat) (s : Bytes) : Option (Numeral × Bytes) :=
  let blanks := s.takeWhile isSpace
  let s₁ := s.drop blanks.length
  let sign := (s₁.take 1).takeWhile isSign
  let s₂ := s₁.drop sign.length
  let digits := takeDigits (width.map (· - sign.length)) s₂
  if h : digits = [] then none
  else some (
    { blanks, sign, digits
      blanks_space := fun _ => List.mem_takeWhile_imp
      sign_sign := fun _ => List.mem_takeWhile_imp
      sign_one := Nat.le_trans (List.takeWhile_prefix _).length_le (by rw [List.length_take]; omega)
      digits_digit := takeDigits_digit _ _
      digits_ne := h }, s₂.drop digits.length)

/-- A literal character of the format. -/
def expect (c : UInt8) : Bytes → Option Bytes
  | [] => none
  | a :: s => if a = c then some s else none

/-- `atoi`. -/
def atoi (s : Bytes) : Int :=
  match scanInt none s with
  | some (n, _) => n.value
  | none => 0

theorem expect_some {c : UInt8} {s r : Bytes} (h : expect c s = some r) : s = c :: r := by
  cases s with
  | nil => cases h
  | cons a s =>
    simp only [expect] at h
    split at h
    · rename_i ha
      cases h
      rw [ha]
    · cases h

@[simp] theorem expect_cons (c : UInt8) (s : Bytes) : expect c (c :: s) = some s := if_pos rfl

/-! ## What a conversion consumes -/

theorem prefix_append_drop {α : Type*} {t s : List α} (h : t <+: s) : t ++ s.drop t.length = s := by
  obtain ⟨r, rfl⟩ := h
  rw [List.drop_left]

theorem takeDigits_isPrefix (width : Option Nat) (s : Bytes) : takeDigits width s <+: s := by
  unfold takeDigits
  split
  · exact List.takeWhile_prefix _
  · exact (List.take_prefix _ _).trans (List.takeWhile_prefix _)

theorem scanInt_text {width : Option Nat} {s r : Bytes} {n : Numeral} (h : scanInt width s = some (n, r)) :
    s = n.text ++ r := by
  unfold scanInt at h
  simp only at h
  split at h
  · cases h
  · cases h
    have hsign : ∀ t : Bytes, (t.take 1).takeWhile isSign <+: t :=
      fun t => (List.takeWhile_prefix _).trans (List.take_prefix _ _)
    unfold Numeral.text
    rw [List.append_assoc, List.append_assoc, prefix_append_drop (takeDigits_isPrefix _ _),
      prefix_append_drop (hsign _), prefix_append_drop (List.takeWhile_prefix _)]

theorem scanInt_width {w : Nat} {s r : Bytes} {n : Numeral} (hw : 1 ≤ w) (h : scanInt (some w) s = some (n, r)) :
    n.width ≤ w := by
  unfold scanInt at h
  simp only at h
  split at h
  · cases h
  · cases h
    have hs : ((((s.drop (s.takeWhile isSpace).length).take 1).takeWhile isSign)).length ≤ 1 :=
      Nat.le_trans (List.takeWhile_prefix _).length_le (by rw [List.length_take]; omega)
    unfold Numeral.width takeDigits
    simp only [Option.map_some, List.length_take]
    omega

/-- No digit stands in front. -/
def NoDigit (s : Bytes) : Prop := ∀ c ∈ s.head?, isDigit c = false

theorem noDigit_cons {c : UInt8} (h : isDigit c = false) (s : Bytes) : NoDigit (c :: s) := by
  intro a ha
  cases ha
  exact h

theorem takeWhile_append_stop {α : Type*} {p : α → Bool} {t r : List α} (ht : ∀ c ∈ t, p c)
    (hr : ∀ c ∈ r.head?, p c = false) : (t ++ r).takeWhile p = t := by
  rw [List.takeWhile_append_of_pos ht]
  cases r with
  | nil => simp
  | cons c r => simp [hr c rfl]

theorem digit_not_space {c : UInt8} (h : isDigit c) : isSpace c = false ∧ isSign c = false := by
  unfold isDigit at h
  unfold isSpace isSign
  simp only [decide_eq_true_eq, decide_eq_false_iff_not, UInt8.le_iff_toNat_le, ← UInt8.toNat_inj] at h ⊢
  have h₁ : (48 : UInt8).toNat = 48 ∧ (32 : UInt8).toNat = 32 ∧ (9 : UInt8).toNat = 9 ∧ (13 : UInt8).toNat = 13 :=
    ⟨rfl, rfl, rfl, rfl⟩
  have h₂ : (chr '+').toNat = 43 := rfl
  have h₃ : (chr '-').toNat = 45 := rfl
  omega

theorem sign_not_space {c : UInt8} (h : isSign c) : isSpace c = false := by
  unfold isSign at h
  rw [decide_eq_true_eq] at h
  rcases h with rfl | rfl <;> rfl

/-- A numeral that fits the width is read back as it is, unless more digits follow. -/
theorem scanInt_append (width : Option Nat) (n : Numeral) {r : Bytes} (hw : ∀ w ∈ width, n.width ≤ w)
    (hr : NoDigit r) : scanInt width (n.text ++ r) = some (n, r) := by
  obtain ⟨blanks, sign, digits, hblanks, hsign, hone, hdigits, hne⟩ := n
  obtain ⟨d, ds, rfl⟩ : ∃ d ds, digits = d :: ds := by
    cases digits with
    | nil => exact absurd rfl hne
    | cons d ds => exact ⟨d, ds, rfl⟩
  have hd := digit_not_space (hdigits d (List.mem_cons_self ..))
  have htext : Numeral.text ⟨blanks, sign, d :: ds, hblanks, hsign, hone, hdigits, hne⟩ ++ r =
      blanks ++ (sign ++ (d :: ds ++ r)) := by
    simp [Numeral.text]
  have h₁ : (blanks ++ (sign ++ (d :: ds ++ r))).takeWhile isSpace = blanks := by
    refine takeWhile_append_stop hblanks fun c hc => ?_
    cases sign with
    | nil => cases hc; exact hd.1
    | cons g gs => cases hc; exact sign_not_space (hsign _ (List.mem_cons_self ..))
  have h₂ : ((sign ++ (d :: ds ++ r)).take 1).takeWhile isSign = sign := by
    cases sign with
    | nil => simp [hd.2]
    | cons g gs =>
      obtain rfl : gs = [] := by
        cases gs with
        | nil => rfl
        | cons _ _ => simp at hone
      simp [hsign g (List.mem_cons_self ..)]
  have h₃ : takeDigits (width.map (· - sign.length)) (d :: ds ++ r) = d :: ds := by
    have htake : (d :: ds ++ r).takeWhile isDigit = d :: ds := takeWhile_append_stop hdigits hr
    unfold takeDigits
    cases width with
    | none => exact htake
    | some w =>
      have := hw w rfl
      simp only [Numeral.width] at this
      rw [Option.map_some]
      simp only [htake]
      exact List.take_of_length_le (by omega)
  rw [htext]
  unfold scanInt
  simp only [h₁, List.drop_left, h₂, h₃]
  rw [dif_neg hne]

theorem atoi_append (n : Numeral) {r : Bytes} (hr : NoDigit r) : atoi (n.text ++ r) = n.value := by
  unfold atoi
  rw [scanInt_append none n (fun _ hw => by cases hw) hr]

theorem drop_takeWhile {α : Type*} (p : α → Bool) : ∀ s : List α, s.drop (s.takeWhile p).length = s.dropWhile p
  | [] => rfl
  | c :: s => by
    by_cases hc : p c = true
    · rw [List.takeWhile_cons_of_pos hc, List.dropWhile_cons_of_pos hc, List.length_cons, List.drop_succ_cons]
      exact drop_takeWhile p s
    · rw [List.takeWhile_cons_of_neg hc, List.dropWhile_cons_of_neg hc]
      rfl

theorem dropWhile_head {α : Type*} {p : α → Bool} : ∀ {s : List α}, ∀ c ∈ (s.dropWhile p).head?, p c = false
  | [], c, h => by simp at h
  | a :: s, c, h => by
    by_cases ha : p a = true
    · rw [List.dropWhile_cons_of_pos ha] at h
      exact dropWhile_head c h
    · rw [List.dropWhile_cons_of_neg ha] at h
      cases h
      simpa using ha

theorem scanInt_rest {s r : Bytes} {n : Numeral} (h : scanInt none s = some (n, r)) : NoDigit r := by
  unfold scanInt at h
  simp only at h
  split at h
  · cases h
  · cases h
    simp only [Option.map_none, takeDigits]
    rw [drop_takeWhile]
    exact dropWhile_head

/-- There is no number, seen from the first character that is no space. -/
theorem scanInt_none_iff {b w : Bytes} {c : UInt8} (hb : ∀ d ∈ b, isSpace d) (hc : isSpace c = false) :
    scanInt none (b ++ c :: w) = none ↔ NoDigit (if isSign c then w else c :: w) := by
  have hblanks : (b ++ c :: w).takeWhile isSpace = b := takeWhile_append_stop hb fun d hd => by cases hd; exact hc
  have hdigits : ∀ s : Bytes, s.takeWhile isDigit = [] ↔ NoDigit s := by
    intro s
    cases s with
    | nil => simp [NoDigit]
    | cons d s => simp [NoDigit, List.takeWhile_cons]
  unfold scanInt
  simp only [hblanks, List.drop_left, Option.map_none, takeDigits]
  by_cases hs : isSign c = true
  · simp only [List.take_succ_cons, List.take_zero, List.takeWhile_cons_of_pos hs, List.takeWhile_nil, List.length_singleton,
      List.drop_succ_cons, List.drop_zero, if_pos hs]
    rw [← hdigits]
    by_cases hd : w.takeWhile isDigit = [] <;> simp [hd]
  · simp only [List.take_succ_cons, List.take_zero, List.takeWhile_cons_of_neg hs, List.length_nil, List.drop_zero, if_neg hs]
    rw [← hdigits]
    by_cases hd : (c :: w).takeWhile isDigit = [] <;> simp [hd]

/-- A number ends in front of spaces and of what is neither space, sign nor digit. -/
theorem atoi_stop {v bs t : Bytes} {c : UInt8} (hbs : ∀ d ∈ bs, isSpace d)
    (hc : isSpace c = false ∧ isSign c = false ∧ isDigit c = false) : atoi (v ++ (bs ++ c :: t)) = atoi v := by
  have hstop : NoDigit (bs ++ c :: t) := by
    intro d hd
    cases bs with
    | nil => cases hd; exact hc.2.2
    | cons b bs =>
      cases hd
      by_contra hn
      have hdig := digit_not_space (by simpa using hn)
      rw [hbs _ List.mem_cons_self] at hdig
      simp at hdig
  have happend : ∀ w : Bytes, NoDigit w → NoDigit (w ++ (bs ++ c :: t)) := by
    intro w hw
    cases w with
    | nil => exact hstop
    | cons d w => exact hw
  unfold atoi
  cases h : scanInt none v with
  | some p =>
    obtain ⟨n, r⟩ := p
    rw [scanInt_text h, List.append_assoc, scanInt_append none n (fun _ hw => by cases hw) (happend r (scanInt_rest h))]
  | none =>
    suffices hnone : scanInt none (v ++ (bs ++ c :: t)) = none by rw [hnone]
    have hsplit := (List.takeWhile_append_dropWhile (p := isSpace) (l := v)).symm
    cases hd : v.dropWhile isSpace with
    | nil =>
      have hall := List.dropWhile_eq_nil_iff.mp hd
      rw [← List.append_assoc, scanInt_none_iff (b := v ++ bs) ?_ hc.1, if_neg (by rw [hc.2.1]; simp)]
      · exact noDigit_cons hc.2.2 t
      · intro d hmem
        rcases List.mem_append.mp hmem with hv | hb
        · exact hall d hv
        · exact hbs d hb
    | cons d w =>
      have hspaces : ∀ a ∈ v.takeWhile isSpace, isSpace a := fun _ => List.mem_takeWhile_imp
      have hd' : isSpace d = false := dropWhile_head (s := v) d (by rw [hd]; rfl)
      rw [hd] at hsplit
      rw [hsplit, scanInt_none_iff hspaces hd'] at h
      rw [hsplit, List.append_assoc, List.cons_append, scanInt_none_iff hspaces hd']
      by_cases hs : isSign d = true
      · rw [if_pos hs] at h ⊢
        exact happend w h
      · rw [if_neg hs] at h ⊢
        exact happend (d :: w) h

/-- A run of digits, as a numeral. -/
def Numeral.ofDigits (ds : Bytes) (hd : ∀ c ∈ ds, isDigit c) (hne : ds ≠ []) : Numeral where
  blanks := []
  sign := []
  digits := ds
  blanks_space := fun _ h => nomatch h
  sign_sign := fun _ h => nomatch h
  sign_one := Nat.zero_le _
  digits_digit := hd
  digits_ne := hne

theorem Numeral.ofDigits_plain {ds : Bytes} (hd : ∀ c ∈ ds, isDigit c) (hne : ds ≠ []) :
    (Numeral.ofDigits ds hd hne).plain ∧ (Numeral.ofDigits ds hd hne).width = ds.length :=
  ⟨⟨rfl, rfl⟩, by simp [Numeral.width, Numeral.ofDigits]⟩

theorem Numeral.plain_text {n : Numeral} (h : n.plain) : n.text = n.digits ∧ n.width = n.digits.length := by
  unfold Numeral.text Numeral.width
  rw [h.1, h.2]
  exact ⟨rfl, Nat.zero_add _⟩

/-! ## Printed numbers -/

/-- `%0<width>d`. -/
def padInt (width : Nat) (v : Int) : Bytes :=
  if v < 0 then chr '-' :: padded (width - 1) v.natAbs else padded width v.natAbs

theorem digit_isDigit {d : Nat} (h : d < 10) : isDigit (digit d) := by
  revert h
  revert d
  decide

theorem digit_toNat {d : Nat} (h : d < 10) : (digit d).toNat - 48 = d := by
  revert h
  revert d
  decide

theorem text_digit (v : Nat) : ∀ c ∈ text v, isDigit c := by
  intro c hc
  unfold text at hc
  split at hc
  · rw [List.mem_singleton] at hc
    subst hc
    decide
  · rw [List.mem_reverse, List.mem_map] at hc
    obtain ⟨d, hd, rfl⟩ := hc
    exact digit_isDigit (Nat.digits_lt_base (by decide) hd)

theorem padded_digit (width v : Nat) : ∀ c ∈ padded width v, isDigit c := by
  intro c hc
  unfold padded padTo at hc
  rcases List.mem_append.mp hc with hc | hc
  · rw [List.eq_of_mem_replicate hc]
    decide
  · exact text_digit v c hc

theorem padded_ne_nil (width v : Nat) : padded width v ≠ [] := by
  unfold padded padTo
  exact List.append_ne_nil_of_right_ne_nil _ (text_ne_nil v)

theorem value_append (s t : Bytes) : value (s ++ t) = value s * 10 ^ t.length + value t := by
  have hfold : ∀ (t : Bytes) (a : Nat), t.foldl (fun v c => v * 10 + (c.toNat - 48)) a =
      a * 10 ^ t.length + t.foldl (fun v c => v * 10 + (c.toNat - 48)) 0 := by
    intro t
    induction t with
    | nil => intro a; simp
    | cons c t ih =>
      intro a
      rw [List.foldl_cons, ih, List.foldl_cons, ih (0 * 10 + _), List.length_cons, Nat.pow_succ]
      ring
  unfold value
  rw [List.foldl_append, hfold]

theorem value_zeros (k : Nat) : value (List.replicate k (digit 0)) = 0 := by
  induction k with
  | zero => rfl
  | succ k ih =>
    rw [List.replicate_succ', value_append, ih]
    rfl

theorem value_digits : ∀ (ds : List Nat), (∀ d ∈ ds, d < 10) → value (ds.map digit).reverse = Nat.ofDigits 10 ds
  | [], _ => rfl
  | d :: ds, h => by
    rw [List.map_cons, List.reverse_cons, value_append, value_digits ds fun e he => h e (List.mem_cons_of_mem _ he),
      Nat.ofDigits_cons]
    have hd : value [digit d] = d := by
      have := digit_toNat (h d (List.mem_cons_self ..))
      simpa [value] using this
    rw [hd, List.length_singleton]
    ring

theorem value_text (v : Nat) : value (text v) = v := by
  unfold text
  split
  · rename_i h
    rw [h]
    rfl
  · rw [value_digits _ fun d hd => Nat.digits_lt_base (by decide) hd, Nat.ofDigits_digits]

theorem value_padded (width v : Nat) : value (padded width v) = v := by
  unfold padded padTo
  rw [value_append, value_zeros, value_text]
  simp

/-- The numeral that `padInt` prints. -/
def Numeral.ofInt (width : Nat) (v : Int) : Numeral where
  blanks := []
  sign := if v < 0 then [chr '-'] else []
  digits := if v < 0 then padded (width - 1) v.natAbs else padded width v.natAbs
  blanks_space := fun _ h => nomatch h
  sign_sign := by
    split
    · intro c h
      rw [List.mem_singleton.mp h]
      rfl
    · intro c h
      cases h
  sign_one := by split <;> decide
  digits_digit := by split <;> exact padded_digit _ _
  digits_ne := by split <;> exact padded_ne_nil _ _

theorem Numeral.ofInt_text (width : Nat) (v : Int) : (Numeral.ofInt width v).text = padInt width v := by
  unfold Numeral.text Numeral.ofInt padInt
  split <;> rfl

theorem Numeral.ofInt_width (width : Nat) (v : Int) : (Numeral.ofInt width v).width = (padInt width v).length := by
  rw [← Numeral.ofInt_text]
  unfold Numeral.width Numeral.text Numeral.ofInt
  simp

theorem toInt_of_range {v : Int} (h : -2 ^ 31 ≤ v) (hv : v < 2 ^ 31) : toInt v = v := by
  unfold toInt longMax longMin
  rw [min_eq_left (by omega), max_eq_right (by omega)]
  exact Int.bmod_eq_of_le (by omega) (by omega)

theorem Numeral.ofInt_value {width : Nat} {v : Int} (h : -2 ^ 31 ≤ v) (hv : v < 2 ^ 31) :
    (Numeral.ofInt width v).value = v := by
  unfold Numeral.value Numeral.ofInt
  by_cases h0 : v < 0
  · simp only [if_pos h0, value_padded]
    rw [if_pos trivial, ← toInt_of_range h hv]
    congr 1
    rw [toInt_of_range h hv]
    omega
  · simp only [if_neg h0, value_padded]
    rw [if_neg (by simp), Int.natAbs_of_nonneg (by omega), toInt_of_range h hv]

end Scan
