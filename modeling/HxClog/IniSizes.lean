import HxClog.Ini

/-!
# Sizes in the INI file

`ini_size` adds up the digits and multiplies by the unit, both modulo 2^64. It gives what
the text says as long as that is below 2^64; beyond, a larger size may give a smaller limit.
-/

namespace HxClog

open C Scan

/-- What may stand behind the digits. -/
inductive SizeUnit where
  | byte
  | kilo (upper : Bool)
  | mega (upper : Bool)
  | giga (upper : Bool)
  deriving DecidableEq, Repr

namespace SizeUnit

def text : SizeUnit → Bytes
  | byte => []
  | kilo upper => [if upper then chr 'K' else chr 'k']
  | mega upper => [if upper then chr 'M' else chr 'm']
  | giga upper => [if upper then chr 'G' else chr 'g']

def factor : SizeUnit → Nat
  | byte => 1
  | kilo _ => 1024
  | mega _ => 1024 ^ 2
  | giga _ => 1024 ^ 3

end SizeUnit

/-- A run of digits and a unit. -/
structure SizeText where
  digits : Bytes
  unit : SizeUnit
  digits_digit : ∀ c ∈ digits, isDigit c
  digits_ne : digits ≠ []

namespace SizeText

def text (v : SizeText) : Bytes := v.digits ++ v.unit.text

/-- The number of bytes that is meant. -/
def size (v : SizeText) : Nat := value v.digits * v.unit.factor

end SizeText

/-! ## What `ini_size` computes -/

/-- Digits read behind numbers that agree modulo `m` give numbers that agree. -/
theorem digits_modEq {m : Nat} (ds : Bytes) : ∀ {a b : Nat}, a ≡ b [MOD m] →
    ds.foldl (fun v c => v * 10 + (c.toNat - 48)) a ≡ ds.foldl (fun v c => v * 10 + (c.toNat - 48)) b [MOD m] := by
  induction ds with
  | nil => exact fun h => h
  | cons c ds ih => exact fun h => ih ((h.mul_right 10).add_right (c.toNat - 48))

theorem iniDigits_step (n : UInt64) {c : UInt8} (hc : isDigit c) :
    (n * 10 + (c - chr '0').toUInt64).toNat = (n.toNat * 10 + (c.toNat - 48)) % 2 ^ 64 := by
  have hle : chr '0' ≤ c := by
    unfold isDigit at hc
    rw [decide_eq_true_eq] at hc
    exact hc.1
  have hdigit : (c - chr '0').toUInt64.toNat = c.toNat - 48 := by
    rw [UInt8.toNat_toUInt64, UInt8.toNat_sub_of_le _ _ hle]
    rfl
  rw [UInt64.toNat_add, UInt64.toNat_mul, hdigit, Nat.mod_add_mod]
  rfl

theorem iniDigits_run {r : Bytes} (hr : NoDigit r) (ds : Bytes) : ∀ n : UInt64, (∀ c ∈ ds, isDigit c) →
    ∃ m : UInt64, iniDigits n (ds ++ r) = (m, r) ∧
      m.toNat = ds.foldl (fun v c => v * 10 + (c.toNat - 48)) n.toNat % 2 ^ 64 := by
  induction ds with
  | nil =>
    intro n _
    refine ⟨n, ?_, (Nat.mod_eq_of_lt n.toNat_lt).symm⟩
    cases r with
    | nil => rfl
    | cons c r => simp [iniDigits, hr c rfl]
  | cons c ds ih =>
    intro n hds
    have hc : isDigit c := hds c List.mem_cons_self
    obtain ⟨m, hm, hval⟩ := ih (n * 10 + (c - chr '0').toUInt64) fun d hd => hds d (List.mem_cons_of_mem _ hd)
    refine ⟨m, ?_, ?_⟩
    · rw [List.cons_append]
      unfold iniDigits
      rw [if_pos hc, hm]
    · rw [hval, iniDigits_step n hc]
      exact digits_modEq ds (Nat.mod_modEq _ _)

theorem unit_noDigit (u : SizeUnit) : NoDigit u.text := by
  cases u with
  | byte =>
    intro c hc
    cases hc
  | kilo upper => cases upper <;> exact noDigit_cons (by decide) []
  | mega upper => cases upper <;> exact noDigit_cons (by decide) []
  | giga upper => cases upper <;> exact noDigit_cons (by decide) []

theorem ini_size_mod (v : SizeText) : (iniSize v.text).toNat = v.size % 2 ^ 64 := by
  obtain ⟨n, hrun, hn⟩ := iniDigits_run (unit_noDigit v.unit) v.digits 0 v.digits_digit
  have hmul : ∀ k : UInt64, (n * k).toNat = value v.digits * k.toNat % 2 ^ 64 := by
    intro k
    rw [UInt64.toNat_mul, hn, Nat.mod_mul_mod]
    rfl
  unfold iniSize SizeText.text SizeText.size
  rw [hrun]
  cases hu : v.unit with
  | byte =>
    change n.toNat = _
    rw [hn, SizeUnit.factor, Nat.mul_one]
    rfl
  | kilo upper => cases upper <;> exact hmul 1024
  | mega upper => cases upper <;> exact hmul (1024 * 1024)
  | giga upper => cases upper <;> exact hmul (1024 * 1024 * 1024)

/-- The multiples of 2^64 above `x`, up to `y`. -/
def sizeWraps (x y : Nat) : Nat := y / 2 ^ 64 - x / 2 ^ 64

/-- A size below 2^64 is exact, and a larger text gives no smaller size if and only if the sizes are apart by 2^64 for each
multiple of 2^64 between them. -/
theorem ini_size_iff (v w : SizeText) :
    ((v.size < 2 ^ 64 → (iniSize v.text).toNat = v.size) ∧ (v.size ≤ w.size → iniSize v.text ≤ iniSize w.text)) ↔
      (v.size ≤ w.size → v.size + 2 ^ 64 * sizeWraps v.size w.size ≤ w.size) := by
  rw [UInt64.le_iff_toNat_le, ini_size_mod, ini_size_mod]
  unfold sizeWraps
  constructor
  · rintro ⟨-, h⟩ hle
    have := h hle
    omega
  · intro h
    refine ⟨fun hlt => Nat.mod_eq_of_lt hlt, fun hle => ?_⟩
    have := h hle
    omega

def hugeDigits : Bytes := lit "17179869184"

theorem hugeDigits_digit : ∀ c ∈ hugeDigits, isDigit c := by decide +kernel

theorem hugeDigits_ne : hugeDigits ≠ [] := by decide +kernel

/-- 2^34 units of 2^30 bytes. -/
def hugeSize : SizeText := ⟨hugeDigits, .giga true, hugeDigits_digit, hugeDigits_ne⟩

theorem oneDigit : (∀ c ∈ lit "1", isDigit c) ∧ lit "1" ≠ [] := by decide +kernel

def oneByte : SizeText := ⟨lit "1", .byte, oneDigit.1, oneDigit.2⟩

theorem huge_size_wraps : ¬∀ v w : SizeText, (v.size < 2 ^ 64 → (iniSize v.text).toNat = v.size) ∧
    (v.size ≤ w.size → iniSize v.text ≤ iniSize w.text) := by
  intro h
  have hle := (h oneByte hugeSize).2 (by decide +kernel)
  have hone : iniSize oneByte.text = 1 := by decide +kernel
  have hhuge : iniSize hugeSize.text = 0 := by decide +kernel
  rw [hone, hhuge] at hle
  exact absurd hle (by decide)

end HxClog
