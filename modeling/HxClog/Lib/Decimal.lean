import Mathlib

/-!
# Decimal text

The ASCII digits of a number, as loops over `v % 10` and `v / 10` produce them
and as they are read back.
-/

namespace Decimal

def digit (d : Nat) : UInt8 := UInt8.ofNat (48 + d)

/-- `while (v > 0 && i < fuel) tmp[i++] = '0' + v % 10, v /= 10;` -/
def digitsLE : Nat → Nat → List UInt8
  | 0, _ => []
  | fuel + 1, v => if v = 0 then [] else digit (v % 10) :: digitsLE fuel (v / 10)

/-- The decimal text of `v`, without leading zeros. -/
def text (v : Nat) : List UInt8 := if v = 0 then [digit 0] else ((Nat.digits 10 v).map digit).reverse

/-- Zeros in front, up to `width` characters. -/
def padTo (width : Nat) (s : List UInt8) : List UInt8 := List.replicate (width - s.length) (digit 0) ++ s

def padded (width v : Nat) : List UInt8 := padTo width (text v)

theorem digitsLE_zero (fuel : Nat) : digitsLE fuel 0 = [] := by cases fuel <;> rfl

/-- A buffer that is large enough gets every digit. -/
theorem digitsLE_eq : ∀ {fuel v : Nat}, v < 10 ^ fuel → digitsLE fuel v = (Nat.digits 10 v).map digit
  | 0, v, h => by
    obtain rfl : v = 0 := by simpa using h
    rfl
  | fuel + 1, v, h => by
    unfold digitsLE
    split
    · rename_i h0
      subst h0
      simp
    · rename_i h0
      have hlt : v / 10 < 10 ^ fuel := by
        rw [Nat.div_lt_iff_lt_mul (by decide), ← Nat.pow_succ]
        exact h
      rw [digitsLE_eq hlt, Nat.digits_def' (by decide) (Nat.pos_of_ne_zero h0)]
      rfl

theorem text_eq {fuel v : Nat} (h : v < 10 ^ fuel) (h0 : v ≠ 0) : (digitsLE fuel v).reverse = text v := by
  unfold text
  rw [if_neg h0, digitsLE_eq h]

theorem text_ne_nil (v : Nat) : text v ≠ [] := by
  unfold text
  split
  · simp
  · rename_i h0
    simpa [Nat.digits_eq_nil_iff_eq_zero] using h0

end Decimal
