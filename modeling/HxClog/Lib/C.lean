import Mathlib

/-!
# C arithmetic and memory

Unsigned arithmetic reduces modulo the width of its type. A string is the bytes
in front of its NUL. A block of memory is its size together with the bytes
written to it so far; copying more bytes than the block holds is undefined, so
it has no value here.
-/

namespace C

abbrev Bytes := List UInt8

/-- The value of an expression of type `unsigned int`. -/
def u32 (n : Nat) : Nat := n % 2 ^ 32

def uintMax : Nat := 2 ^ 32 - 1

theorem u32_of_lt {n : Nat} (h : n < 2 ^ 32) : u32 n = n := Nat.mod_eq_of_lt h

theorem u32_lt (n : Nat) : u32 n < 2 ^ 32 := Nat.mod_lt _ (by decide)

/-- A difference of type `unsigned int`. -/
def u32Sub (a b : Nat) : Nat := (a + (2 ^ 32 - b)) % 2 ^ 32

theorem u32Sub_of_le {a b : Nat} (h : b ≤ a) (ha : a < 2 ^ 32) : u32Sub a b = a - b := by
  unfold u32Sub
  omega

/-- The conversion of an `int` to `unsigned long`, which is 64 bits wide. -/
def toUlong (n : Int) : Nat := (n % 2 ^ 64).toNat

theorem toUlong_of_nonneg {n : Int} (h : 0 ≤ n) (hlt : n < 2 ^ 64) : toUlong n = n.toNat := by
  unfold toUlong
  rw [Int.emod_eq_of_lt h hlt]

theorem toUlong_lt (n : Int) : toUlong n < 2 ^ 64 := by
  unfold toUlong
  have := Int.emod_lt_of_pos n (by decide : (0 : Int) < 2 ^ 64)
  have := Int.emod_nonneg n (by decide : (2 ^ 64 : Int) ≠ 0)
  omega

/-! ## Strings -/

def chr (c : Char) : UInt8 := c.toNat.toUInt8

/-- A string literal. -/
def lit (s : String) : Bytes := s.toList.map chr

/-- What a `const char*` points to: the bytes before the first NUL. -/
structure CStr where
  bytes : Bytes
  noNul : 0 ∉ bytes
  deriving DecidableEq, Repr

theorem CStr.eq_iff {a b : CStr} : a = b ↔ a.bytes = b.bytes := by
  cases a
  cases b
  simp

def CStr.empty : CStr := ⟨[], List.not_mem_nil⟩

/-- The string that starts a block of memory. -/
def CStr.ofBytes (b : Bytes) : CStr where
  bytes := b.takeWhile (· ≠ 0)
  noNul h := by
    have := List.mem_takeWhile_imp h
    simp at this

theorem CStr.ofBytes_bytes {b : Bytes} (h : 0 ∉ b) : (CStr.ofBytes b).bytes = b := by
  unfold CStr.ofBytes
  rw [List.takeWhile_eq_self_iff]
  intro c hc
  simp only [decide_eq_true_eq]
  rintro rfl
  exact h hc

/-- What `snprintf` and `strncpy` leave of a text in a `char[cap]`. -/
def cut (cap : Nat) (s : Bytes) : Bytes := s.take (cap - 1)

theorem cut_of_lt {cap : Nat} {s : Bytes} (h : s.length < cap) : cut cap s = s :=
  List.take_of_length_le (by omega)

theorem cut_length (cap : Nat) (s : Bytes) : (cut cap s).length = min (cap - 1) s.length := List.length_take

/-- `strncpy` into a `char[cap]` whose last byte is set to NUL. -/
def CStr.cut (cap : Nat) (s : CStr) : CStr := ⟨C.cut cap s.bytes, fun h => s.noNul (List.mem_of_mem_take h)⟩

/-- The string in a `char[cap]`. -/
structure Buf (cap : Nat) where
  bytes : Bytes
  fits : bytes.length < cap
  deriving DecidableEq

/-- A string of at most `cap - 1` characters is stored whole, a longer one is cut. -/
def Buf.store (cap : Nat) [NeZero cap] (s : Bytes) : Buf cap where
  bytes := cut cap s
  fits := by
    have := Nat.pos_of_neZero cap
    rw [cut_length]
    omega

theorem Buf.cut_bytes {cap : Nat} (b : Buf cap) : cut cap b.bytes = b.bytes := cut_of_lt b.fits

/-- `strncmp(a, b, n) == 0`. Behind the last byte of a list stands the terminator. -/
def strncmpEq : Nat → Bytes → Bytes → Bool
  | 0, _, _ => true
  | n + 1, a, b => a.headD 0 = b.headD 0 && (a.headD 0 = 0 || strncmpEq n a.tail b.tail)

/-- Strings are compared up to their first NUL. -/
theorem strncmpEq_iff : ∀ (n : Nat) (a b : Bytes),
    strncmpEq n a b = true ↔ (a.take n).takeWhile (· ≠ 0) = (b.take n).takeWhile (· ≠ 0)
  | 0, a, b => by simp [strncmpEq]
  | n + 1, [], [] => by simp [strncmpEq]
  | n + 1, [], y :: b => by
    by_cases hy : y = 0
    · simp [strncmpEq, hy]
    · simp [strncmpEq, hy, Ne.symm hy]
  | n + 1, x :: a, [] => by
    by_cases hx : x = 0
    · simp [strncmpEq, hx]
    · simp [strncmpEq, hx]
  | n + 1, x :: a, y :: b => by
    have ih := strncmpEq_iff n a b
    by_cases hx : x = 0
    · by_cases hy : y = 0
      · simp [strncmpEq, hx, hy]
      · simp [strncmpEq, hx, hy, Ne.symm hy]
    · by_cases hy : y = 0
      · simp [strncmpEq, hx, hy]
      · simp [strncmpEq, hx, hy, ih]

theorem takeWhile_noNul {s : Bytes} (h : 0 ∉ s) : s.takeWhile (· ≠ 0) = s := by
  rw [List.takeWhile_eq_self_iff]
  intro c hc
  simp only [ne_eq, decide_not, Bool.not_eq_true', decide_eq_false_iff_not]
  rintro rfl
  exact h hc

/-- Strings without a NUL are compared up to `n` characters. -/
theorem strncmpEq_take {n : Nat} {a b : Bytes} (ha : 0 ∉ a) (hb : 0 ∉ b) :
    strncmpEq n a b = true ↔ a.take n = b.take n := by
  rw [strncmpEq_iff, takeWhile_noNul fun h => ha (List.mem_of_mem_take h), takeWhile_noNul fun h => hb (List.mem_of_mem_take h)]

/-! ## Memory -/

/-- `memcpy(dst, src, n)` into a block of `cap` bytes. -/
def memcpy (dst : Bytes) (cap : Nat) (src : Bytes) (n : Nat) : Option Bytes :=
  if n ≤ cap then some (src.take n ++ dst.drop n) else none

theorem memcpy_take {dst src out : Bytes} {cap n : Nat} (h : memcpy dst cap src n = some out)
    (hn : n ≤ src.length) : out.take n = src.take n := by
  unfold memcpy at h
  split at h
  · cases h
    have hl : (src.take n).length = n := List.length_take_of_le hn
    rw [List.take_append_of_le_length (by omega), List.take_take, Nat.min_self]
  · cases h

theorem memcpy_length {dst src out : Bytes} {cap n : Nat} (h : memcpy dst cap src n = some out)
    (hd : dst.length ≤ cap) : out.length ≤ cap := by
  unfold memcpy at h
  split at h
  · cases h
    rw [List.length_append, List.length_drop, List.length_take]
    omega
  · cases h

/-! ## Doubling a capacity -/

/-- `while (c < need) c *= 2;` on `unsigned int`. After `fuel = 32` doublings
every bit has been shifted out and `c` stays 0: the loop never ends. -/
def doubleUntil (need : Nat) : Nat → Nat → Option Nat
  | 0, c => if need ≤ c then some c else none
  | fuel + 1, c => if need ≤ c then some c else doubleUntil need fuel (u32 (c * 2))

theorem doubleUntil_ge {need : Nat} : ∀ {fuel c r : Nat}, doubleUntil need fuel c = some r → need ≤ r
  | 0, c, r, h => by
    unfold doubleUntil at h
    split at h
    · cases h; assumption
    · cases h
  | fuel + 1, c, r, h => by
    unfold doubleUntil at h
    split at h
    · cases h; assumption
    · exact doubleUntil_ge h

/-- Starting from `a * 2 ^ j`, the loop ends at some `a * 2 ^ k` as long as a
power of that form reaches `need` without wrapping around. -/
theorem doubleUntil_pow {need a m : Nat} (ha : a * 2 ^ m < 2 ^ 32) (hn : need ≤ a * 2 ^ m) :
    ∀ (fuel j : Nat), j ≤ m → m ≤ j + fuel →
      ∃ k, j ≤ k ∧ k ≤ m ∧ doubleUntil need fuel (a * 2 ^ j) = some (a * 2 ^ k)
  | 0, j, hj, hf => by
    have : j = m := by omega
    subst this
    exact ⟨j, Nat.le_refl _, Nat.le_refl _, by unfold doubleUntil; rw [if_pos hn]⟩
  | fuel + 1, j, hj, hf => by
    unfold doubleUntil
    by_cases h : need ≤ a * 2 ^ j
    · exact ⟨j, Nat.le_refl _, hj, if_pos h⟩
    · have hlt : j < m := by
        rcases Nat.lt_or_ge j m with h' | h'; exact h'
        have : j = m := by omega
        subst this; exact absurd hn h
      have hp : a * 2 ^ j * 2 = a * 2 ^ (j + 1) := by rw [Nat.pow_succ, Nat.mul_assoc]
      have hle : a * 2 ^ (j + 1) ≤ a * 2 ^ m :=
        Nat.mul_le_mul_left a (Nat.pow_le_pow_right (by decide) hlt)
      obtain ⟨k, hk1, hk2, hk⟩ := doubleUntil_pow ha hn fuel (j + 1) hlt (by omega)
      refine ⟨k, by omega, hk2, ?_⟩
      rw [if_neg h, hp, u32_of_lt (by omega)]
      exact hk

end C
