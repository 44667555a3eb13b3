import HxClog.Lib.C

/-!
# Arrays of characters

A `char[cap]` is a block of `cap` bytes. What writes behind its end or reads from there is
undefined, so it has no value here. The string in a block ends at its first NUL, and what
a longer string left behind the NUL stays.
-/

namespace C

structure Block (cap : Nat) where
  bytes : Bytes
  sized : bytes.length = cap

namespace Block

variable {cap : Nat}

/-- `memset(b, 0, cap)` -/
def zero (cap : Nat) : Block cap := ⟨List.replicate cap 0, List.length_replicate⟩

theorem written_length {b src : Bytes} {off : Nat} (h : off + src.length ≤ b.length) :
    (b.take off ++ src ++ b.drop (off + src.length)).length = b.length := by
  rw [List.length_append, List.length_append, List.length_take, List.length_drop]
  omega

/-- The bytes are written from the offset on. -/
def write (b : Block cap) (off : Nat) (src : Bytes) : Option (Block cap) :=
  if h : off + src.length ≤ cap then
    some ⟨b.bytes.take off ++ src ++ b.bytes.drop (off + src.length), (written_length (h.trans b.sized.ge)).trans b.sized⟩
  else none

/-- The first `n` bytes. -/
def read (b : Block cap) (n : Nat) : Option Bytes := if n ≤ cap then some (b.bytes.take n) else none

theorem write_fits (b : Block cap) (off : Nat) (src : Bytes) (h : off + src.length ≤ cap) :
    ∃ b', b.write off src = some b' ∧ b'.bytes = b.bytes.take off ++ src ++ b.bytes.drop (off + src.length) :=
  ⟨_, dif_pos h, rfl⟩

theorem write_start (b : Block cap) (src : Bytes) (h : src.length ≤ cap) :
    ∃ b', b.write 0 src = some b' ∧ b'.bytes = src ++ b.bytes.drop src.length := by
  obtain ⟨b', hb, hbytes⟩ := write_fits b 0 src (by omega)
  rw [List.take_zero, List.nil_append, Nat.zero_add] at hbytes
  exact ⟨b', hb, hbytes⟩

/-- Behind what is read, a write changes nothing of it. -/
theorem write_behind (b : Block cap) (off : Nat) (src : Bytes) (h : off + src.length ≤ cap) :
    ∃ b', b.write off src = some b' ∧ b'.bytes.take off = b.bytes.take off := by
  obtain ⟨b', hb, hbytes⟩ := write_fits b off src h
  refine ⟨b', hb, ?_⟩
  have hlen : (b.bytes.take off).length = off := List.length_take_of_le (by rw [b.sized]; omega)
  rw [hbytes, List.append_assoc, List.take_append_of_le_length hlen.ge, List.take_take, Nat.min_self]

/-! ## Strings -/

/-- The string in a block. Without a NUL it would be read beyond the end. -/
def text (b : Block cap) : Option Bytes := if 0 ∈ b.bytes then some (b.bytes.takeWhile (· ≠ 0)) else none

/-- `strncpy(b, s, n)`, which fills up with NULs. -/
def strncpy (b : Block cap) (s : CStr) (n : Nat) : Option (Block cap) :=
  b.write 0 (s.bytes.take n ++ List.replicate (n - s.bytes.length) 0)

/-- `strcpy(b, s)` -/
def strcpy (b : Block cap) (s : Bytes) : Option (Block cap) := b.write 0 (s ++ [0])

theorem text_of_bytes {b : Block cap} {s rest : Bytes} (hs : 0 ∉ s) (h : b.bytes = s ++ 0 :: rest) : b.text = some s := by
  unfold text
  rw [h, if_pos (List.mem_append_right _ List.mem_cons_self), List.takeWhile_append_of_pos, List.takeWhile_cons]
  · simp
  · intro c hc
    simp only [ne_eq, decide_not, Bool.not_eq_true', decide_eq_false_iff_not]
    rintro rfl
    exact hs hc

/-- Behind the string stands its NUL. -/
theorem text_bytes {b : Block cap} {s : Bytes} (h : b.text = some s) : ∃ rest, b.bytes = s ++ 0 :: rest := by
  unfold text at h
  split at h
  · rename_i hnul
    cases h
    cases hrest : b.bytes.dropWhile (· ≠ 0) with
    | nil =>
      have hall := List.takeWhile_append_dropWhile (p := (· ≠ 0)) (l := b.bytes)
      rw [hrest, List.append_nil] at hall
      rw [← hall] at hnul
      simpa using List.mem_takeWhile_imp hnul
    | cons c rest =>
      have hc : c = 0 := by
        have hhead := List.head?_dropWhile_not (· ≠ 0) b.bytes
        rw [hrest] at hhead
        simpa using hhead
      subst hc
      refine ⟨rest, ?_⟩
      rw [← hrest]
      exact List.takeWhile_append_dropWhile.symm
  · cases h

/-- `strncmp` does not look behind the NUL. -/
theorem strncmpEq_nul (rest b : Bytes) : ∀ (n : Nat) (s : Bytes), strncmpEq n (s ++ 0 :: rest) b = strncmpEq n s b
  | 0, s => rfl
  | n + 1, [] => by simp [strncmpEq]
  | n + 1, c :: s => by
    have ih := strncmpEq_nul rest b.tail n s
    simp [strncmpEq, ih]

theorem strncmpEq_text {b : Block cap} {s : Bytes} (h : b.text = some s) (n : Nat) (key : Bytes) :
    strncmpEq n b.bytes key = strncmpEq n s key := by
  obtain ⟨rest, hrest⟩ := text_bytes h
  rw [hrest, strncmpEq_nul]

theorem text_noNul {b : Block cap} {s : Bytes} (h : b.text = some s) : 0 ∉ s ∧ s.length < cap := by
  unfold text at h
  split at h
  · rename_i hnul
    cases h
    refine ⟨fun hmem => by simpa using List.mem_takeWhile_imp hmem, ?_⟩
    have hpre : b.bytes.takeWhile (· ≠ 0) <+: b.bytes := List.takeWhile_prefix _
    refine Nat.lt_of_le_of_ne (hpre.length_le.trans b.sized.le) fun he => ?_
    rw [← hpre.eq_of_length (he.trans b.sized.symm)] at hnul
    simpa using List.mem_takeWhile_imp hnul
  · cases h

theorem strcpy_text (b : Block cap) {s : Bytes} (hs : 0 ∉ s) (hlen : s.length < cap) :
    ∃ b', b.strcpy s = some b' ∧ b'.text = some s := by
  obtain ⟨b', hb, hbytes⟩ := b.write_start (s ++ [0]) (by rw [List.length_append]; exact hlen)
  rw [List.append_assoc] at hbytes
  exact ⟨b', hb, text_of_bytes hs hbytes⟩

/-- `strncpy` up to the last byte, which is then set to NUL, stores what fits of the string. -/
theorem strncpy_text (hcap : 0 < cap) (b : Block cap) (s : CStr) :
    ∃ b₁ b₂, b.strncpy s (cap - 1) = some b₁ ∧ b₁.write (cap - 1) [0] = some b₂ ∧ b₂.text = some (s.cut cap).bytes := by
  have hlen : (s.bytes.take (cap - 1) ++ List.replicate (cap - 1 - s.bytes.length) 0).length = cap - 1 := by
    rw [List.length_append, List.length_take, List.length_replicate]
    omega
  obtain ⟨b₁, hb₁, hbytes₁⟩ := b.write_start (s.bytes.take (cap - 1) ++ List.replicate (cap - 1 - s.bytes.length) 0) (by omega)
  obtain ⟨b₂, hb₂, hbytes₂⟩ := b₁.write_fits (cap - 1) [0] (by rw [List.length_singleton]; omega)
  refine ⟨b₁, b₂, hb₁, hb₂, ?_⟩
  have hnul : (0 : UInt8) ∉ (s.cut cap).bytes := (s.cut cap).noNul
  rw [hbytes₁, List.take_left' hlen, List.append_assoc, List.append_assoc] at hbytes₂
  cases hpad : cap - 1 - s.bytes.length with
  | zero =>
    rw [hpad] at hbytes₂
    exact text_of_bytes hnul hbytes₂
  | succ m =>
    rw [hpad, List.replicate_succ] at hbytes₂
    exact text_of_bytes hnul hbytes₂

end Block

end C
