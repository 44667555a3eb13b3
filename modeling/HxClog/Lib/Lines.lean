import Mathlib

/-!
# Reading a text through a small buffer

`piece` reads like `fgets`: up to the end of the line, or until the buffer is full. A
reader that treats each piece as a line does what the lines say as long as each line
fits: a line end alone is an empty line, and behind a line it changes nothing.
-/

namespace Lines

variable {α σ : Type*} [DecidableEq α] (nl : α)

/-- What one read puts into a buffer for `cap` symbols, and the text behind it. -/
def piece : Nat → List α → List α × List α
  | 0, s => ([], s)
  | _ + 1, [] => ([], [])
  | cap + 1, c :: s => if c = nl then ([c], s) else (c :: (piece cap s).1, (piece cap s).2)

/-- The pieces of a text. -/
def pieces (cap : Nat) : Nat → List α → List (List α)
  | 0, _ => []
  | _ + 1, [] => []
  | fuel + 1, s => (piece nl cap s).1 :: pieces cap fuel (piece nl cap s).2

variable {nl}

theorem piece_line : ∀ {cap : Nat} {l : List α} (s : List α), nl ∉ l → l.length < cap →
    piece nl cap (l ++ nl :: s) = (l ++ [nl], s)
  | 0, l, s, _, h => by omega
  | cap + 1, [], s, _, _ => by simp [piece]
  | cap + 1, c :: l, s, hnl, h => by
    rw [List.mem_cons, not_or] at hnl
    have ih := piece_line s hnl.2 (Nat.lt_of_succ_lt_succ h)
    rw [List.cons_append, piece, if_neg (Ne.symm hnl.1), ih]
    rfl

theorem piece_full : ∀ {l : List α} (s : List α), nl ∉ l → piece nl l.length (l ++ s) = (l, s)
  | [], s, _ => by simp [piece]
  | c :: l, s, hnl => by
    rw [List.mem_cons, not_or] at hnl
    have ih := piece_full s hnl.2
    rw [List.length_cons, List.cons_append, piece, if_neg (Ne.symm hnl.1), ih]

theorem piece_last : ∀ {cap : Nat} {l : List α}, nl ∉ l → l.length ≤ cap → piece nl cap l = (l, [])
  | 0, l, _, h => by
    have : l = [] := List.length_eq_zero_iff.mp (by omega)
    rw [this]
    rfl
  | cap + 1, [], _, _ => by simp [piece]
  | cap + 1, c :: l, hnl, h => by
    rw [List.mem_cons, not_or] at hnl
    have ih := piece_last hnl.2 (Nat.le_of_succ_le_succ h)
    rw [piece, if_neg (Ne.symm hnl.1), ih]

section
variable {step : σ → List α → σ} (hend : ∀ t l, step t (l ++ [nl]) = step t l) (hempty : ∀ t, step t [] = t)
include hend hempty

theorem foldl_pieces {cap : Nat} (hcap : 0 < cap) : ∀ {fuel : Nat} {s : List α}, s.length ≤ fuel →
    (∀ l ∈ s.splitOn nl, l.length ≤ cap) → ∀ t, (pieces nl cap fuel s).foldl step t = (s.splitOn nl).foldl step t
  | 0, s, hlen, _, t => by
    have : s = [] := List.length_eq_zero_iff.mp (by omega)
    rw [this]
    simp [pieces, hempty]
  | fuel + 1, [], _, _, t => by simp [pieces, hempty]
  | fuel + 1, c :: s, hlen, hfit, t => by
    show (pieces nl cap fuel (piece nl cap (c :: s)).2).foldl step (step t (piece nl cap (c :: s)).1) = _
    by_cases hm : nl ∈ c :: s
    · obtain ⟨l, r, hs, hl⟩ := List.eq_append_cons_of_mem hm
      rw [hs] at hlen hfit ⊢
      rw [List.length_append, List.length_cons] at hlen
      rw [List.splitOn_append_cons_self_of_not_mem hl] at hfit ⊢
      have hr := fun l' h' => hfit l' (List.mem_cons_of_mem _ h')
      rcases Nat.lt_or_eq_of_le (hfit l List.mem_cons_self) with hlt | heq
      · rw [piece_line r hl hlt, hend, List.foldl_cons, foldl_pieces hcap (by omega) hr]
      · -- the line fills the buffer: its end is read as a line of its own
        have hnext : (nl :: r).splitOn nl = [] :: r.splitOn nl := 
          List.splitOn_append_cons_self_of_not_mem List.not_mem_nil r
        have hrest : ∀ l' ∈ (nl :: r).splitOn nl, l'.length ≤ cap := by
          intro l' h'
          rw [hnext] at h'
          rcases List.mem_cons.mp h' with rfl | h'
          · exact Nat.zero_le _
          · exact hr l' h'
        rw [← heq, piece_full (nl :: r) hl, heq,
          foldl_pieces hcap (by rw [List.length_cons]; omega) hrest, hnext, List.foldl_cons, List.foldl_cons, hempty]
    · rw [List.splitOn_eq_singleton hm] at hfit ⊢
      rw [piece_last hm (hfit _ List.mem_cons_self), List.foldl_cons, List.foldl_nil]
      cases fuel with
      | zero => rfl
      | succ fuel => rfl

end

/-! ## A line in the middle of a text -/

theorem piece_rest_lt (nl : α) {cap : Nat} (hcap : 0 < cap) (c : α) (s : List α) : (piece nl cap (c :: s)).2.length < (c :: s).length := by
  have hle : ∀ (cap : Nat) (s : List α), (piece nl cap s).2.length ≤ s.length := by
    intro cap
    induction cap with
    | zero => exact fun s => le_refl _
    | succ cap ih =>
      intro s
      cases s with
      | nil => exact le_refl _
      | cons c s =>
        simp only [piece]
        split
        · simp
        · exact (ih s).trans (by simp)
  cases cap with
  | zero => omega
  | succ cap =>
    simp only [piece]
    split
    · simp
    · exact Nat.lt_succ_of_le (hle cap s)

theorem mem_piece {a : α} : ∀ {cap : Nat} {s : List α}, a ∈ (piece nl cap s).1 ∨ a ∈ (piece nl cap s).2 → a ∈ s
  | 0, s, h => by simpa [piece] using h
  | _ + 1, [], h => by simp [piece] at h
  | cap + 1, c :: s, h => by
    simp only [piece] at h
    split at h
    · simpa using h
    · rw [List.mem_cons, or_assoc] at h
      rcases h with h | h
      · exact h ▸ List.mem_cons_self
      · exact List.mem_cons_of_mem c (mem_piece h)

theorem mem_pieces {a : α} {cap : Nat} : ∀ {fuel : Nat} {s p : List α}, p ∈ pieces nl cap fuel s → a ∈ p → a ∈ s
  | 0, s, p, h, _ => by simp [pieces] at h
  | _ + 1, [], p, h, _ => by simp [pieces] at h
  | fuel + 1, c :: s, p, h, ha => by
    rw [pieces, List.mem_cons] at h
    · rcases h with rfl | h
      · exact mem_piece (.inl ha)
      · exact mem_piece (.inr (mem_pieces h ha))
    · simp

/-- There is fuel enough. -/
theorem pieces_fuel {cap : Nat} (hcap : 0 < cap) : ∀ {fuel fuel' : Nat} {s : List α}, s.length ≤ fuel →
    s.length ≤ fuel' → pieces nl cap fuel s = pieces nl cap fuel' s
  | 0, fuel', s, h, _ => by
    obtain rfl : s = [] := List.length_eq_zero_iff.mp (by omega)
    cases fuel' <;> rfl
  | fuel + 1, 0, s, _, h => by
    obtain rfl : s = [] := List.length_eq_zero_iff.mp (by omega)
    rfl
  | fuel + 1, fuel' + 1, [], _, _ => rfl
  | fuel + 1, fuel' + 1, c :: s, h, h' => by
    have hlt := piece_rest_lt nl hcap c s
    have ih : pieces nl cap fuel (piece nl cap (c :: s)).2 = pieces nl cap fuel' (piece nl cap (c :: s)).2 :=
      pieces_fuel hcap (by omega) (by omega)
    simp only [pieces, ih]

/-- Behind the end of a line reading starts afresh. -/
theorem piece_append : ∀ {cap : Nat} {s : List α} (t : List α), 0 < cap → s ≠ [] → s.getLast? = some nl →
    piece nl cap (s ++ t) = ((piece nl cap s).1, (piece nl cap s).2 ++ t) ∧
      ((piece nl cap s).2 = [] ∨ (piece nl cap s).2.getLast? = some nl)
  | 0, _, _, h, _, _ => by omega
  | _ + 1, [], _, _, h, _ => absurd rfl h
  | cap + 1, c :: s, t, _, _, hl => by
    simp only [List.cons_append, piece]
    by_cases hc : c = nl
    · rw [if_pos hc, if_pos hc]
      refine ⟨rfl, ?_⟩
      cases s with
      | nil => exact .inl rfl
      | cons d s => exact .inr (by simpa using hl)
    · rw [if_neg hc, if_neg hc]
      cases s with
      | nil => exact absurd (by simpa using hl) hc
      | cons d s =>
        have hl' : (d :: s).getLast? = some nl := by simpa using hl
        cases cap with
        | zero => exact ⟨rfl, .inr hl'⟩
        | succ cap =>
          obtain ⟨heq, hrest⟩ := piece_append t (Nat.succ_pos cap) (List.cons_ne_nil d s) hl'
          exact ⟨by rw [heq], hrest⟩

theorem pieces_append {cap : Nat} (hcap : 0 < cap) : ∀ {fuel : Nat} {s : List α} (t : List α),
    (s ++ t).length ≤ fuel → s = [] ∨ s.getLast? = some nl →
      pieces nl cap fuel (s ++ t) = pieces nl cap fuel s ++ pieces nl cap fuel t
  | fuel, [], t, _, _ => by cases fuel <;> rfl
  | 0, c :: s, t, h, _ => by simp at h
  | fuel + 1, c :: s, t, h, hl => by
    obtain ⟨heq, hrest⟩ := piece_append t hcap (List.cons_ne_nil c s) (hl.resolve_left (List.cons_ne_nil c s))
    have hlt := piece_rest_lt nl hcap c s
    rw [List.length_append] at h
    have hshow : pieces nl cap (fuel + 1) (c :: s ++ t) =
        (piece nl cap (c :: s ++ t)).1 :: pieces nl cap fuel (piece nl cap (c :: s ++ t)).2 := rfl
    rw [hshow, heq]
    rw [pieces_append hcap t (by rw [List.length_append]; omega) hrest,
      pieces_fuel hcap (show t.length ≤ fuel by rw [List.length_cons] at h; omega) (show t.length ≤ fuel + 1 by omega)]
    rfl

section
variable {step : σ → List α → σ} (hend : ∀ t l, step t (l ++ [nl]) = step t l) (hempty : ∀ t, step t [] = t)
include hend hempty

/-- A line that fits the buffer, at the start of a text. -/
theorem foldl_line {cap fuel : Nat} {l r : List α} (hcap : 0 < cap) (hl : nl ∉ l) (hfit : l.length ≤ cap)
    (hlen : (l ++ nl :: r).length ≤ fuel) (t : σ) :
    (pieces nl cap fuel (l ++ nl :: r)).foldl step t = (pieces nl cap fuel r).foldl step (step t l) := by
  rw [List.length_append, List.length_cons] at hlen
  cases fuel with
  | zero => omega
  | succ fuel =>
    have hshow : ∀ s : List α, s ≠ [] → pieces nl cap (fuel + 1) s = (piece nl cap s).1 :: pieces nl cap fuel (piece nl cap s).2 := by
      intro s hs
      cases s with
      | nil => exact absurd rfl hs
      | cons c s => rfl
    rw [hshow _ (by simp), List.foldl_cons]
    rcases Nat.lt_or_eq_of_le hfit with hlt | heq
    · rw [piece_line r hl hlt, hend, pieces_fuel hcap (show r.length ≤ fuel by omega) (show r.length ≤ fuel + 1 by omega)]
    · rw [← heq, piece_full (nl :: r) hl, heq]
      cases fuel with
      | zero => omega
      | succ fuel =>
        have hnext : pieces nl cap (fuel + 1) (nl :: r) = (piece nl cap (nl :: r)).1 :: pieces nl cap fuel (piece nl cap (nl :: r)).2 := rfl
        have hpiece : piece nl cap ([] ++ nl :: r) = ([] ++ [nl], r) := piece_line r List.not_mem_nil hcap
        rw [List.nil_append] at hpiece
        rw [hnext, hpiece, List.foldl_cons, hend, hempty]
        rw [pieces_fuel hcap (show r.length ≤ fuel by omega) (show r.length ≤ fuel + 1 + 1 by omega)]

end

theorem foldl_last {step : σ → List α → σ} (hempty : ∀ t, step t [] = t) {cap fuel : Nat} {l : List α} (hl : nl ∉ l) (hfit : l.length ≤ cap) (hlen : l.length ≤ fuel) (t : σ) :
    (pieces nl cap fuel l).foldl step t = step t l := by
  cases l with
  | nil =>
    rw [hempty]
    cases fuel <;> rfl
  | cons c l =>
    cases fuel with
    | zero => simp at hlen
    | succ fuel =>
      have hshow : pieces nl cap (fuel + 1) (c :: l) = (piece nl cap (c :: l)).1 :: pieces nl cap fuel (piece nl cap (c :: l)).2 := rfl
      rw [hshow, piece_last hl hfit]
      cases fuel <;> rfl

end Lines
