import HxClog.Lib.Json

/-!
# Forms

A form says how values are printed and how they are scanned. It carries the proof that what
is printed is scanned again, where nothing follows that could be taken for a part of it, and
so do the forms that are made of other forms.
-/

/-- `Good` are the values that can be told, and `Next` is what may follow them. -/
structure Form (σ α : Type*) where
  print : α → List σ
  scan : List σ → Option (α × List σ)
  Good : α → Prop
  Next : List σ → Prop
  scans : ∀ {a rest}, Good a → Next rest → scan (print a ++ rest) = some (a, rest)

namespace Form

variable {σ α β : Type*}

/-! ## Texts -/

section
variable [DecidableEq σ]

/-- What follows `t`. -/
def skip : List σ → List σ → Option (List σ)
  | [], s => some s
  | _ :: _, [] => none
  | c :: t, d :: s => if c = d then skip t s else none

@[simp] theorem skip_append : ∀ t s : List σ, skip t (t ++ s) = some s
  | [], _ => rfl
  | _ :: t, s => (if_pos rfl).trans (skip_append t s)

/-- With a text in front. -/
def tagged (t : List σ) (p : Form σ α) : Form σ α where
  print a := t ++ p.print a
  scan s := (skip t s).bind p.scan
  Good := p.Good
  Next := p.Next
  scans := by
    intro a rest ha hrest
    rw [List.append_assoc, skip_append]
    exact p.scans ha hrest

/-- With a text behind. -/
def closed (p : Form σ α) (t : List σ) : Form σ α where
  print a := p.print a ++ t
  scan s := (p.scan s).bind fun (a, r) => (skip t r).map fun r => (a, r)
  Good a := p.Good a ∧ ∀ rest, p.Next (t ++ rest)
  Next _ := True
  scans := by
    intro a rest ⟨ha, hnext⟩ _
    rw [List.append_assoc, p.scans ha (hnext rest)]
    exact congrArg (Option.map fun r => (a, r)) (skip_append t rest)

/-- The text up to the first `c`. -/
def upTo (c : σ) : Form σ (List σ) where
  print t := t ++ [c]
  scan s := (skip [c] (s.dropWhile (· ≠ c))).map fun r => (s.takeWhile (· ≠ c), r)
  Good t := c ∉ t
  Next _ := True
  scans := by
    intro t rest ht _
    have hne : ∀ x ∈ t, decide (x ≠ c) = true := by
      intro x hx
      exact decide_eq_true fun he => ht (he ▸ hx)
    have hstop : decide (c ≠ c) = false := decide_eq_false (not_not_intro rfl)
    rw [List.append_assoc, List.singleton_append, List.dropWhile_append_of_pos hne, List.takeWhile_append_of_pos hne,
      List.dropWhile_cons_of_neg (by simp), List.takeWhile_cons_of_neg (by simp), List.append_nil]
    exact congrArg (Option.map fun r => (t, r)) (skip_append [c] rest)

/-- A text, or a value whose print does not start with it. -/
def orText (t : List σ) (p : Form σ α) : Form σ (Option α) where
  print a := a.elim t p.print
  scan s :=
    match skip t s with
    | some r => some (none, r)
    | none => (p.scan s).map fun (a, r) => (some a, r)
  Good a := ∀ x ∈ a, p.Good x ∧ ∀ rest, skip t (p.print x ++ rest) = none
  Next := p.Next
  scans := by
    intro a rest ha hrest
    cases a with
    | none => simp
    | some x =>
      obtain ⟨hx, hnot⟩ := ha x rfl
      simp [hnot rest, p.scans hx hrest]

end

/-- All that is left. -/
def all : Form σ (List σ) where
  print t := t
  scan s := some (s, [])
  Good _ := True
  Next rest := rest = []
  scans := by
    intro t rest _ hrest
    rw [hrest, List.append_nil]

/-! ## Behind one another -/

def seq (p : Form σ α) (q : Form σ β) : Form σ (α × β) where
  print x := p.print x.1 ++ q.print x.2
  scan s := (p.scan s).bind fun (a, r) => (q.scan r).map fun (b, r) => ((a, b), r)
  Good x := p.Good x.1 ∧ q.Good x.2 ∧ ∀ rest, q.Next rest → p.Next (q.print x.2 ++ rest)
  Next := q.Next
  scans := by
    intro x rest ⟨hp, hq, hnext⟩ hrest
    rw [List.append_assoc, p.scans hp (hnext rest hrest)]
    exact congrArg (Option.map _) (q.scans hq hrest)

/-- The same text for other values. -/
def via (p : Form σ α) (f : α → β) (g : β → α) (h : ∀ b, f (g b) = b) : Form σ β where
  print b := p.print (g b)
  scan s := (p.scan s).map fun (a, r) => (f a, r)
  Good b := p.Good (g b)
  Next := p.Next
  scans := by
    intro b rest hb hrest
    rw [p.scans hb hrest]
    exact congrArg (fun c => some (c, rest)) (h b)

def opt (p : Form σ α) : Form σ (Option α) where
  print a := a.elim [] p.print
  scan s :=
    match p.scan s with
    | some (a, r) => some (some a, r)
    | none => some (none, s)
  Good a := ∀ x ∈ a, p.Good x
  Next rest := p.Next rest ∧ p.scan rest = none
  scans := by
    intro a rest ha hrest
    cases a with
    | none => simp [hrest.2]
    | some x => simp [p.scans (ha x rfl) hrest.1]

/-- As many values as there are; each of them takes some of the text. -/
def scanMany (p : Form σ α) : Nat → List σ → List α × List σ
  | 0, s => ([], s)
  | fuel + 1, s =>
    match p.scan s with
    | some (a, r) => let (l, r) := p.scanMany fuel r; (a :: l, r)
    | none => ([], s)

theorem scanMany_print {p : Form σ α} (hnext : ∀ s, p.Next s) {rest : List σ} (hrest : p.scan rest = none) :
    ∀ (l : List α) (fuel : Nat), (∀ a ∈ l, p.Good a) → l.length ≤ fuel →
      p.scanMany fuel (l.flatMap p.print ++ rest) = (l, rest)
  | [], 0, _, _ => rfl
  | [], _ + 1, _, _ => by
    rw [List.flatMap_nil, List.nil_append]
    unfold scanMany
    rw [hrest]
  | a :: l, fuel + 1, hl, hfuel => by
    have ih := scanMany_print hnext hrest l fuel (fun b hb => hl b (List.mem_cons_of_mem _ hb)) (Nat.le_of_succ_le_succ hfuel)
    rw [List.flatMap_cons, List.append_assoc]
    unfold scanMany
    rw [p.scans (hl a List.mem_cons_self) (hnext _)]
    simp only [ih]

theorem length_le_print {p : Form σ α} : ∀ {l : List α}, (∀ a ∈ l, p.print a ≠ []) → l.length ≤ (l.flatMap p.print).length
  | [], _ => Nat.le_refl _
  | a :: l, h => by
    have hone := List.length_pos_of_ne_nil (h a List.mem_cons_self)
    have ih := length_le_print fun b hb => h b (List.mem_cons_of_mem a hb)
    rw [List.flatMap_cons, List.length_append, List.length_cons]
    omega

def many (p : Form σ α) (hnext : ∀ s, p.Next s) : Form σ (List α) where
  print l := l.flatMap p.print
  scan s := some (p.scanMany s.length s)
  Good l := ∀ a ∈ l, p.Good a ∧ p.print a ≠ []
  Next rest := p.scan rest = none
  scans := by
    intro l rest hl hrest
    have hfuel : l.length ≤ (l.flatMap p.print ++ rest).length := by
      rw [List.length_append]
      exact Nat.le_add_right_of_le (length_le_print fun a ha => (hl a ha).2)
    rw [scanMany_print hnext hrest l _ (fun a ha => (hl a ha).1) hfuel]

/-! ## Numbers -/

open C Scan Decimal Json

/-- `%u`, or with zeros in front up to a width. -/
def natural (width : Nat) : Form UInt8 Nat where
  print := padded width
  scan s := if s.takeWhile isDigit = [] then none else some (value (s.takeWhile isDigit), s.dropWhile isDigit)
  Good _ := True
  Next := NoDigit
  scans := by
    intro v rest _ hrest
    have htake : (padded width v ++ rest).takeWhile isDigit = padded width v :=
      takeWhile_append_stop (padded_digit width v) hrest
    have hdrop : (padded width v ++ rest).dropWhile isDigit = rest := by
      rw [← drop_takeWhile, htake, List.drop_left]
    rw [htake, hdrop, if_neg (padded_ne_nil width v), value_padded]

/-- `%d` of an `int`. -/
def integer (width : Nat) : Form UInt8 Int where
  print := padInt width
  scan s := (scanInt none s).map fun (n, r) => (n.value, r)
  Good v := -2 ^ 31 ≤ v ∧ v < 2 ^ 31
  Next := NoDigit
  scans := by
    intro v rest hv hrest
    rw [← Numeral.ofInt_text, scanInt_append none _ (fun w hw => nomatch hw) hrest]
    exact congrArg (fun n => some (n, rest)) (Numeral.ofInt_value hv.1 hv.2)

def hexDigit (d : Nat) : UInt8 := if d < 10 then digit d else UInt8.ofNat (87 + d)

/-- The last `n` digits to the base 16. -/
def hexText : Nat → Nat → Bytes
  | 0, _ => []
  | n + 1, v => hexText n (v / 16) ++ [hexDigit (v % 16)]

theorem hexText_length : ∀ n v : Nat, (hexText n v).length = n
  | 0, _ => rfl
  | n + 1, v => by
    unfold hexText
    rw [List.length_append, hexText_length n (v / 16)]
    rfl

theorem hexValue_digit : ∀ d < 16, hexValue (hexDigit d) = some d := by decide

def hexNumber (ds : List Nat) : Nat := ds.foldl (fun v d => v * 16 + d) 0

theorem hexText_values : ∀ {n v : Nat}, v < 16 ^ n → ((hexText n v).mapM hexValue).map hexNumber = some v
  | 0, v, h => by
    obtain rfl : v = 0 := by simpa using h
    rfl
  | n + 1, v, h => by
    have hlt : v / 16 < 16 ^ n := by
      rw [Nat.div_lt_iff_lt_mul (by decide), ← Nat.pow_succ]
      exact h
    obtain ⟨ds, hds, hv⟩ := Option.map_eq_some_iff.mp (hexText_values hlt)
    have hlast : [hexDigit (v % 16)].mapM hexValue = some [v % 16] := by
      simp [hexValue_digit _ (Nat.mod_lt v (by decide))]
    unfold hexText
    rw [List.mapM_append, hds, hlast]
    simp only [Option.bind_eq_bind, Option.bind_some, Option.pure_def, Option.map_some]
    unfold hexNumber at hv ⊢
    rw [List.foldl_append, hv]
    simp only [List.foldl_cons, List.foldl_nil, Option.some.injEq]
    omega

/-- A digit of the text, from the front. -/
theorem hexText_eq (n v : Nat) : hexText n v = (List.range n).map fun i => hexDigit (v / 16 ^ (n - 1 - i) % 16) := by
  induction n generalizing v with
  | zero => rfl
  | succ n ih =>
    unfold hexText
    rw [ih, List.range_succ, List.map_append, List.map_singleton]
    congr 1
    · refine List.map_congr_left fun i hi => ?_
      have hlt := List.mem_range.mp hi
      have hexp : n + 1 - 1 - i = (n - 1 - i) + 1 := by omega
      rw [hexp, Nat.pow_succ, Nat.mul_comm, Nat.div_div_eq_div_mul]
    · simp

/-- A number of `n` hexadecimal digits. -/
def hex (n : Nat) : Form UInt8 Nat where
  print := hexText n
  scan s := if s.length < n then none else (((s.take n).mapM hexValue).map hexNumber).map fun v => (v, s.drop n)
  Good v := v < 16 ^ n
  Next _ := True
  scans := by
    intro v rest hv _
    have hlen : ¬(hexText n v ++ rest).length < n := by
      rw [List.length_append, hexText_length]
      omega
    rw [if_neg hlen, List.take_left' (hexText_length n v), List.drop_left' (hexText_length n v), hexText_values hv,
      Option.map_some]

end Form
