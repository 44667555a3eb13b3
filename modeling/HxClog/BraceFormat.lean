import HxClog.Lib.C

/-!
# Brace formatting

`append_brace_format` copies the format up to its first placeholder, streams one value and
leaves the rest to the instance with one value fewer. The instance without values only
copies, so it reads the brace behind a placeholder differently; what it prints is the same.
-/

namespace HxClog

open C

def openBrace : UInt8 := chr '\x7b'

def closeBrace : UInt8 := chr '\x7d'

def isBrace (c : UInt8) : Bool := c = openBrace || c = closeBrace

def placeholder : Bytes := [openBrace, closeBrace]

/-- `{{` or `}}` -/
def escapedBrace (c d : UInt8) : Bool := (c = openBrace && d = openBrace) || (c = closeBrace && d = closeBrace)

/-- The loop of the base case. -/
def copyText (os : Bytes) : Bytes → Bytes
  | [] => os
  | [c] => os ++ [c]
  | c :: d :: p => if escapedBrace c d then copyText (os ++ [c]) p else copyText (os ++ [c]) (d :: p)

/-- The loop of the case with a value; `next` is the call for the rest of the values. -/
def copyToPlaceholder (value : Bytes) (next : Bytes → Option Bytes → Bytes) (os : Bytes) : Bytes → Bytes
  | [] => os
  | [c] => os ++ [c]
  | c :: d :: p =>
    if escapedBrace c d then copyToPlaceholder value next (os ++ [c]) p
    else if c = openBrace && d = closeBrace then next (os ++ value) (some p)
    else copyToPlaceholder value next (os ++ [c]) (d :: p)

section
variable {Value : Type} (stream : Value → Bytes)

/-- A missing format counts as an empty one. `stream` is what `<<` prints of a value. -/
def appendBraceFormat : List Value → Bytes → Option Bytes → Bytes
  | [], os, fmt => copyText os (fmt.getD [])
  | value :: rest, os, fmt => copyToPlaceholder (stream value) (appendBraceFormat rest) os (fmt.getD [])

def braceFormat (fmt : Bytes) (args : List Value) : Bytes :=
  appendBraceFormat stream args [] (some (CStr.ofBytes fmt).bytes)

end

/-! ## Escaping -/

def escOne (c : UInt8) : Bytes := if isBrace c then [c, c] else [c]

/-- Every brace doubled. -/
def escBraces (a : Bytes) : Bytes := a.flatMap escOne

theorem escBraces_cons (c : UInt8) (a : Bytes) : escBraces (c :: a) = escOne c ++ escBraces a := List.flatMap_cons

theorem escOne_brace {c : UInt8} (h : isBrace c = true) : escOne c = [c, c] := if_pos h

theorem escOne_plain {c : UInt8} (h : ¬isBrace c = true) : escOne c = [c] := if_neg h

theorem escBraces_noNul {a : Bytes} (h : 0 ∉ a) : 0 ∉ escBraces a := by
  unfold escBraces
  rw [List.mem_flatMap]
  rintro ⟨c, hc, h0⟩
  unfold escOne at h0
  split at h0
  · simp only [List.mem_cons, List.not_mem_nil, or_false, or_self] at h0
    exact h (h0 ▸ hc)
  · exact h (List.mem_singleton.mp h0 ▸ hc)

theorem escapedBrace_same {c : UInt8} (h : isBrace c = true) : escapedBrace c c = true := by
  unfold isBrace at h
  unfold escapedBrace
  simpa only [Bool.and_self] using h

theorem escapedBrace_plain {c : UInt8} (h : ¬isBrace c = true) (d : UInt8) : escapedBrace c d = false := by
  unfold isBrace at h
  unfold escapedBrace
  simp only [Bool.or_eq_true, decide_eq_true_eq, not_or] at h
  simp only [h.1, h.2, decide_false, Bool.false_and, Bool.or_self]

theorem escapedBrace_close {d : UInt8} (h : d ≠ closeBrace) : escapedBrace closeBrace d = false := by
  unfold escapedBrace
  rw [decide_eq_false h, Bool.and_false, Bool.or_false]
  exact Bool.false_and _

theorem copyText_lone (os : Bytes) {d : UInt8} (h : d ≠ closeBrace) (p : Bytes) :
    copyText os (closeBrace :: d :: p) = copyText (os ++ [closeBrace]) (d :: p) := by
  conv => lhs; unfold copyText
  rw [escapedBrace_close h, if_neg Bool.false_ne_true]

/-- A loop that prints one of two equal braces and copies what is no brace. -/
structure Unescapes (loop : Bytes → Bytes → Bytes) : Prop where
  pair : ∀ {c : UInt8} (os p : Bytes), isBrace c = true → loop os (c :: c :: p) = loop (os ++ [c]) p
  plain : ∀ {c : UInt8} (os p : Bytes), ¬isBrace c = true → loop os (c :: p) = loop (os ++ [c]) p

theorem Unescapes.append {loop : Bytes → Bytes → Bytes} (h : Unescapes loop) (a : Bytes) :
    ∀ os p, loop os (escBraces a ++ p) = loop (os ++ a) p := by
  induction a with
  | nil =>
    intro os p
    rw [List.append_nil]
    rfl
  | cons c a ih =>
    intro os p
    rw [escBraces_cons, List.append_assoc, List.append_cons os c a, ← ih]
    by_cases hc : isBrace c = true
    · rw [escOne_brace hc]
      exact h.pair os _ hc
    · rw [escOne_plain hc]
      exact h.plain os _ hc

theorem copyText_unescapes : Unescapes copyText where
  pair os p hc := by
    conv => lhs; unfold copyText
    rw [if_pos (escapedBrace_same hc)]
  plain {c} os p hc := by
    cases p with
    | nil => rfl
    | cons d p =>
      conv => lhs; unfold copyText
      rw [escapedBrace_plain hc, if_neg Bool.false_ne_true]

theorem copyToPlaceholder_unescapes (value : Bytes) (next : Bytes → Option Bytes → Bytes) :
    Unescapes (copyToPlaceholder value next) where
  pair os p hc := by
    conv => lhs; unfold copyToPlaceholder
    rw [if_pos (escapedBrace_same hc)]
  plain {c} os p hc := by
    have hopen : c ≠ openBrace := by
      rintro rfl
      exact hc rfl
    cases p with
    | nil => rfl
    | cons d p =>
      conv => lhs; unfold copyToPlaceholder
      rw [escapedBrace_plain hc, if_neg Bool.false_ne_true, decide_eq_false hopen, Bool.false_and,
        if_neg Bool.false_ne_true]

theorem copyToPlaceholder_found (value : Bytes) (next : Bytes → Option Bytes → Bytes) (os p : Bytes) :
    copyToPlaceholder value next os (placeholder ++ p) = next (os ++ value) (some p) := rfl

/-! ## Placeholders that are left -/

/-- The base case pairs a brace behind a placeholder with the placeholder's own; the braces it prints are as many. -/
theorem copyText_close (a : Bytes) {p : Bytes} (hp : p.head? ≠ some closeBrace) :
    ∀ os, copyText os (closeBrace :: (escBraces a ++ p)) = copyText (os ++ closeBrace :: a) p := by
  induction a with
  | nil =>
    intro os
    cases p with
    | nil => rfl
    | cons d p =>
      exact copyText_lone os (fun h => hp (congrArg some h)) p
  | cons c a ih =>
    intro os
    by_cases hc : c = closeBrace
    · subst hc
      calc copyText os (closeBrace :: (escBraces (closeBrace :: a) ++ p))
          = copyText (os ++ [closeBrace]) (closeBrace :: (escBraces a ++ p)) := rfl
        _ = copyText (os ++ closeBrace :: closeBrace :: a) p := by
          rw [ih, List.append_assoc]
          rfl
    · have hne : (escBraces (c :: a) ++ p).head? = some c := by
        rw [escBraces_cons]
        unfold escOne
        split <;> rfl
      obtain ⟨s, hs⟩ : ∃ s, escBraces (c :: a) ++ p = c :: s := List.head?_eq_some_iff.mp hne
      calc copyText os (closeBrace :: (escBraces (c :: a) ++ p))
          = copyText (os ++ [closeBrace]) (escBraces (c :: a) ++ p) := by
            rw [hs]
            exact copyText_lone os hc s
        _ = copyText (os ++ closeBrace :: c :: a) p := by
          rw [copyText_unescapes.append, List.append_assoc]
          rfl

/-! ## Templates -/

/-- The segments behind placeholders. -/
def templateTail (segments : List CStr) : Bytes := segments.flatMap fun b => placeholder ++ escBraces b.bytes

def template (a : CStr) (segments : List CStr) : Bytes := escBraces a.bytes ++ templateTail segments

theorem templateTail_head (segments : List CStr) : (templateTail segments).head? ≠ some closeBrace := by
  cases segments with
  | nil =>
    intro h
    cases h
  | cons b segments =>
    change some openBrace ≠ some closeBrace
    decide

theorem template_noNul (a : CStr) (segments : List CStr) : 0 ∉ template a segments := by
  unfold template templateTail
  rw [List.mem_append, List.mem_flatMap]
  rintro (h | ⟨b, -, h⟩)
  · exact escBraces_noNul a.noNul h
  · rcases List.mem_append.mp h with h | h
    · exact absurd h (by decide)
    · exact escBraces_noNul b.noNul h

/-- What stands at the placeholders, each followed by its segment. -/
def filled (outputs : List Bytes) (segments : List CStr) : Bytes :=
  (List.zipWith (fun v b => v ++ b.bytes) outputs segments).flatten

theorem filled_cons (v : Bytes) (outputs : List Bytes) (b : CStr) (segments : List CStr) :
    filled (v :: outputs) (b :: segments) = v ++ b.bytes ++ filled outputs segments := by
  unfold filled
  rw [List.zipWith_cons_cons, List.flatten_cons]

theorem copyText_template (segments : List CStr) : ∀ (os : Bytes) (a : CStr) (n : Nat), segments.length ≤ n →
    copyText os (template a segments) = os ++ a.bytes ++ filled (List.replicate n placeholder) segments := by
  induction segments with
  | nil =>
    intro os a n _
    unfold template templateTail filled
    rw [List.flatMap_nil, copyText_unescapes.append, List.zipWith_nil_right]
    exact (List.append_nil _).symm
  | cons b segments ih =>
    intro os a n hn
    obtain ⟨n, rfl⟩ : ∃ m, n = m + 1 := ⟨n - 1, (Nat.succ_pred_eq_of_pos (Nat.zero_lt_of_lt hn)).symm⟩
    have hopen : ∀ os s, copyText os (placeholder ++ s) = copyText (os ++ [openBrace]) (closeBrace :: s) := fun _ _ => rfl
    have htail : templateTail (b :: segments) = placeholder ++ (escBraces b.bytes ++ templateTail segments) :=
      List.append_assoc _ _ _
    calc copyText os (template a (b :: segments))
        = copyText (os ++ a.bytes ++ [openBrace]) (closeBrace :: (escBraces b.bytes ++ templateTail segments)) := by
          unfold template
          rw [copyText_unescapes.append, htail, hopen]
      _ = copyText (os ++ a.bytes ++ placeholder ++ b.bytes) (templateTail segments) := by
          rw [copyText_close b.bytes (templateTail_head segments)]
          simp only [placeholder, List.append_assoc, List.cons_append, List.nil_append]
      _ = copyText (os ++ a.bytes ++ placeholder) (template b segments) :=
          (copyText_unescapes.append b.bytes _ _).symm
      _ = os ++ a.bytes ++ filled (List.replicate (n + 1) placeholder) (b :: segments) := by
          rw [ih _ b n (Nat.le_of_succ_le_succ hn), List.replicate_succ, filled_cons]
          simp only [List.append_assoc]

section
variable {Value : Type} (stream : Value → Bytes)

theorem appendBraceFormat_template (segments : List CStr) : ∀ (values : List Value) (os : Bytes) (a : CStr) (n : Nat),
    segments.length ≤ n → appendBraceFormat stream values os (some (template a segments)) =
      os ++ a.bytes ++ filled (values.map stream ++ List.replicate n placeholder) segments := by
  induction segments with
  | nil =>
    intro values os a n hn
    cases values with
    | nil => exact copyText_template [] os a n hn
    | cons v values =>
      unfold appendBraceFormat template templateTail filled
      rw [Option.getD_some, List.flatMap_nil, (copyToPlaceholder_unescapes _ _).append, List.zipWith_nil_right]
      exact (List.append_nil _).symm
  | cons b segments ih =>
    intro values os a n hn
    cases values with
    | nil => exact copyText_template (b :: segments) os a n hn
    | cons v values =>
      have htail : templateTail (b :: segments) = placeholder ++ template b segments := List.append_assoc _ _ _
      calc appendBraceFormat stream (v :: values) os (some (template a (b :: segments)))
          = appendBraceFormat stream values (os ++ a.bytes ++ stream v) (some (template b segments)) := by
            conv => lhs; unfold appendBraceFormat template
            rw [Option.getD_some, (copyToPlaceholder_unescapes _ _).append, htail, copyToPlaceholder_found]
        _ = os ++ a.bytes ++ filled ((v :: values).map stream ++ List.replicate n placeholder) (b :: segments) := by
            rw [ih values _ b n (Nat.le_of_succ_le hn), List.map_cons, List.cons_append, filled_cons]
            simp only [List.append_assoc]

/-- Formatting puts the values between the segments in order, and leaves the placeholders that have no value. -/
theorem brace_format_template (a : CStr) (segments : List CStr) (values : List Value) :
    braceFormat stream (template a segments) values =
      a.bytes ++ filled (values.map stream ++ List.replicate segments.length placeholder) segments := by
  unfold braceFormat
  rw [CStr.ofBytes_bytes (template_noNul a segments),
    appendBraceFormat_template stream segments values [] a _ (Nat.le_refl _)]
  rfl

end

end HxClog
