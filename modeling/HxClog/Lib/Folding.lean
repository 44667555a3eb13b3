import Mathlib

/-!
# Folding repeated items

Items that repeat the one before within a time window are counted instead of
passed on, and the count is passed on when the run ends: at an item that does not
belong to it, or at a flush when there is something to report. The machine that
does this item by item passes on what cutting the input into runs says.
-/

namespace Folding

section

variable {α κ μ : Type*}

inductive Input (α μ : Type*) where
  | item (a : α)
  | flush (m : μ)

/-- What ends a run: the next item or a flush. -/
abbrev Ending (α μ : Type*) := α ⊕ μ

inductive Output (α μ : Type*) where
  | first (a : α)
  | summary (first : α) (folded : Nat) (by_ : Ending α μ)

variable [DecidableEq κ] (key : α → κ) (time : α → Int) (window : Int)

/-- `a` continues a run of `first` whose last item came at `last`. -/
def Continues (first : α) (last : Int) (a : α) : Prop := key first = key a ∧ time a - last ≤ window

instance (first : α) (last : Int) (a : α) : Decidable (Continues key time window first last a) :=
  inferInstanceAs (Decidable (_ ∧ _))

/-! ## Cutting the input into runs -/

/-- A maximal run: its first item, how many were folded into it, and what ended it. -/
structure Run (α μ : Type*) where
  first : α
  folded : Nat
  ended : Option (Ending α μ)

/-- The rest of a run of `first` that has `folded` items and came last at `last`,
and the input behind it. A flush ends a run only when there is something to report. -/
def restOfRun (first : α) : Nat → Int → List (Input α μ) → Run α μ × List (Input α μ)
  | folded, _, [] => (⟨first, folded, none⟩, [])
  | folded, last, .item a :: es =>
    if Continues key time window first last a then restOfRun first (folded + 1) (time a) es
    else (⟨first, folded, some (.inl a)⟩, .item a :: es)
  | folded, last, .flush m :: es =>
    if 0 < folded then (⟨first, folded, some (.inr m)⟩, es) else restOfRun first folded last es

theorem restOfRun_length (first : α) : ∀ (folded : Nat) (last : Int) (es : List (Input α μ)),
    (restOfRun key time window first folded last es).2.length ≤ es.length
  | _, _, [] => Nat.le_refl _
  | folded, last, .item a :: es => by
    unfold restOfRun
    split
    · exact Nat.le_succ_of_le (restOfRun_length first _ _ es)
    · exact Nat.le_refl _
  | folded, last, .flush m :: es => by
    unfold restOfRun
    split
    · exact Nat.le_succ _
    · exact Nat.le_succ_of_le (restOfRun_length first _ _ es)

theorem restOfRun_first (first : α) : ∀ (folded : Nat) (last : Int) (es : List (Input α μ)),
    (restOfRun key time window first folded last es).1.first = first
  | _, _, [] => rfl
  | folded, last, .item a :: es => by
    unfold restOfRun
    split
    · exact restOfRun_first first _ _ es
    · rfl
  | folded, last, .flush m :: es => by
    unfold restOfRun
    split
    · rfl
    · exact restOfRun_first first _ _ es

def runs : List (Input α μ) → List (Run α μ)
  | [] => []
  | .flush _ :: es => runs es
  | .item a :: es =>
    let r := restOfRun key time window a 0 (time a) es
    r.1 :: runs r.2
  termination_by es => es.length
  decreasing_by
    · exact Nat.lt_succ_self _
    · exact Nat.lt_succ_of_le (restOfRun_length key time window a 0 (time a) es)

/-- What is said at the end of a run. -/
def Run.report (r : Run α μ) : List (Output α μ) :=
  match r.ended with
  | some e => if 0 < r.folded then [.summary r.first r.folded e] else []
  | none => []

def Run.output (r : Run α μ) : List (Output α μ) := .first r.first :: r.report

/-! ## The machine -/

/-- The run that is open. -/
structure State (α : Type*) where
  first : α
  folded : Nat
  last : Int

def step (s : Option (State α)) : Input α μ → Option (State α) × List (Output α μ)
  | .item a =>
    match s with
    | none => (some ⟨a, 0, time a⟩, [.first a])
    | some r =>
      if Continues key time window r.first r.last a then (some { r with folded := r.folded + 1, last := time a }, [])
      else (some ⟨a, 0, time a⟩, Run.report ⟨r.first, r.folded, some (.inl a)⟩ ++ [.first a])
  | .flush m =>
    match s with
    | none => (none, [])
    | some r => if 0 < r.folded then (none, [.summary r.first r.folded (.inr m)]) else (some r, [])

def run (s : Option (State α)) : List (Input α μ) → Option (State α) × List (Output α μ)
  | [] => (s, [])
  | e :: es =>
    let (s, out) := step key time window s e
    let (s, more) := run s es
    (s, out ++ more)

mutual

/-- From an open run the machine says how that run ends, and then what the runs behind it say. -/
theorem run_open : ∀ (es : List (Input α μ)) (r : State α),
    (run key time window (some r) es).2 =
      (restOfRun key time window r.first r.folded r.last es).1.report ++
        (runs key time window (restOfRun key time window r.first r.folded r.last es).2).flatMap Run.output
  | [], r => by simp [run, restOfRun, runs, Run.report]
  | .item a :: es, r => by
    by_cases h : Continues key time window r.first r.last a
    · have ih := run_open es ⟨r.first, r.folded + 1, time a⟩
      simp only [run, step, restOfRun, if_pos h, List.nil_append]
      exact ih
    · -- the run ends here, and `a` opens the next one
      have ih := run_open es ⟨a, 0, time a⟩
      simp only [run, step, restOfRun, if_neg h, runs, List.flatMap_cons, Run.output, restOfRun_first, ih,
        List.append_assoc, List.cons_append, List.nil_append]
  | .flush m :: es, r => by
    by_cases h : 0 < r.folded
    · have ih := run_idle es
      simp only [run, step, restOfRun, if_pos h, Run.report, ih]
    · have ih := run_open es r
      simp only [run, step, restOfRun, if_neg h, List.nil_append]
      exact ih

theorem run_idle : ∀ es : List (Input α μ),
    (run key time window none es).2 = (runs key time window es).flatMap Run.output
  | [] => by simp [run, runs]
  | .item a :: es => by
    have ih := run_open es ⟨a, 0, time a⟩
    simp only [run, step, runs, List.flatMap_cons, Run.output, restOfRun_first, ih, List.cons_append, List.nil_append]
  | .flush m :: es => by
    have ih := run_idle es
    simp only [run, step, runs, ih, List.nil_append]

end

/-! ## Counting -/

def Input.count : Input α μ → Nat
  | .item _ => 1
  | .flush _ => 0

/-- How many items an output stands for. -/
def Output.count : Output α μ → Nat
  | .first _ => 1
  | .summary _ k _ => k

def pending : Option (State α) → Nat
  | none => 0
  | some r => r.folded

/-- How many items the summary of a run reports. -/
def Run.reported (r : Run α μ) : Nat := if r.ended.isSome then r.folded else 0

end

end Folding
