import HxClog.Lib.Transition

/-!
# Bounded first-in first-out queues

What a bounded queue is for, with the ways in which an overflow policy may let
an element down: a newcomer is refused by a full queue or lost on its way in,
the oldest element is evicted by a full queue or discarded when it is taken
out. A queue within its bound is the only kind there is; the guards of `step`
say that elements leave oldest first.
-/

namespace Fifo

variable {α : Type*}

/-- How an element leaves the queue. -/
inductive Fate where
  | taken
  | evicted
  | discarded
  deriving DecidableEq, Repr

structure Queue (α : Type*) (cap : Nat) where
  items : List α
  bounded : items.length ≤ cap

inductive Op (α : Type*) where
  | push (a : α)
  | refuse (a : α)
  | lose (a : α)
  | leave (a : α) (f : Fate)
  deriving DecidableEq, Repr

def Queue.empty (cap : Nat) : Queue α cap := ⟨[], Nat.zero_le cap⟩

def Queue.full {cap : Nat} (q : Queue α cap) : Bool := q.items.length == cap

@[ext] theorem Queue.ext {cap : Nat} {q r : Queue α cap} (h : q.items = r.items) : q = r := by
  cases q; cases r; cases h; rfl

/-- `leave a f` is enabled only when `a` is the oldest element, and an eviction
only when the queue is full. -/
def step [DecidableEq α] {cap : Nat} (q : Queue α cap) : Op α → Option (Queue α cap)
  | .push a =>
    if h : q.items.length < cap then
      some ⟨q.items ++ [a], by rw [List.length_append]; exact h⟩
    else none
  | .refuse _ => if q.full then some q else none
  | .lose _ => some q
  | .leave a f =>
    match h : q.items with
    | [] => none
    | b :: rest =>
      if a = b ∧ (f = .evicted → q.full) then
        some ⟨rest, by have := q.bounded; rw [h, List.length_cons] at this; omega⟩
      else none

/-! ## What a run of operations says -/

def Op.pushed? : Op α → Option α
  | .push a => some a
  | _ => none

def Op.left? : Op α → Option (α × Fate)
  | .leave a f => some (a, f)
  | _ => none

def Op.lost? : Op α → Bool
  | .refuse _ => true
  | .lose _ => true
  | .leave _ f => f != .taken
  | .push _ => false

def pushed (ops : List (Op α)) : List α := ops.filterMap Op.pushed?

def left (ops : List (Op α)) : List (α × Fate) := ops.filterMap Op.left?

def losses (ops : List (Op α)) : Nat := ops.countP Op.lost?

/-- The elements of `gone` that met the fate `f`, in order. -/
def withFate (f : Fate) (gone : List (α × Fate)) : List α :=
  gone.filterMap fun p => if p.2 = f then some p.1 else none

@[simp] theorem pushed_append (xs ys : List (Op α)) : pushed (xs ++ ys) = pushed xs ++ pushed ys :=
  List.filterMap_append

@[simp] theorem left_append (xs ys : List (Op α)) : left (xs ++ ys) = left xs ++ left ys :=
  List.filterMap_append

@[simp] theorem losses_append (xs ys : List (Op α)) : losses (xs ++ ys) = losses xs + losses ys :=
  List.countP_append

@[simp] theorem withFate_append (f : Fate) (xs ys : List (α × Fate)) :
    withFate f (xs ++ ys) = withFate f xs ++ withFate f ys := List.filterMap_append

section
variable [DecidableEq α] {cap : Nat}

theorem step_push {q : Queue α cap} (a : α) (h : q.items.length < cap) :
    ∃ q', step q (.push a) = some q' ∧ q'.items = q.items ++ [a] :=
  ⟨⟨q.items ++ [a], by rw [List.length_append]; exact h⟩, by simp [step, h], rfl⟩

theorem step_leave {q : Queue α cap} {a : α} {rest : List α} (f : Fate) (h : q.items = a :: rest)
    (hf : f = .evicted → q.items.length = cap) :
    ∃ q', step q (.leave a f) = some q' ∧ q'.items = rest := by
  obtain ⟨items, hb⟩ := q
  subst h
  refine ⟨⟨rest, by rw [List.length_cons] at hb; omega⟩, ?_, rfl⟩
  simp only [step, Queue.full, beq_iff_eq, true_and]
  exact if_pos hf

/-- One step neither loses nor reorders: what was there, followed by what is
pushed, is what leaves, followed by what stays. -/
theorem step_conserves {q r : Queue α cap} {op : Op α} (h : step q op = some r) :
    q.items ++ pushed [op] = (left [op]).map Prod.fst ++ r.items := by
  cases op with
  | push a =>
    simp only [step] at h
    split at h
    · cases h; rfl
    · cases h
  | refuse a =>
    simp only [step] at h
    split at h
    · cases h; simp [pushed, left, List.filterMap_cons, Op.pushed?, Op.left?]
    · cases h
  | lose a =>
    cases h
    simp [pushed, left, List.filterMap_cons, Op.pushed?, Op.left?]
  | leave a f =>
    simp only [step] at h
    split at h
    · cases h
    · rename_i b rest hq
      split at h
      · rename_i hc
        cases h
        simp [pushed, left, List.filterMap_cons, Op.pushed?, Op.left?, hq, hc.1]
      · cases h

/-- A whole run conserves the elements and their order. -/
theorem run_conserves : ∀ (ops : List (Op α)) (q r : Queue α cap),
    Transition.run step q ops = some r → q.items ++ pushed ops = (left ops).map Prod.fst ++ r.items
  | [], q, r, h => by cases h; simp [pushed, left]
  | op :: ops, q, r, h => by
    rw [Transition.run_cons] at h
    cases hs : step q op with
    | none => rw [hs] at h; cases h
    | some q' =>
      rw [hs] at h
      have ih := run_conserves ops q' r h
      have h1 := step_conserves hs
      have hp : pushed (op :: ops) = pushed [op] ++ pushed ops := pushed_append [op] ops
      have hl : left (op :: ops) = left [op] ++ left ops := left_append [op] ops
      rw [hp, hl, ← List.append_assoc, h1, List.append_assoc, ih, List.map_append, List.append_assoc]

/-- Elements leave in the order in which they were pushed. -/
theorem run_fifo {ops : List (Op α)} {r : Queue α cap}
    (h : Transition.run step (Queue.empty cap) ops = some r) :
    pushed ops = (left ops).map Prod.fst ++ r.items := by
  have := run_conserves ops _ r h
  rwa [show (Queue.empty cap : Queue α cap).items = [] from rfl, List.nil_append] at this

end

end Fifo
