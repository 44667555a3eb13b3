import HxClog.Lib.Walk
import HxClog.RoutingSound

/-!
# Callbacks that change the table

The loop of `hx_core_emit_to_sinks` walks the table by index while the callbacks that it
calls may remove and add sinks. What is removed at or in front of the index moves the
sinks behind it down, and the next of them is left out.
-/

namespace HxClog

open C Slots Walk

/-- What a callback can do to the table. -/
inductive TableEdit where
  | remove (id : Nat)
  | add (made : Bool)

namespace Core

def edit (c : Core) : TableEdit → Core
  | .remove id => (c.hxClogRemoveSink id).1
  | .add made => (c.addNew .callback made).1

section
-- what each callback does when it is called
variable (react : Core → Sink → List TableEdit) (l : Line)

/-- The body of the loop: a line that reaches a callback sink is handed to the callback. -/
def emitAt (i : Nat) (c : Core) : Core :=
  match c.table.slots i with
  | none => c
  | some s =>
    if routes l.target s = false then c
    else
      let c := c.log (hxSinkWrite l.level l.bytes s)
      if s.kind = .callback ∧ s.minLevel ≤ l.level then (react c s).foldl edit c else c

/-- The loop from index `i` on. There are never more than `maxSinks` sinks. -/
def emitFrom : Nat → Nat → Core → Core
  | 0, _, c => c
  | fuel + 1, i, c => if i < c.table.count then emitFrom fuel (i + 1) (emitAt react l i c) else c

/-- `hx_core_emit_to_sinks` with callbacks that edit the table. -/
def emitReentrant (c : Core) : Core :=
  let c := emitFrom react l maxSinks 0 c
  if l.countStats then { c with writtenLines := c.writtenLines + 1 } else c

end

def objs (c : Core) : List Nat := c.table.live.map Sink.obj

/-! ## Edits -/

section
variable {c : Core}

theorem edit_slotted (h : c.Slotted 0) (e : TableEdit) : (c.edit e).Slotted 0 := by
  cases e with
  | remove id => exact h.removeSink id
  | add made => exact h.addNew .callback made

/-- `c'` comes from `c` by edits: the sink with this object is as it was, unless it was removed, and nothing
was written to it. -/
structure Edited (obj : Nat) (c c' : Core) : Prop where
  slotted : c'.Slotted 0
  made : obj < c'.created
  changes : Changes obj c.objs c'.objs
  same : ∀ t ∈ c'.table.live, t.obj = obj → t ∈ c.table.live
  writes : ∀ level line, c'.ops.count (.write obj level line) = c.ops.count (.write obj level line)

variable {obj : Nat}

theorem Edited.refl (h : c.Slotted 0) (hobj : obj < c.created) : Edited obj c c :=
  ⟨h, hobj, Changes.refl _ _, fun _ ht _ => ht, fun _ _ => rfl⟩

theorem Edited.trans {c' c'' : Core} (h : Edited obj c c') (h' : Edited obj c' c'') : Edited obj c c'' :=
  ⟨h'.slotted, h'.made, h.changes.trans h'.changes, fun t ht hto => h.same t (h'.same t ht hto) hto,
    fun level line => (h'.writes level line).trans (h.writes level line)⟩

end

/-! ## The loop -/

section
variable {react : Core → Sink → List TableEdit} {l : Line} {c : Core}

theorem slot_eq (h : c.Slotted 0) {i : Nat} (hi : i < c.table.live.length) : c.table.slots i = c.table.live[i]? :=
  h.holds.2 i hi

/-- A sink that gets the line. -/
def Wanted (l : Line) (s : Sink) : Prop := s.overrideSet = false ∧ s.minLevel ≤ l.level

/-- `s` is in the table from before to after the loop, and gets the line. -/
structure Stays (react : Core → Sink → List TableEdit) (l : Line) (c : Core) (s : Sink) : Prop where
  before : s ∈ c.table.live
  wanted : Wanted l s
  after : s.obj ∈ (emitReentrant react l c).objs

end

/-! ## Runs -/

/-- The states that calls and lines lead to, whatever the callbacks do. -/
inductive Reached : Core → Prop where
  | start : Reached coreOnceInit
  | call {c : Core} (k : Call) : Reached c → Reached (k.run c)
  | emit {c : Core} (react : Core → Sink → List TableEdit) (l : Line) : Reached c → Reached (emitReentrant react l c)

section
variable {react : Core → Sink → List TableEdit} {l : Line} {c : Core}

theorem edits_slotted (es : List TableEdit) (h : c.Slotted 0) : (es.foldl edit c).Slotted 0 := by
  induction es generalizing c with
  | nil => exact h
  | cons e es ih => exact ih (edit_slotted h e)

theorem emitAt_slotted (h : c.Slotted 0) (i : Nat) : (emitAt react l i c).Slotted 0 := by
  have hlog : ∀ ops, (c.log ops).Slotted 0 := fun ops => h.congr rfl rfl rfl
  unfold emitAt
  split
  · exact h
  · simp only
    split
    · exact h
    · split
      · exact edits_slotted _ (hlog _)
      · exact hlog _

theorem emitFrom_slotted (fuel i : Nat) (h : c.Slotted 0) : (emitFrom react l fuel i c).Slotted 0 := by
  induction fuel generalizing i c with
  | zero => exact h
  | succ fuel ih =>
    unfold emitFrom
    split
    · exact ih (i + 1) (emitAt_slotted h i)
    · exact h

theorem Reached.slotted (h : Reached c) : c.Slotted 0 := by
  induction h with
  | start => exact start_slotted
  | call k h ih => exact run_slotted ih k
  | emit react l h ih =>
    unfold emitReentrant
    simp only
    split
    · exact (emitFrom_slotted maxSinks 0 ih).congr rfl rfl rfl
    · exact emitFrom_slotted maxSinks 0 ih

/-- Callbacks that leave the table alone: the loop writes to the sinks of the table in order. -/
theorem emitFrom_quiet (fuel i : Nat) (h : c.Slotted 0) (hfuel : c.table.count ≤ i + fuel) :
    emitFrom (fun _ _ => []) l fuel i c =
      c.log (((c.table.live.drop i).filter (routes l.target)).flatMap (hxSinkWrite l.level l.bytes)) := by
  have hcount := h.holds.1
  induction fuel generalizing i c with
  | zero =>
    rw [List.drop_eq_nil_of_le (by omega)]
    unfold emitFrom log
    simp
  | succ fuel ih =>
    unfold emitFrom
    by_cases hi : i < c.table.count
    · have hlive : i < c.table.live.length := hcount ▸ hi
      have hslot := slot_eq h hlive
      rw [List.getElem?_eq_getElem hlive] at hslot
      rw [if_pos hi, List.drop_eq_getElem_cons hlive, List.filter_cons]
      unfold emitAt
      rw [hslot]
      simp only [List.foldl_nil, ite_self]
      by_cases hroutes : routes l.target c.table.live[i] = true
      · have hlog : (c.log (hxSinkWrite l.level l.bytes c.table.live[i])).Slotted 0 := h.congr rfl rfl rfl
        rw [if_pos hroutes, if_neg (by rw [hroutes]; decide), ih (i + 1) hlog (by change c.table.count ≤ _; omega) hcount]
        unfold log
        simp
      · rw [if_neg hroutes, if_pos (Bool.eq_false_iff.mpr hroutes)]
        exact ih (i + 1) h (by omega) hcount
    · rw [if_neg hi, List.drop_eq_nil_of_le (by omega)]
      unfold log
      simp

/-- Then it is the loop that the rest of the development is about. -/
theorem emitReentrant_quiet (h : c.Slotted 0) : emitReentrant (fun _ _ => []) l c = c.hxCoreEmitToSinks l := by
  unfold emitReentrant hxCoreEmitToSinks
  rw [emitFrom_quiet maxSinks 0 h (by rw [Nat.zero_add]; exact h.room)]
  rfl

end

/-! ## A callback that removes its own sink -/

/-- Two callback sinks with the ids 1 and 2. -/
def pair : Core := runCalls coreOnceInit [.addSink .callback true, .addSink .callback true]

end Core

end HxClog
