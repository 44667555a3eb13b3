import HxClog.DupSound

/-!
# Suppression is folding

With messages, logger names and file names that the state keeps whole, the records
dispatched are what cutting the calls into runs says.
-/

namespace HxClog

open C

/-! ## Calls as items -/

/-- A call with the message that `vsnprintf` made. -/
abbrev Item := WriteCall × Bytes

def Writer.itemKey (w : Writer) (a : Item) : DupKey := w.key a.1 a.2

def itemTime (a : Item) : Int := a.1.checkedAt.ms

/-- What an event means to the folding. A call that is turned away means nothing. -/
def Writer.input (w : Writer) : Event → Option (Folding.Input Item Moment)
  | .write c => (w.accepted c).map fun text => .item (c, text)
  | .flush m => some (.flush m)

/-- The moment a summary carries: that of the call, or of the flush, that brings it out. -/
def endedAt : Folding.Ending Item Moment → Moment
  | .inl a => a.1.summaryAt
  | .inr m => m

/-- The record of an output: a message, or the count with its run's level and logger. -/
def Writer.render (w : Writer) : Folding.Output Item Moment → Record
  | .first a => w.record a.1 a.2
  | .summary a folded e => summaryRecord w a.1.level (w.effectiveLogger a.1).bytes folded (endedAt e)

/-- The state has the open run. -/
def Tracks (w : Writer) (d : DupState) : Option (Folding.State Item) → Prop
  | none => d.haveLast = false ∧ d.repeats = 0
  | some r => d.Holds (w.itemKey r.first) ∧ (w.itemKey r.first).Short ∧ d.repeats = r.folded ∧ d.lastMs = r.last

/-! ## One event -/

def Writer.withDup (w : Writer) (d : DupState) : Writer := { w with dup := d }

/-- What an event did is what the folding does with its input. -/
def Simulates (w : Writer) (d : DupState) (s : Option (Folding.State Item)) (i : Folding.Input Item Moment)
    (done : Writer × List Record) : Prop :=
  ∃ d', done = (w.withDup d', (Folding.step w.itemKey itemTime d.windowMs.toNat s i).2.map w.render) ∧
    Tracks w d' (Folding.step w.itemKey itemTime d.windowMs.toNat s i).1 ∧
    d'.enabled = true ∧ d'.windowMs = d.windowMs

section

variable {w : Writer} {d : DupState}

theorem Tracks.report {r : Folding.State Item} (h : Tracks w d (some r)) (e : Folding.Ending Item Moment) :
    (w.withDup d).report d.lastLevel d.lastLogger.bytes d.repeats (endedAt e) =
      (Folding.Run.report ⟨r.first, r.folded, some e⟩).map w.render := by
  obtain ⟨hholds, hshort, hrepeats, -⟩ := h
  have hlogger : d.lastLogger.bytes = (w.effectiveLogger r.first.1).bytes := by
    rw [hholds.logger]
    exact List.take_of_length_le (Nat.le_of_lt_succ hshort.logger)
  have hlevel : d.lastLevel = r.first.1.level := hholds.level
  unfold Writer.report Folding.Run.report
  rw [hrepeats, hlogger, hlevel]
  by_cases hk : 0 < r.folded
  · simp only [if_pos hk]
    rfl
  · simp only [if_neg hk]
    rfl

theorem Tracks.idle_report (h : Tracks w d none) (m : Moment) :
    (w.withDup d).report d.lastLevel d.lastLogger.bytes d.repeats m = [] := by
  unfold Writer.report
  rw [h.2]
  rfl

theorem Tracks.restart {a : Item} (hshort : (w.itemKey a).Short) :
    Tracks w (d.restart (w.itemKey a) (itemTime a)) (some ⟨a, 0, itemTime a⟩) :=
  ⟨d.restart_holds _ _, hshort, rfl, rfl⟩

/-- The comparison is that of the folding. -/
theorem Tracks.folds_iff {r : Folding.State Item} {a : Item} (h : Tracks w d (some r)) (ha : (w.itemKey a).Short) :
    d.folds (w.itemKey a) (itemTime a) = true ↔
      Folding.Continues w.itemKey itemTime d.windowMs.toNat r.first r.last a := by
  obtain ⟨hholds, hshort, -, hlast⟩ := h
  unfold Folding.Continues
  rw [hholds.folds_iff, hshort.agree_iff ha, hlast]

theorem item_folding {c : WriteCall} {text : Bytes} {s : Option (Folding.State Item)} (hi : w.initialized = true)
    (he : d.enabled = true) (ht : Tracks w d s) (ha : w.accepted c = some text) (hs : (w.key c text).Short) :
    Simulates w d s (.item (c, text)) (coreWritev (w.withDup d) c) := by
  have hspec := coreWritev_spec (w := w.withDup d) hi he ha
  cases s with
  | none =>
    have hnew : ¬d.folds (w.key c text) c.checkedAt.ms = true := by
      intro hf
      have hl := DupState.folds_haveLast hf
      rw [ht.1] at hl
      cases hl
    have hreport := ht.idle_report c.summaryAt
    refine ⟨d.restart (w.key c text) c.checkedAt.ms, ?_, Tracks.restart (a := (c, text)) hs, he, rfl⟩
    rw [hspec]
    refine (if_neg hnew).trans ?_
    exact congrArg (fun l => (w.withDup (d.restart (w.key c text) c.checkedAt.ms), l ++ [w.record c text])) hreport
  | some r =>
    by_cases hf : d.folds (w.key c text) c.checkedAt.ms = true
    · have hc := (ht.folds_iff (a := (c, text)) hs).mp hf
      obtain ⟨hholds, hshort, hrepeats, -⟩ := ht
      simp only [Simulates, Folding.step, if_pos hc]
      refine ⟨{ d with repeats := d.repeats + 1, lastMs := c.checkedAt.ms }, ?_, ?_, he, rfl⟩
      · rw [hspec]
        exact if_pos hf
      · exact ⟨hholds.folded _ _, hshort, congrArg (· + 1) hrepeats, rfl⟩
    · have hc := fun hc => hf ((ht.folds_iff (a := (c, text)) hs).mpr hc)
      have hreport := ht.report (.inl (c, text))
      simp only [Simulates, Folding.step, if_neg hc, List.map_append]
      refine ⟨d.restart (w.key c text) c.checkedAt.ms, ?_, Tracks.restart (a := (c, text)) hs, he, rfl⟩
      rw [hspec]
      refine (if_neg hf).trans ?_
      exact congrArg (fun l => (w.withDup (d.restart (w.key c text) c.checkedAt.ms), l ++ [w.record c text])) hreport

theorem flush_folding {m : Moment} {s : Option (Folding.State Item)} (hi : w.initialized = true)
    (he : d.enabled = true) (ht : Tracks w d s) :
    Simulates w d s (.flush m) (hxClogFlush m flushDepth (w.withDup d)) := by
  have hspec := hxClogFlush_spec (w := w.withDup d) hi m
  cases s with
  | none =>
    have hz : ¬0 < d.repeats := by
      rw [ht.2]
      exact Nat.lt_irrefl 0
    have hreport := ht.idle_report m
    refine ⟨d, ?_, ht, he, rfl⟩
    rw [hspec]
    have hkept : d.flushed = d := if_neg hz
    exact congrArg₂ (fun d l => (w.withDup d, l)) hkept hreport
  | some r =>
    have hreport := ht.report (.inr m)
    obtain ⟨hholds, hshort, hrepeats, hlast⟩ := ht
    by_cases hk : 0 < r.folded
    · have hd : 0 < d.repeats := by omega
      simp only [Simulates, Folding.step, if_pos hk]
      simp only [Folding.Run.report, if_pos hk] at hreport
      refine ⟨{ d with repeats := 0, haveLast := false }, ?_, ⟨rfl, rfl⟩, he, rfl⟩
      rw [hspec]
      have hforgot : d.flushed = { d with repeats := 0, haveLast := false } := if_pos hd
      exact congrArg₂ (fun d l => (w.withDup d, l)) hforgot hreport
    · have hz : ¬0 < d.repeats := by omega
      simp only [Simulates, Folding.step, if_neg hk]
      simp only [Folding.Run.report, if_neg hk] at hreport
      refine ⟨d, ?_, ⟨hholds, hshort, hrepeats, hlast⟩, he, rfl⟩
      rw [hspec]
      have hkept : d.flushed = d := if_neg hz
      exact congrArg₂ (fun d l => (w.withDup d, l)) hkept hreport

end

/-! ## Every sequence of calls -/

theorem events_folding {w : Writer} (hi : w.initialized = true) : ∀ (es : List Event) {d : DupState}
    {s : Option (Folding.State Item)}, d.enabled = true → Tracks w d s →
    (∀ c text, .write c ∈ es → w.accepted c = some text → (w.key c text).Short) →
    ∃ d', runEvents (w.withDup d) es =
        (w.withDup d', (Folding.run w.itemKey itemTime d.windowMs.toNat s (es.filterMap w.input)).2.map w.render) ∧
      Tracks w d' (Folding.run w.itemKey itemTime d.windowMs.toNat s (es.filterMap w.input)).1
  | [], d, s, _, ht, _ => ⟨d, rfl, ht⟩
  | e :: es, d, s, he, ht, hs => by
    have hs' : ∀ c text, .write c ∈ es → w.accepted c = some text → (w.key c text).Short :=
      fun c text hc => hs c text (List.mem_cons_of_mem e hc)
    unfold runEvents
    cases hin : w.input e with
    | none =>
      -- the call is turned away
      have hnone : e.run (w.withDup d) = (w.withDup d, []) := by
        cases e with
        | flush m => cases hin
        | write c =>
          have ha : (w.withDup d).accepted c = none := Option.map_eq_none_iff.mp hin
          exact coreWritev_turned_away ha
      rw [List.filterMap_cons_none hin, hnone]
      exact events_folding hi es he ht hs'
    | some i =>
      have hsim : Simulates w d s i (e.run (w.withDup d)) := by
        cases e with
        | flush m =>
          cases hin
          exact flush_folding hi he ht
        | write c =>
          obtain ⟨text, ha, rfl⟩ := Option.map_eq_some_iff.mp hin
          exact item_folding hi he ht ha (hs c text List.mem_cons_self ha)
      obtain ⟨d', hdone, ht', he', hw'⟩ := hsim
      obtain ⟨d'', hmore, ht''⟩ := events_folding hi es he' ht' hs'
      rw [hw'] at hmore ht''
      rw [List.filterMap_cons_some hin, hdone]
      simp only [hmore, Folding.run, List.map_append]
      exact ⟨d'', rfl, ht''⟩

/-- Whether an event is a call that is not turned away. -/
def Writer.isAccepted (w : Writer) : Event → Bool
  | .write c => (w.accepted c).isSome
  | .flush _ => false

/-- The maximal runs of the accepted calls. -/
def Writer.runsOf (w : Writer) (es : List Event) : List (Folding.Run Item Moment) :=
  Folding.runs w.itemKey itemTime w.dup.windowMs.toNat (es.filterMap w.input)

/-- A message three times, and a flush. -/
def upThrice : List Event :=
  [.write (appCall (lit "up") 5), .write (appCall (lit "up") 5), .write (appCall (lit "up") 6), .flush ⟨1, 1, 7, 0⟩]

end HxClog
