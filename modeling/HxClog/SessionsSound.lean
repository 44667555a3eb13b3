import HxClog.Sessions
import HxClog.SinksSound

/-!
# Folding stays within a session

As long as the first call of each session starts over, what `g_dup` remembers is the
newest part of the story.
-/

namespace HxClog

open C

variable {l : Library} {past : List Happening}

/-! ## What the calls do -/

theorem dupFlushPending_spec {w : Writer} (hi : w.initialized = true) (m : Moment) (depth : Nat) :
    dupFlushPending (hxClogFlush m depth) m w =
      ({ w with dup := w.dup.flushed }, w.report w.dup.lastLevel w.dup.lastLogger.bytes w.dup.repeats m) := by
  unfold dupFlushPending DupState.flushed
  by_cases hr : 0 < w.dup.repeats
  · simp only [if_pos hr]
    exact dupEmitSummary_idle (w := { w with dup := { w.dup with repeats := 0, haveLast := false } }) hi rfl m m depth
      w.dup.lastLevel w.dup.lastLogger.bytes w.dup.repeats
  · simp only [if_neg hr, Writer.report]

theorem dupFlushPending_off {w : Writer} (hi : ¬w.initialized = true) (m : Moment) (depth : Nat) :
    dupFlushPending (hxClogFlush m depth) m w = ({ w with dup := w.dup.flushed }, []) := by
  unfold dupFlushPending DupState.flushed dupEmitSummary
  by_cases hr : 0 < w.dup.repeats
  · simp only [if_pos hr, if_pos (Or.inl hi)]
  · simp only [if_neg hr]

theorem flushed_repeats (d : DupState) : d.flushed.repeats = 0 := by
  unfold DupState.flushed
  split
  · rfl
  · omega

namespace Library

theorem pendingCount_record (hi : l.core.initialized = true) (m : Moment) :
    (l.pendingCount m).filterMap Happening.record =
      l.writer.report l.dup.lastLevel l.dup.lastLogger.bytes l.dup.repeats m := by
  unfold pendingCount Writer.report
  by_cases hr : 0 < l.dup.repeats
  · rw [if_pos ⟨hi, hr⟩, if_pos hr]
    rfl
  · rw [if_neg fun h => hr h.2, if_neg hr]
    rfl

theorem pendingCount_off (hi : ¬l.core.initialized = true) (m : Moment) : l.pendingCount m = [] :=
  if_neg fun h => hi h.1

theorem flushPending_spec (l : Library) (m : Moment) :
    l.flushPending m = ({ l with dup := l.dup.flushed }, (l.pendingCount m).filterMap Happening.record) := by
  unfold flushPending
  by_cases hi : l.core.initialized = true
  · rw [dupFlushPending_spec (w := l.writer) hi, pendingCount_record hi]
    rfl
  · rw [dupFlushPending_off (w := l.writer) hi, pendingCount_off hi]
    rfl

theorem step_log (l : Library) (c : WriteCall) :
    l.step (.log c) = ({ l with dup := (coreWritev l.writer c).1.dup }, (coreWritev l.writer c).2) := rfl

theorem step_flush (l : Library) (m : Moment) :
    l.step (.flush m) =
      ({ l with dup := (hxClogFlush m flushDepth l.writer).1.dup }, (hxClogFlush m flushDepth l.writer).2) := rfl

theorem log_spec {c : WriteCall} {text : Bytes} (hi : l.core.initialized = true) (he : l.dup.enabled = true)
    (h : l.writer.accepted c = some text) :
    l.step (.log c) =
      if l.dup.folds (l.writer.key c text) c.checkedAt.ms then
        ({ l with dup := { l.dup with repeats := l.dup.repeats + 1, lastMs := c.checkedAt.ms } }, [])
      else
        ({ l with dup := l.dup.restart (l.writer.key c text) c.checkedAt.ms },
          (l.pendingCount c.summaryAt).filterMap Happening.record ++ [l.writer.record c text]) := by
  rw [step_log, coreWritev_spec (w := l.writer) hi he h, pendingCount_record hi]
  by_cases hf : l.writer.dup.folds (l.writer.key c text) c.checkedAt.ms = true
  · rw [if_pos hf]
    exact (if_pos hf).symm
  · rw [if_neg hf]
    exact (if_neg hf).symm

theorem log_plain {c : WriteCall} {text : Bytes} (hi : l.core.initialized = true) (he : ¬l.dup.enabled = true)
    (hr : l.dup.repeats = 0) (h : l.writer.accepted c = some text) :
    l.step (.log c) = (l, [l.writer.record c text]) := by
  have hw : coreWritev l.writer c = (l.writer, [l.writer.record c text]) := by
    obtain ⟨hp, htext⟩ := Writer.accepted_eq h
    have hgo : ¬(¬l.writer.initialized = true ∨ ¬l.writer.passes c = true) := by
      rintro (hn | hn)
      · exact hn hi
      · exact hn hp
    unfold coreWritev
    rw [if_neg hgo]
    simp only [htext]
    rw [if_neg (show ¬l.writer.dup.enabled = true from he)]
    exact coreDispatchRecord_idle (w := l.writer) hr c.summaryAt flushDepth _
  rw [step_log, hw]
  rfl

theorem log_off (c : WriteCall) (h : ¬l.core.initialized = true ∨ l.writer.accepted c = none) :
    l.step (.log c) = (l, []) := by
  have hw : coreWritev l.writer c = (l.writer, []) := by
    rcases h with hi | ha
    · exact coreWritev_off hi c
    · exact coreWritev_turned_away ha
  rw [step_log, hw]
  rfl

theorem flush_spec (hi : l.core.initialized = true) (m : Moment) :
    l.step (.flush m) = ({ l with dup := l.dup.flushed }, (l.pendingCount m).filterMap Happening.record) := by
  rw [step_flush, hxClogFlush_spec (w := l.writer) hi, pendingCount_record hi]
  rfl

theorem flush_off (hi : ¬l.core.initialized = true) (m : Moment) : l.step (.flush m) = (l, []) := by
  rw [step_flush, hxClogFlush_off (w := l.writer) hi]
  rfl

theorem shutdown_off {m : Moment} {o : Outside} (hi : ¬l.core.initialized = true) : l.step (.shutdown m o) = (l, []) :=
  if_pos hi

theorem shutdown_spec {m : Moment} {o : Outside} (hi : l.core.initialized = true) :
    l.step (.shutdown m o) = ({ l with core := l.core.hxClogShutdown o, dup := l.dup.flushed },
      (l.pendingCount m).filterMap Happening.record) := by
  have hif : l.step (.shutdown m o) =
      ({ (l.flushPending m).1 with core := (l.flushPending m).1.core.hxClogShutdown o }, (l.flushPending m).2) :=
    if_neg (not_not_intro hi)
  rw [hif, flushPending_spec]

/-! ## What happens -/

theorem init_began {cfg : Option Config} {o : Outside} (hok : (l.core.hxClogInitLocked cfg o).2 = .ok) :
    l.happenings (.init cfg o) = [.began] := if_pos hok

theorem init_failed {cfg : Option Config} {o : Outside} (hok : ¬(l.core.hxClogInitLocked cfg o).2 = .ok) :
    l.happenings (.init cfg o) = [] := if_neg hok

theorem shutdown_ended {m : Moment} {o : Outside} (hi : l.core.initialized = true) :
    l.happenings (.shutdown m o) = l.pendingCount m ++ [.ended] := if_pos hi

theorem shutdown_unsaid {m : Moment} {o : Outside} (hi : ¬l.core.initialized = true) :
    l.happenings (.shutdown m o) = [] := if_neg hi

theorem log_unsaid (c : WriteCall) (h : ¬l.core.initialized = true ∨ l.writer.accepted c = none) :
    l.happenings (.log c) = [] := by
  unfold happenings
  simp only []
  split
  · rfl
  · rename_i text ha
    rcases h with hi | hn
    · exact if_pos hi
    · rw [hn] at ha
      cases ha

section

variable {c : WriteCall} {text : Bytes} (hi : l.core.initialized = true)

include hi

theorem log_folded (he : l.dup.enabled = true) (ha : l.writer.accepted c = some text)
    (hf : l.dup.folds (l.writer.key c text) c.checkedAt.ms = true) :
    l.happenings (.log c) = [.folded (l.writer.key c text)] := by
  unfold happenings
  simp only [ha, hi, he, hf, not_true_eq_false, if_false, if_true]

theorem log_wrote (he : l.dup.enabled = true) (ha : l.writer.accepted c = some text)
    (hf : ¬l.dup.folds (l.writer.key c text) c.checkedAt.ms = true) :
    l.happenings (.log c) =
      l.pendingCount c.summaryAt ++ [.wrote (l.writer.key c text) (l.writer.record c text)] := by
  unfold happenings
  simp only [ha, hi, he, hf, not_true_eq_false, if_false, if_true]
  rfl

theorem log_wrote_plain (he : ¬l.dup.enabled = true) (ha : l.writer.accepted c = some text) :
    l.happenings (.log c) = [.wrote (l.writer.key c text) (l.writer.record c text)] := by
  unfold happenings
  simp only [ha, hi, he, not_true_eq_false, if_false]
  rfl

end

end Library

/-! ## Sessions begin and end -/

namespace Core

variable {c : Core}

theorem addConsole_initialized (c : Core) (cfg : Config) (o : Outside) :
    (c.addConsole cfg o).initialized = c.initialized := by
  unfold addConsole
  split
  · exact addNew_initialized c _ _
  · rfl

/-- A successful init is that of a library that is not initialized. -/
theorem init_outcome (c : Core) (cfg : Option Config) (o : Outside) :
    ((c.hxClogInitLocked cfg o).2 = .ok ∧ c.initialized = false ∧ (c.hxClogInitLocked cfg o).1.initialized = true) ∨
      ((c.hxClogInitLocked cfg o).2 ≠ .ok ∧ (c.hxClogInitLocked cfg o).1.initialized = c.initialized) := by
  unfold hxClogInitLocked
  by_cases hi : c.initialized = true
  · rw [if_pos hi]
    exact .inr ⟨by simp, rfl⟩
  · rw [if_neg hi]
    simp only []
    split
    · exact .inr ⟨by simp, rfl⟩
    · split
      · exact .inr ⟨by simp, addConsole_initialized _ _ o⟩
      · exact .inl ⟨rfl, Bool.eq_false_of_not_eq_true hi, rfl⟩

theorem emits_initialized (ls : List Line) (c : Core) :
    (ls.foldl hxCoreEmitToSinks c).initialized = c.initialized := by
  induction ls generalizing c with
  | nil => rfl
  | cons l ls ih =>
    rw [List.foldl_cons, ih]
    unfold hxCoreEmitToSinks
    simp only []
    split <;> rfl

theorem shutdown_initialized (hi : c.initialized = true) (o : Outside) : (c.hxClogShutdown o).initialized = false := by
  unfold hxClogShutdown
  rw [if_neg (not_not_intro hi)]
  show (stopAsync _ o).initialized = false
  unfold stopAsync
  split
  · exact emits_initialized _ _
  · rfl

end Core

/-! ## The newest session of a story -/

section

variable {e : Happening}

theorem thisSession_cons (h : e.isBegan = false) (past : List Happening) :
    thisSession (e :: past) = e :: thisSession past := by
  unfold thisSession
  exact List.takeWhile_cons_of_pos (by simp [h])

theorem thisSession_began (past : List Happening) : thisSession (.began :: past) = [] := rfl

theorem silent_began (past : List Happening) : Silent (.began :: past) := by
  intro e he
  rw [thisSession_began] at he
  cases he

theorem not_silent (h : e.isBegan = false) (ha : e.isAccepted = true) (past : List Happening) : ¬Silent (e :: past) := by
  intro hs
  refine hs e ?_ ha
  rw [thisSession_cons h]
  exact List.mem_cons_self

theorem NeverCrosses.tail (h : NeverCrosses (e :: past)) : NeverCrosses past := by
  cases e with
  | began => exact h
  | ended => exact h
  | wrote k rec => exact h
  | folded k => exact h.2
  | counted n rec => exact h.2

theorem NeverCrosses.of_append : ∀ (recent : List Happening), NeverCrosses (recent ++ past) → NeverCrosses past
  | [], h => h
  | _ :: recent, h => of_append recent (NeverCrosses.tail h)

end

/-! ## What is kept -/

/-- What `g_dup` remembers of the story so far. -/
structure Kept (l : Library) (past : List Happening) : Prop where
  idle : ¬l.core.initialized = true → l.dup.repeats = 0
  off : ¬l.dup.enabled = true → l.dup.haveLast = false
  empty : l.dup.haveLast = false → l.dup.repeats = 0
  silent : Silent past → l.dup.repeats = 0
  run : l.core.initialized = true → l.dup.haveLast = true → ¬Silent past →
    ∃ k₀, l.dup.Holds k₀ ∧ OpenRun (thisSession past) k₀ l.dup.repeats

theorem Kept.forgot (h : l.dup.haveLast = false) (hr : l.dup.repeats = 0) (past : List Happening) : Kept l past := by
  refine ⟨fun _ => hr, fun _ => h, fun _ => hr, fun _ => hr, fun _ hl => ?_⟩
  rw [h] at hl
  cases hl

section

variable (h : Kept l past)

include h

/-- What is pending has its run in this session. -/
theorem Kept.pending (hi : l.core.initialized = true) (hr : 0 < l.dup.repeats) :
    ∃ k₀, OpenRun (thisSession past) k₀ l.dup.repeats := by
  have hl : l.dup.haveLast = true := by
    by_contra hn
    have hz := h.empty (Bool.eq_false_of_not_eq_true hn)
    omega
  have hs : ¬Silent past := by
    intro hs
    have hz := h.silent hs
    omega
  obtain ⟨k₀, -, hopen⟩ := h.run hi hl hs
  exact ⟨k₀, hopen⟩

theorem Kept.count_crosses (hc : NeverCrosses past) (m : Moment) :
    NeverCrosses ((l.pendingCount m).reverse ++ past) := by
  unfold Library.pendingCount
  split
  · rename_i hp
    exact ⟨h.pending hp.1 hp.2, hc⟩
  · exact hc

theorem Kept.flushed (m : Moment) : Kept { l with dup := l.dup.flushed } ((l.pendingCount m).reverse ++ past) := by
  by_cases hr : 0 < l.dup.repeats
  · have hf : l.dup.flushed = { l.dup with repeats := 0, haveLast := false } := if_pos hr
    rw [hf]
    exact Kept.forgot rfl rfl _
  · have hf : l.dup.flushed = l.dup := if_neg hr
    have hp : l.pendingCount m = [] := if_neg fun hp => hr hp.2
    rw [hf, hp]
    exact h

/-! ## One call -/

theorem Kept.init (cfg : Option Config) (o : Outside) :
    Kept (l.step (.init cfg o)).1 ((l.happenings (.init cfg o)).reverse ++ past) := by
  rcases l.core.init_outcome cfg o with ⟨hok, hwas, hnow⟩ | ⟨hfail, hsame⟩
  · have hr : l.dup.repeats = 0 := h.idle (by simp [hwas])
    rw [l.init_began hok]
    refine ⟨fun _ => hr, h.off, h.empty, fun _ => hr, fun _ _ hs => ?_⟩
    exact absurd (silent_began past) hs
  · rw [l.init_failed hfail]
    refine ⟨fun hi => h.idle ?_, h.off, h.empty, h.silent, fun hi => h.run ?_⟩
    · exact fun hi' => hi (hsame.trans hi')
    · exact hsame.symm.trans hi

theorem Kept.shutdown (m : Moment) (o : Outside) :
    Kept (l.step (.shutdown m o)).1 ((l.happenings (.shutdown m o)).reverse ++ past) := by
  by_cases hi : l.core.initialized = true
  · have hkept := h.flushed m
    have hr := flushed_repeats l.dup
    rw [l.shutdown_spec hi, l.shutdown_ended hi]
    refine ⟨fun _ => hr, hkept.off, fun _ => hr, fun _ => hr, fun hn => ?_⟩
    rw [l.core.shutdown_initialized hi o] at hn
    cases hn
  · rw [l.shutdown_off hi, l.shutdown_unsaid hi]
    exact h

theorem Kept.flush (m : Moment) : Kept (l.step (.flush m)).1 ((l.happenings (.flush m)).reverse ++ past) := by
  by_cases hi : l.core.initialized = true
  · rw [l.flush_spec hi]
    exact h.flushed m
  · have hap : l.happenings (.flush m) = [] := l.pendingCount_off hi m
    rw [l.flush_off hi, hap]
    exact h

theorem Kept.setWindow (enable : Bool) (windowMs : UInt32) (m : Moment) :
    Kept (l.step (.setDuplicateSuppression enable windowMs m)).1
      ((l.happenings (.setDuplicateSuppression enable windowMs m)).reverse ++ past) := by
  cases enable with
  | true =>
    refine ⟨h.idle, fun hoff => absurd rfl hoff, h.empty, h.silent, fun hi hl hs => ?_⟩
    obtain ⟨k₀, hholds, hopen⟩ := h.run hi hl hs
    exact ⟨k₀, ⟨hholds.haveLast, hholds.level, hholds.line, hholds.msgLen, hholds.logger, hholds.file, hholds.msg⟩, hopen⟩
  | false => exact Kept.forgot rfl rfl _

/-- A call that repeats the run of its session. -/
theorem Kept.folds {k : DupKey} {nowMs : Int} (hi : l.core.initialized = true) (hs : ¬Silent past)
    (hf : l.dup.folds k nowMs = true) :
    Kept { l with dup := { l.dup with repeats := l.dup.repeats + 1, lastMs := nowMs } } (.folded k :: past) := by
  have hl := DupState.folds_haveLast hf
  obtain ⟨k₀, hholds, ks, rec, rest, hrecent, hlen, hks⟩ := h.run hi hl hs
  have hagree := ((hholds.folds_iff nowMs).mp hf).1
  have hnow : ¬Silent (.folded k :: past) := not_silent rfl rfl past
  refine ⟨fun hn => absurd hi hn, fun hoff => ?_, fun hn => ?_, fun hsil => absurd hsil hnow, fun _ _ _ => ?_⟩
  · exact h.off hoff
  · rw [hl] at hn
    cases hn
  · refine ⟨k₀, hholds.folded _ _, k :: ks, rec, rest, ?_, ?_, ?_⟩
    · rw [thisSession_cons rfl, hrecent]
      rfl
    · rw [List.length_cons, hlen]
    · intro k' hk'
      rcases List.mem_cons.mp hk' with rfl | hk'
      · exact hagree
      · exact hks k' hk'

/-- A call while suppression is off. -/
theorem Kept.plain {k : DupKey} {rec : Record} (he : ¬l.dup.enabled = true) :
    Kept l (.wrote k rec :: past) := by
  have hoff := h.off he
  exact Kept.forgot hoff (h.empty hoff) _

end

/-- A call that starts a run. -/
theorem Kept.restart {k : DupKey} {nowMs : Int} {rec : Record} (he : l.dup.enabled = true)
    (earlier : List Happening) :
    Kept { l with dup := l.dup.restart k nowMs } (.wrote k rec :: earlier) := by
  have hnow : ¬Silent (.wrote k rec :: earlier) := not_silent rfl rfl earlier
  refine ⟨fun _ => rfl, fun hoff => absurd he hoff, fun _ => rfl, fun hsil => absurd hsil hnow, fun _ _ _ => ?_⟩
  refine ⟨k, l.dup.restart_holds k nowMs, [], rec, thisSession earlier, thisSession_cons rfl earlier, rfl, ?_⟩
  intro k' hk'
  cases hk'

/-- A log call of a session that goes on, or that finds nothing left. -/
theorem Kept.log (h : Kept l past) (hc : NeverCrosses past) (c : WriteCall) (hleft : l.NothingLeft past (.log c)) :
    Kept (l.step (.log c)).1 ((l.happenings (.log c)).reverse ++ past) ∧
      NeverCrosses ((l.happenings (.log c)).reverse ++ past) := by
  cases ha : l.writer.accepted c with
  | none =>
    rw [l.log_off c (.inr ha), l.log_unsaid c (.inr ha)]
    exact ⟨h, hc⟩
  | some text =>
    by_cases hi : l.core.initialized = true
    · by_cases he : l.dup.enabled = true
      · by_cases hf : l.dup.folds (l.writer.key c text) c.checkedAt.ms = true
        · have hs : ¬Silent past := fun hs => hleft text hi ha he hs hf
          rw [l.log_spec hi he ha, if_pos hf, l.log_folded hi he ha hf]
          exact ⟨h.folds hi hs hf, hs, hc⟩
        · rw [l.log_spec hi he ha, if_neg hf, l.log_wrote hi he ha hf, List.reverse_append]
          exact ⟨Kept.restart he _, h.count_crosses hc c.summaryAt⟩
      · rw [l.log_plain hi he (h.empty (h.off he)) ha, l.log_wrote_plain hi he ha]
        exact ⟨h.plain he, hc⟩
    · rw [l.log_off c (.inl hi), l.log_unsaid c (.inl hi)]
      exact ⟨h, hc⟩

theorem Kept.step (h : Kept l past) (hc : NeverCrosses past) (c : SessionCall) (hleft : l.NothingLeft past c) :
    Kept (l.step c).1 ((l.happenings c).reverse ++ past) ∧ NeverCrosses ((l.happenings c).reverse ++ past) := by
  cases c with
  | init cfg o =>
    refine ⟨h.init cfg o, ?_⟩
    by_cases hok : (l.core.hxClogInitLocked cfg o).2 = .ok
    · rw [l.init_began hok]
      exact hc
    · rw [l.init_failed hok]
      exact hc
  | log c => exact h.log hc c hleft
  | flush m => exact ⟨h.flush m, h.count_crosses hc m⟩
  | shutdown m o =>
    refine ⟨h.shutdown m o, ?_⟩
    by_cases hi : l.core.initialized = true
    · rw [l.shutdown_ended hi, List.reverse_append]
      exact h.count_crosses hc m
    · rw [l.shutdown_unsaid hi]
      exact hc
  | setDuplicateSuppression enable windowMs m =>
    refine ⟨h.setWindow enable windowMs m, ?_⟩
    cases enable with
    | true => exact hc
    | false => exact h.count_crosses hc m

/-- A call that repeats what an earlier session left is suppressed. -/
theorem crosses_of_left {c : SessionCall} (hleft : ¬l.NothingLeft past c) :
    ¬NeverCrosses ((l.happenings c).reverse ++ past) := by
  cases c with
  | log c =>
    intro hc
    refine hleft fun text hi ha he hs hf => ?_
    rw [l.log_folded hi he ha hf] at hc
    exact hc.1 hs
  | init cfg o => exact absurd trivial hleft
  | flush m => exact absurd trivial hleft
  | shutdown m o => exact absurd trivial hleft
  | setDuplicateSuppression enable windowMs m => exact absurd trivial hleft

/-! ## What is dispatched -/

/-- With suppression off nothing is pending. -/
def Library.Calm (l : Library) : Prop := ¬l.dup.enabled = true → l.dup.repeats = 0

theorem log_calm (h : l.Calm) (c : WriteCall) :
    (l.step (.log c)).1.Calm ∧ (l.step (.log c)).2 = (l.happenings (.log c)).filterMap Happening.record := by
  cases ha : l.writer.accepted c with
  | none =>
    rw [l.log_off c (.inr ha), l.log_unsaid c (.inr ha)]
    exact ⟨h, rfl⟩
  | some text =>
    by_cases hi : l.core.initialized = true
    · by_cases he : l.dup.enabled = true
      · by_cases hf : l.dup.folds (l.writer.key c text) c.checkedAt.ms = true
        · rw [l.log_spec hi he ha, if_pos hf, l.log_folded hi he ha hf]
          exact ⟨fun hoff => absurd he hoff, rfl⟩
        · rw [l.log_spec hi he ha, if_neg hf, l.log_wrote hi he ha hf, List.filterMap_append]
          exact ⟨fun hoff => absurd he hoff, rfl⟩
      · rw [l.log_plain hi he (h he) ha, l.log_wrote_plain hi he ha]
        exact ⟨h, rfl⟩
    · rw [l.log_off c (.inl hi), l.log_unsaid c (.inl hi)]
      exact ⟨h, rfl⟩

/-- The records of what happens in a call are those it dispatches. -/
theorem step_calm (h : l.Calm) (c : SessionCall) :
    (l.step c).1.Calm ∧ (l.step c).2 = (l.happenings c).filterMap Happening.record := by
  cases c with
  | init cfg o =>
    refine ⟨h, ?_⟩
    by_cases hok : (l.core.hxClogInitLocked cfg o).2 = .ok
    · rw [l.init_began hok]
      rfl
    · rw [l.init_failed hok]
      rfl
  | log c => exact log_calm h c
  | flush m =>
    by_cases hi : l.core.initialized = true
    · rw [l.flush_spec hi]
      exact ⟨fun _ => flushed_repeats l.dup, rfl⟩
    · have hap : l.happenings (.flush m) = [] := l.pendingCount_off hi m
      rw [l.flush_off hi, hap]
      exact ⟨h, rfl⟩
  | shutdown m o =>
    by_cases hi : l.core.initialized = true
    · rw [l.shutdown_spec hi, l.shutdown_ended hi, List.filterMap_append]
      exact ⟨fun _ => flushed_repeats l.dup, (List.append_nil _).symm⟩
    · rw [l.shutdown_off hi, l.shutdown_unsaid hi]
      exact ⟨h, rfl⟩
  | setDuplicateSuppression enable windowMs m =>
    cases enable with
    | true => exact ⟨fun hoff => absurd rfl hoff, rfl⟩
    | false =>
      refine ⟨fun _ => rfl, ?_⟩
      show (l.flushPending m).2 = _
      rw [l.flushPending_spec]
      rfl

/-- The records of a run, in order. -/
def Library.dispatched (l : Library) : List SessionCall → List Record
  | [] => []
  | c :: cs => (l.step c).2 ++ (l.step c).1.dispatched cs

theorem tell_records : ∀ (cs : List SessionCall) {l : Library} (past : List Happening), l.Calm →
    (l.tell past cs).2.reverse.filterMap Happening.record =
      past.reverse.filterMap Happening.record ++ l.dispatched cs
  | [], _, past, _ => (List.append_nil _).symm
  | c :: cs, l, past, h => by
    obtain ⟨hcalm, hrecords⟩ := step_calm h c
    have ih := tell_records cs ((l.happenings c).reverse ++ past) hcalm
    unfold Library.tell Library.dispatched
    rw [ih, List.reverse_append, List.reverse_reverse, List.filterMap_append, hrecords, List.append_assoc]

/-! ## Every run -/

/-- A story only grows. -/
theorem tell_grows : ∀ (cs : List SessionCall) (l : Library) (past : List Happening),
    ∃ recent, (l.tell past cs).2 = recent ++ past
  | [], _, _ => ⟨[], rfl⟩
  | c :: cs, l, past => by
    obtain ⟨recent, hrecent⟩ := tell_grows cs (l.step c).1 ((l.happenings c).reverse ++ past)
    refine ⟨recent ++ (l.happenings c).reverse, ?_⟩
    rw [List.append_assoc]
    exact hrecent

theorem tell_crosses_iff : ∀ (cs : List SessionCall) {l : Library} {past : List Happening}, Kept l past →
    NeverCrosses past → (NeverCrosses (l.tell past cs).2 ↔ l.NothingEverLeft past cs)
  | [], _, _, _, hc => iff_of_true hc trivial
  | c :: cs, l, past, h, hc => by
    by_cases hleft : l.NothingLeft past c
    · obtain ⟨hkept, hcrosses⟩ := h.step hc c hleft
      have ih := tell_crosses_iff cs hkept hcrosses
      constructor
      · intro hall
        exact ⟨hleft, ih.mp hall⟩
      · intro hall
        exact ih.mpr hall.2
    · constructor
      · intro hall
        obtain ⟨recent, hrecent⟩ := tell_grows cs (l.step c).1 ((l.happenings c).reverse ++ past)
        have hall : NeverCrosses (recent ++ ((l.happenings c).reverse ++ past)) := hrecent ▸ hall
        exact absurd (NeverCrosses.of_append recent hall) (crosses_of_left hleft)
      · intro hall
        exact absurd hall.1 hleft

/-- Folding stays within its session exactly when no session starts with a call that
repeats what `g_dup` still holds. The records dispatched are those of the story. -/
theorem folding_crosses_iff (lineCap : Option UInt32) (cs : List SessionCall) :
    ((Library.start lineCap).tell [] cs).2.reverse.filterMap Happening.record = (Library.start lineCap).dispatched cs ∧
      (NeverCrosses ((Library.start lineCap).tell [] cs).2 ↔ (Library.start lineCap).NothingEverLeft [] cs) :=
  ⟨tell_records cs [] fun _ => rfl, tell_crosses_iff cs (Kept.forgot rfl rfl []) trivial⟩

/-- Suppression is on; the second session starts with the line the first one ended with. -/
def restartedCalls : List SessionCall :=
  [.setDuplicateSuppression true 1000 ⟨1, 1, 5, 0⟩, .init none {}, .log (appCall (lit "up") 5), .shutdown ⟨1, 1, 5, 0⟩ {},
    .init none {}, .log (appCall (lit "up") 5)]

theorem restart_suppressed : ¬NeverCrosses ((Library.start none).tell [] restartedCalls).2 := by
  intro h
  have hleft := (tell_crosses_iff restartedCalls (Kept.forgot rfl rfl []) trivial).mp h
  obtain ⟨-, -, -, -, -, hlast, -⟩ := hleft
  refine hlast (lit "up") (by decide +kernel) (by decide +kernel) (by decide +kernel) ?_ (by decide +kernel)
  exact silent_began _

end HxClog
