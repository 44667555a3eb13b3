import HxClog.Dup
import HxClog.Lib.Folding

/-!
# Which calls are folded

The state keeps a cut copy of the message a run began with, so a folded call
agrees with that message as far as the copy goes. Where the copy is whole,
suppression is the folding of runs.
-/

namespace HxClog

open C

/-! ## The key -/

/-- What the comparison can tell of two messages. -/
structure DupKey.Agree (a b : DupKey) : Prop where
  level : a.level = b.level
  line : a.line = b.line
  msgLen : a.msg.length = b.msg.length
  logger : a.logger.bytes.take 127 = b.logger.bytes.take 127
  file : a.file.bytes.take 255 = b.file.bytes.take 255
  msg : (a.msg.take 255).takeWhile (· ≠ 0) = (b.msg.take 255).takeWhile (· ≠ 0)

/-- A message that the state keeps whole. -/
structure DupKey.Short (k : DupKey) : Prop where
  logger : k.logger.bytes.length < 128
  file : k.file.bytes.length < 256
  msg : k.msg.length ≤ 255
  noNul : 0 ∉ k.msg

theorem DupKey.Agree.refl (k : DupKey) : k.Agree k := ⟨rfl, rfl, rfl, rfl, rfl, rfl⟩

theorem CStr.eq_of_take {n : Nat} {a b : CStr} (ha : a.bytes.length ≤ n) (hb : b.bytes.length ≤ n)
    (h : a.bytes.take n = b.bytes.take n) : a = b := by
  rw [List.take_of_length_le ha, List.take_of_length_le hb] at h
  cases a
  cases b
  cases h
  rfl

theorem DupKey.Short.agree_iff {a b : DupKey} (ha : a.Short) (hb : b.Short) : a.Agree b ↔ a = b := by
  constructor
  · intro h
    have hl : a.logger = b.logger :=
      CStr.eq_of_take (Nat.le_of_lt_succ ha.logger) (Nat.le_of_lt_succ hb.logger) h.logger
    have hf : a.file = b.file := CStr.eq_of_take (Nat.le_of_lt_succ ha.file) (Nat.le_of_lt_succ hb.file) h.file
    have hm : a.msg = b.msg := by
      have h := h.msg
      rwa [List.take_of_length_le ha.msg, List.take_of_length_le hb.msg, takeWhile_noNul ha.noNul,
        takeWhile_noNul hb.noNul] at h
    cases a
    cases b
    simp only [DupKey.mk.injEq]
    exact ⟨h.level, h.line, hl, hf, hm⟩
  · rintro rfl
    exact .refl a

/-! ## What the state remembers -/

/-- The state remembers a run that began with `k`. -/
structure DupState.Holds (d : DupState) (k : DupKey) : Prop where
  haveLast : d.haveLast = true
  level : d.lastLevel = k.level
  line : d.lastLine = k.line
  msgLen : d.lastMsgLen = k.msg.length
  logger : d.lastLogger.bytes = k.logger.bytes.take 127
  file : d.lastFile.bytes = k.file.bytes.take 255
  msg : ∃ rest, d.lastMsg = k.msg.take 255 ++ 0 :: rest

theorem take_klen (msg : Bytes) : msg.take (if msg.length < 255 then msg.length else 255) = msg.take 255 := by
  split
  · rw [List.take_length, List.take_of_length_le (by omega)]
  · rfl

theorem DupState.restart_holds (d : DupState) (k : DupKey) (nowMs : Int) : (d.restart k nowMs).Holds k where
  haveLast := rfl
  level := rfl
  line := rfl
  msgLen := rfl
  logger := rfl
  file := rfl
  msg := by
    refine ⟨d.lastMsg.drop ((if k.msg.length < 255 then k.msg.length else 255) + 1), ?_⟩
    unfold DupState.restart
    simp only [take_klen]

/-- The comparison of the stored bytes is that of the messages, when their lengths agree. -/
theorem strncmp_msg {stored rest a b : Bytes} (hs : stored = a.take 255 ++ 0 :: rest) (hl : a.length = b.length) :
    strncmpEq (if b.length < 255 then b.length else 255) stored b = true ↔
      (a.take 255).takeWhile (· ≠ 0) = (b.take 255).takeWhile (· ≠ 0) := by
  have hk : (a.take 255).length = if b.length < 255 then b.length else 255 := by
    rw [List.length_take, hl]
    split <;> omega
  rw [strncmpEq_iff, take_klen, hs, ← hk, List.take_left]

theorem DupState.Holds.folds_iff {d : DupState} {k k' : DupKey} (h : d.Holds k) (nowMs : Int) :
    d.folds k' nowMs = true ↔ k.Agree k' ∧ nowMs - d.lastMs ≤ d.windowMs.toNat := by
  obtain ⟨rest, hrest⟩ := h.msg
  have hlogger : 0 ∉ d.lastLogger.bytes := by
    rw [h.logger]
    exact fun h0 => k.logger.noNul (List.mem_of_mem_take h0)
  have hfile : 0 ∉ d.lastFile.bytes := by
    rw [h.file]
    exact fun h0 => k.file.noNul (List.mem_of_mem_take h0)
  unfold DupState.folds
  simp only [Bool.and_eq_true, decide_eq_true_eq, h.haveLast, h.level, h.line, h.msgLen,
    strncmpEq_take hlogger k'.logger.noNul, strncmpEq_take hfile k'.file.noNul]
  rw [h.logger, h.file, List.take_take, List.take_take]
  constructor
  · rintro ⟨⟨⟨⟨⟨⟨⟨-, hlevel⟩, hline⟩, hlen⟩, hl⟩, hf⟩, hm⟩, ht⟩
    exact ⟨⟨hlevel, hline, hlen, hl, hf, (strncmp_msg hrest hlen).mp hm⟩, ht⟩
  · rintro ⟨⟨hlevel, hline, hlen, hl, hf, hm⟩, ht⟩
    exact ⟨⟨⟨⟨⟨⟨⟨trivial, hlevel⟩, hline⟩, hlen⟩, hl⟩, hf⟩, (strncmp_msg hrest hlen).mpr hm⟩, ht⟩

theorem DupState.folds_haveLast {d : DupState} {k : DupKey} {nowMs : Int} (h : d.folds k nowMs = true) :
    d.haveLast = true := by
  unfold DupState.folds at h
  simp only [Bool.and_eq_true] at h
  exact h.1.1.1.1.1.1.1

/-! ## Flushing -/

/-- With nothing pending a flush does nothing. -/
theorem hxClogFlush_idle {w : Writer} (h : w.dup.repeats = 0) (m : Moment) : ∀ depth, hxClogFlush m depth w = (w, [])
  | 0 => rfl
  | depth + 1 => by
    unfold hxClogFlush dupFlushPending
    simp [h]

theorem coreDispatchRecord_idle {w : Writer} (h : w.dup.repeats = 0) (m : Moment) (depth : Nat) (rec : Record) :
    coreDispatchRecord (hxClogFlush m depth) w rec = (w, [rec]) := by
  unfold coreDispatchRecord
  rw [hxClogFlush_idle h]
  split <;> rfl

/-- The summary of a run, if there is anything to report. -/
def Writer.report (w : Writer) (level : Level) (loggerName : Bytes) (repeats : Nat) (m : Moment) : List Record :=
  if 0 < repeats then [summaryRecord w level loggerName repeats m] else []

theorem dupEmitSummary_idle {w : Writer} (hi : w.initialized = true) (h : w.dup.repeats = 0) (m m' : Moment)
    (depth : Nat) (level : Level) (loggerName : Bytes) (repeats : Nat) :
    dupEmitSummary (hxClogFlush m depth) w level loggerName repeats m' =
      (w, w.report level loggerName repeats m') := by
  unfold dupEmitSummary Writer.report
  rw [coreDispatchRecord_idle h]
  by_cases hr : repeats = 0
  · simp [hr]
  · simp [hr, hi, Nat.pos_of_ne_zero hr]

/-- What `hx_clog_flush` does to the state: it forgets a run that has repeats. -/
def DupState.flushed (d : DupState) : DupState :=
  if 0 < d.repeats then { d with repeats := 0, haveLast := false } else d

theorem hxClogFlush_spec {w : Writer} (hi : w.initialized = true) (m : Moment) :
    hxClogFlush m flushDepth w =
      ({ w with dup := w.dup.flushed }, w.report w.dup.lastLevel w.dup.lastLogger.bytes w.dup.repeats m) := by
  unfold flushDepth hxClogFlush dupFlushPending DupState.flushed
  rw [if_neg (not_not_intro hi)]
  by_cases hr : 0 < w.dup.repeats
  · simp only [if_pos hr]
    exact dupEmitSummary_idle (w := { w with dup := { w.dup with repeats := 0, haveLast := false } }) hi rfl m m 1
      w.dup.lastLevel w.dup.lastLogger.bytes w.dup.repeats
  · simp only [if_neg hr, Writer.report]

/-! ## One call -/

/-- The check, and what it dispatches. -/
theorem dupCheckAndUpdate_spec {w : Writer} (hi : w.initialized = true) (he : w.dup.enabled = true) (m : Moment)
    (depth : Nat) (k : DupKey) (checkedAt summaryAt : Moment) :
    dupCheckAndUpdate (hxClogFlush m depth) w k checkedAt summaryAt =
      if w.dup.folds k checkedAt.ms then
        (true, { w with dup := { w.dup with repeats := w.dup.repeats + 1, lastMs := checkedAt.ms } }, [])
      else
        (false, { w with dup := w.dup.restart k checkedAt.ms },
          w.report w.dup.lastLevel w.dup.lastLogger.bytes w.dup.repeats summaryAt) := by
  unfold dupCheckAndUpdate
  simp only [he, not_true_eq_false, if_false]
  split
  · rfl
  · have hs := dupEmitSummary_idle (w := { w with dup := w.dup.restart k checkedAt.ms }) hi rfl m summaryAt depth
      w.dup.lastLevel w.dup.lastLogger.bytes w.dup.repeats
    rw [hs]
    split
    · rfl
    · rename_i hr
      unfold Writer.report
      rw [if_neg hr]

/-- The message of a call that is not turned away, as `vsnprintf` made it. -/
def Writer.accepted (w : Writer) (c : WriteCall) : Option Bytes := if w.passes c then c.text else none

theorem coreWritev_turned_away {w : Writer} {c : WriteCall} (h : w.accepted c = none) : coreWritev w c = (w, []) := by
  unfold Writer.accepted at h
  unfold coreWritev
  by_cases hp : w.passes c = true
  · rw [if_pos hp] at h
    simp [h]
  · simp [hp]

theorem Writer.accepted_eq {w : Writer} {c : WriteCall} {text : Bytes} (h : w.accepted c = some text) :
    w.passes c = true ∧ c.text = some text := by
  unfold Writer.accepted at h
  split at h
  · rename_i hp
    exact ⟨hp, h⟩
  · cases h

theorem coreWritev_spec {w : Writer} {c : WriteCall} {text : Bytes} (hi : w.initialized = true)
    (he : w.dup.enabled = true) (h : w.accepted c = some text) :
    coreWritev w c =
      if w.dup.folds (w.key c text) c.checkedAt.ms then
        ({ w with dup := { w.dup with repeats := w.dup.repeats + 1, lastMs := c.checkedAt.ms } }, [])
      else
        ({ w with dup := w.dup.restart (w.key c text) c.checkedAt.ms },
          w.report w.dup.lastLevel w.dup.lastLogger.bytes w.dup.repeats c.summaryAt ++ [w.record c text]) := by
  obtain ⟨hp, htext⟩ := Writer.accepted_eq h
  unfold coreWritev
  have hgo : ¬(¬w.initialized = true ∨ ¬w.passes c = true) := by simp [hi, hp]
  simp only [if_neg hgo, htext, if_pos he, dupCheckAndUpdate_spec hi he]
  by_cases hf : w.dup.folds (w.key c text) c.checkedAt.ms = true
  · simp only [if_pos hf]
  · simp only [if_neg hf]
    rw [coreDispatchRecord_idle rfl]

theorem coreWritev_off {w : Writer} (hi : ¬w.initialized = true) (c : WriteCall) : coreWritev w c = (w, []) :=
  if_pos (Or.inl hi)

theorem hxClogFlush_off {w : Writer} (hi : ¬w.initialized = true) (m : Moment) : hxClogFlush m flushDepth w = (w, []) :=
  if_pos hi

/-! ## Only true duplicates -/

/-- What `dup_check_and_update` is asked in an event, and what it answers. -/
def Writer.check (w : Writer) : Event → List (DupKey × Bool)
  | .flush _ => []
  | .write c =>
    match w.accepted c with
    | none => []
    | some text =>
      if w.initialized && w.dup.enabled then
        [(w.key c text,
          (dupCheckAndUpdate (hxClogFlush c.summaryAt flushDepth) w (w.key c text) c.checkedAt c.summaryAt).1)]
      else []

/-- If anything is remembered, it is the first message of the run. -/
def DupState.Remembers (d : DupState) (first : Option DupKey) : Prop :=
  d.haveLast = true → ∃ k, first = some k ∧ d.Holds k

theorem DupState.Holds.folded {d : DupState} {k : DupKey} (h : d.Holds k) (n : Nat) (t : Int) :
    { d with repeats := n, lastMs := t }.Holds k :=
  ⟨h.haveLast, h.level, h.line, h.msgLen, h.logger, h.file, h.msg⟩

theorem DupState.Remembers.flushed {d : DupState} {first : Option DupKey} (h : d.Remembers first) :
    d.flushed.Remembers first := by
  unfold DupState.flushed
  split
  · intro hl
    cases hl
  · exact h

/-- Suppression has just been switched on. -/
def freshDup : DupState where
  enabled := true
  windowMs := 1000
  haveLast := false
  lastLevel := 0
  lastLine := 0
  lastLogger := ⟨[], by decide⟩
  lastFile := ⟨[], by decide⟩
  lastMsg := List.replicate 256 0
  lastMsgLen := 0
  repeats := 0
  lastMs := 0

def appWriter : Writer where
  initialized := true
  level := 0
  lineCap := none
  loggerName := ⟨lit "app", by decide⟩
  loggerName_fits := by decide
  dup := freshDup

/-- A line of `app` at this second. -/
def appCall (text : Bytes) (sec : Int) : WriteCall where
  level := 2
  loggerLevel := none
  loggerName := none
  file := some ⟨lit "app.c", by decide⟩
  line := 7
  func := none
  text := some text
  heapOk := true
  checkedAt := ⟨1, 1, sec, 0⟩
  summaryAt := ⟨1, 1, sec, 0⟩
  writtenAt := ⟨1, 1, sec, 0⟩
  context := .empty

end HxClog
