import HxClog.DupThreads
import HxClog.DupSound
import HxClog.Lib.Pool

/-!
# What happens to the count of suppressed calls

Every section under the lock moves repeats between `g_dup`, the hands of a thread and
the records that are out, and a suppressed call adds one. The one place where repeats
vanish is the end of `hx_clog_set_duplicate_suppression` with `enable` 0.
-/

namespace HxClog

open C

/-! ## One section -/

def DupTask.turnsOff : DupTask → Bool
  | .store enable _ => !enable
  | _ => false

@[simp] theorem sumRepeats_nil : sumRepeats [] = 0 := rfl

@[simp] theorem sumRepeats_cons (t : DupTask) (ts : List DupTask) : sumRepeats (t :: ts) = t.repeats + sumRepeats ts := by
  simp [sumRepeats]

@[simp] theorem sumRepeats_append (ts us : List DupTask) : sumRepeats (ts ++ us) = sumRepeats ts + sumRepeats us := by
  simp [sumRepeats]

@[simp] theorem sumRepeats_flushAfter (level : Level) (m : Moment) : sumRepeats (flushAfter level m) = 0 := by
  unfold flushAfter
  split <;> simp [DupTask.repeats]

@[simp] theorem sumRepeats_takePending (d : DupState) (m : Moment) : sumRepeats (d.takePending m) = d.repeats := by
  unfold DupState.takePending
  by_cases h : 0 < d.repeats
  · simp [h, DupTask.repeats]
  · simp [h]
    omega

theorem tasks_repeats (w : Writer) (c : DupCall) : sumRepeats (c.tasks w) = 0 := by
  cases c with
  | write c =>
    simp only [DupCall.tasks]
    split
    · simp
    · cases c.text with
      | none => simp
      | some text =>
        simp only
        split <;> simp [DupTask.repeats]
  | flush m => simp [DupCall.tasks, DupTask.repeats]
  | setSuppression enable windowMs m => cases enable <;> simp [DupCall.tasks, DupTask.repeats]

section
variable {w : Writer} {c : WriteCall} {text : Bytes}

theorem perform_check_off (he : ¬w.dup.enabled = true) :
    (DupTask.check c text).perform w = { writer := w, next := [.dispatch c text] } := if_pos he

theorem perform_check_folds (he : w.dup.enabled = true) (hf : w.dup.folds (w.key c text) c.checkedAt.ms = true) :
    (DupTask.check c text).perform w =
      { writer := { w with dup := { w.dup with repeats := w.dup.repeats + 1, lastMs := c.checkedAt.ms } }
        suppressed := 1 } := by
  simp [DupTask.perform, he, hf]

theorem perform_check_restarts (he : w.dup.enabled = true) (hf : ¬w.dup.folds (w.key c text) c.checkedAt.ms = true) :
    (DupTask.check c text).perform w =
      { writer := { w with dup := w.dup.restart (w.key c text) c.checkedAt.ms }
        next := w.dup.takePending c.summaryAt ++ [.dispatch c text] } := by
  simp [DupTask.perform, he, hf]

theorem perform_summary_none (level : Level) (loggerName : Bytes) (m : Moment) :
    (DupTask.summary level loggerName 0 m).perform w = { writer := w } := if_pos (.inr rfl)

theorem perform_summary (hi : w.initialized = true) (level : Level) (loggerName : Bytes) {repeats : Nat}
    (hr : repeats ≠ 0) (m : Moment) :
    (DupTask.summary level loggerName repeats m).perform w =
      { writer := w, next := flushAfter level m, out := [.summary (summaryRecord w level loggerName repeats m) repeats] } := by
  simp [DupTask.perform, hi, hr]

theorem perform_flush (hi : w.initialized = true) (m : Moment) :
    (DupTask.flush m).perform w = { writer := w, next := [.pending m] } := by
  simp [DupTask.perform, hi]

theorem perform_pending_none (hr : ¬0 < w.dup.repeats) (m : Moment) : (DupTask.pending m).perform w = { writer := w } :=
  if_neg hr

theorem perform_pending (hr : 0 < w.dup.repeats) (m : Moment) :
    (DupTask.pending m).perform w =
      { writer := { w with dup := { w.dup with repeats := 0, haveLast := false } }, next := w.dup.takePending m } :=
  if_pos hr

end

theorem perform_initialized (w : Writer) (t : DupTask) : (t.perform w).writer.initialized = w.initialized := by
  unfold DupTask.perform
  cases t with
  | check c text => simp only; split <;> [rfl; split <;> rfl]
  | dispatch c text => rfl
  | summary level loggerName repeats m => simp only; split <;> rfl
  | flush m => rfl
  | pending m => simp only; split <;> rfl
  | store enable windowMs => rfl

/-- Repeats only move, and turning off forgets those that are pending. -/
theorem perform_repeats {w : Writer} (hi : w.initialized = true) (t : DupTask) :
    ((t.perform w).out.map Dispatched.repeats).sum + sumRepeats (t.perform w).next + (t.perform w).writer.dup.repeats +
        (if t.turnsOff then w.dup.repeats else 0) =
      t.repeats + w.dup.repeats + (t.perform w).suppressed := by
  cases t with
  | check c text =>
    by_cases he : w.dup.enabled = true
    · by_cases hf : w.dup.folds (w.key c text) c.checkedAt.ms = true
      · simp [perform_check_folds he hf, DupTask.turnsOff, DupTask.repeats]
      · simp [perform_check_restarts he hf, DupTask.turnsOff, DupTask.repeats, DupState.restart]
    · simp [perform_check_off he, DupTask.turnsOff, DupTask.repeats]
  | dispatch c text => simp [DupTask.perform, DupTask.turnsOff, DupTask.repeats, Dispatched.repeats]
  | summary level loggerName repeats m =>
    by_cases hr : repeats = 0
    · simp [hr, perform_summary_none, DupTask.turnsOff, DupTask.repeats]
    · simp [perform_summary hi level loggerName hr m, DupTask.turnsOff, DupTask.repeats, Dispatched.repeats]
  | flush m => simp [perform_flush hi, DupTask.turnsOff, DupTask.repeats]
  | pending m =>
    by_cases hr : 0 < w.dup.repeats
    · simp [perform_pending hr, DupTask.turnsOff, DupTask.repeats]
    · simp [perform_pending_none hr, DupTask.turnsOff, DupTask.repeats]
  | store enable windowMs => cases enable <;> simp [DupTask.perform, DupTask.turnsOff, DupTask.repeats]

/-! ## Steps and runs -/

namespace DupThreads

/-- What the move forgets. -/
def forgotten (s : DupThreads) (a : DupMove) : Nat := if s.turnsOff a then s.writer.dup.repeats else 0

def balance (s : DupThreads) : Nat := s.told + s.inHand + s.writer.dup.repeats

theorem step_balance {s s' : DupThreads} {a : DupMove} (hi : s.writer.initialized = true) (h : s.step a = some s') :
    s'.writer.initialized = true ∧ s'.balance + s.forgotten a + s.suppressed = s.balance + s'.suppressed := by
  unfold step at h
  cases a with
  | call i c =>
    simp only at h
    split at h
    · rename_i hidle
      cases h
      refine ⟨hi, ?_⟩
      have hsum := Pool.sum_set sumRepeats (c.tasks s.writer) hidle
      simp only [tasks_repeats, sumRepeats_nil, Nat.add_zero] at hsum
      simp only [balance, inHand, told, hsum, forgotten, turnsOff]
      simp
    · cases h
  | go i =>
    simp only at h
    split at h
    · rename_i t rest hbusy
      cases h
      refine ⟨(perform_initialized s.writer t).trans hi, ?_⟩
      have hsum := Pool.sum_set sumRepeats ((t.perform s.writer).next ++ rest) hbusy
      have hmoved := perform_repeats hi t
      have hoff : s.forgotten (.go i) = if t.turnsOff then s.writer.dup.repeats else 0 := by
        unfold forgotten turnsOff
        simp only [hbusy]
        cases t <;> rfl
      simp only [sumRepeats_append, sumRepeats_cons] at hsum
      simp only [balance, inHand, told, List.map_append, List.sum_append, hoff]
      omega
    · cases h

theorem start_accounted (w : Writer) (n : Nat) : (start w n).Accounted := by
  simp [start, Accounted, told, inHand]

theorem run_accounted {moves : List DupMove} {s s' : DupThreads} (hi : s.writer.initialized = true) (h : s.Accounted)
    (hr : Transition.run step s moves = some s') (hn : s.NonePendingAtStop moves) : s'.Accounted := by
  induction moves generalizing s with
  | nil =>
    cases hr
    exact h
  | cons a moves ih =>
    rw [Transition.run_cons] at hr
    obtain ⟨t, hs, hr⟩ := Option.bind_eq_some_iff.mp hr
    obtain ⟨hit, hbal⟩ := step_balance hi hs
    have hforgot : s.forgotten a = 0 := by
      unfold forgotten
      split
      · exact hn [] a moves s rfl rfl ‹_›
      · rfl
    refine ih hit ?_ hr fun pre b post u hm hu hoff => ?_
    · unfold Accounted balance at *
      omega
    · refine hn (a :: pre) b post u (by rw [hm]; rfl) ?_ hoff
      rw [Transition.run_cons, hs]
      exact hu

theorem run_initialized {moves : List DupMove} {s s' : DupThreads} (hi : s.writer.initialized = true)
    (hr : Transition.run step s moves = some s') : s'.writer.initialized = true :=
  Transition.run_invariant (fun _ _ _ hi hs => (step_balance hi hs).1) moves s s' hi hr

theorem busy_step {s : DupThreads} {a : DupMove} (hoff : s.turnsOff a = true) : ∃ s', s.step a = some s' := by
  unfold turnsOff at hoff
  cases a with
  | call i c => cases hoff
  | go i =>
    simp only at hoff
    split at hoff
    · rename_i hbusy
      unfold step
      simp [hbusy]
    · cases hoff

/-- At every moment of a run the suppressed calls are those told, those in hand and those
pending, if and only if nothing is pending when a call turns the suppression off. -/
theorem duplicates_counted_iff (w : Writer) (hi : w.initialized = true) (n : Nat) (moves : List DupMove) :
    (∀ pre post s, moves = pre ++ post → Transition.run step (start w n) pre = some s → s.Accounted) ↔
      (start w n).NonePendingAtStop moves := by
  constructor
  · intro hall pre a post t hm ht hoff
    obtain ⟨u, hs⟩ := busy_step hoff
    have hone : Transition.run step (start w n) (pre ++ [a]) = some u := Transition.run_snoc ht hs
    have hbefore := hall pre (a :: post) t hm ht
    have hafter := hall (pre ++ [a]) post u (by rw [hm]; simp) hone
    have hbal := (step_balance (run_initialized hi ht) hs).2
    have hforgot : t.forgotten a = t.writer.dup.repeats := by simp [forgotten, hoff]
    unfold Accounted at hbefore hafter
    unfold balance at hbal
    omega
  · intro hn pre post s hm hs
    refine run_accounted hi (start_accounted w n) hs fun p a q t hp ht hoff => ?_
    exact hn p a (q ++ post) t (by rw [hm, hp]; simp) ht hoff

/-- One thread turns the suppression off while another repeats itself. -/
def toggledAmidRepeats : List DupMove :=
  [.call 0 (.setSuppression false 0 ⟨1, 1, 5, 0⟩), .go 0,
    .call 1 (.write (appCall (lit "up") 5)), .go 1, .go 1, .call 1 (.write (appCall (lit "up") 5)), .go 1, .go 0]

theorem repeat_forgotten : ∃ s, Transition.run step (start appWriter 2) toggledAmidRepeats = some s ∧
    s.suppressed = 1 ∧ s.told + s.inHand + s.writer.dup.repeats = 0 := by
  refine ⟨_, rfl, ?_, ?_⟩ <;> decide

theorem duplicates_counted_two : (∀ pre post s, toggledAmidRepeats = pre ++ post →
    Transition.run step (start appWriter 2) pre = some s → s.Accounted) ↔
      (start appWriter 2).NonePendingAtStop toggledAmidRepeats :=
  duplicates_counted_iff appWriter rfl 2 toggledAmidRepeats

end DupThreads

/-! ## A thread that nobody disturbs -/

def Dispatched.record : Dispatched → Record
  | .line r => r
  | .summary r _ => r

/-- These tasks, one after the other, leave this behind. -/
inductive Settles : Writer → List DupTask → Writer → List Record → Prop
  | done (w : Writer) : Settles w [] w []
  | go {w w' : Writer} {t : DupTask} {rest : List DupTask} {rs : List Record}
      (h : Settles (t.perform w).writer ((t.perform w).next ++ rest) w' rs) :
      Settles w (t :: rest) w' ((t.perform w).out.map Dispatched.record ++ rs)

section
variable {w w' : Writer} {t : DupTask} {rest : List DupTask} {rs : List Record}

theorem Settles.performed {p : Performed} (hp : t.perform w = p) (h : Settles p.writer (p.next ++ rest) w' rs) :
    Settles w (t :: rest) w' (p.out.map Dispatched.record ++ rs) := by
  subst hp
  exact .go h

theorem Settles.flush_idle (hi : w.initialized = true) (hr : w.dup.repeats = 0) (m : Moment) (h : Settles w rest w' rs) :
    Settles w (.flush m :: rest) w' rs := by
  have hpending : Settles w (.pending m :: rest) w' rs := performed (perform_pending_none (by omega) m) h
  exact performed (perform_flush hi m) hpending

theorem Settles.flushAfter (hi : w.initialized = true) (hr : w.dup.repeats = 0) (level : Level) (m : Moment)
    (h : Settles w rest w' rs) : Settles w (flushAfter level m ++ rest) w' rs := by
  unfold HxClog.flushAfter
  split
  · exact h.flush_idle hi hr m
  · exact h

theorem Settles.report (hi : w.initialized = true) (hr : w.dup.repeats = 0) (d : DupState) (m : Moment)
    (h : Settles w rest w' rs) :
    Settles w (d.takePending m ++ rest) w' (w.report d.lastLevel d.lastLogger.bytes d.repeats m ++ rs) := by
  unfold DupState.takePending Writer.report
  by_cases hd : 0 < d.repeats
  · simp only [if_pos hd]
    exact performed (perform_summary hi _ _ (Nat.ne_of_gt hd) m) (h.flushAfter hi hr _ m)
  · simp only [if_neg hd]
    exact h

theorem settles_flush (hi : w.initialized = true) (m : Moment) :
    Settles w [.flush m] (hxClogFlush m flushDepth w).1 (hxClogFlush m flushDepth w).2 := by
  rw [hxClogFlush_spec hi m]
  have hpending : Settles w [.pending m] { w with dup := w.dup.flushed }
      (w.report w.dup.lastLevel w.dup.lastLogger.bytes w.dup.repeats m) := by
    unfold DupState.flushed
    by_cases hr : 0 < w.dup.repeats
    · have hend := Settles.report (w := { w with dup := { w.dup with repeats := 0, haveLast := false } }) hi rfl w.dup m
        (.done _)
      simp only [List.append_nil] at hend
      rw [if_pos hr]
      refine .performed (perform_pending hr m) ?_
      rw [List.append_nil]
      exact hend
    · have hnone : w.report w.dup.lastLevel w.dup.lastLogger.bytes w.dup.repeats m = [] := if_neg hr
      rw [if_neg hr, hnone]
      exact .performed (perform_pending_none hr m) (.done w)
  exact .performed (perform_flush hi m) hpending

theorem settles_dispatch (hi : w.initialized = true) (c : WriteCall) (text : Bytes) :
    Settles w [.dispatch c text] (coreDispatchRecord (hxClogFlush c.summaryAt flushDepth) w (w.record c text)).1
      (coreDispatchRecord (hxClogFlush c.summaryAt flushDepth) w (w.record c text)).2 := by
  have hlevel : (w.record c text).level = c.level := rfl
  unfold coreDispatchRecord
  by_cases hf : levelFatal ≤ c.level
  · have hp : (DupTask.dispatch c text).perform w =
        { writer := w, next := [.flush c.summaryAt], out := [.line (w.record c text)] } := by
      simp [DupTask.perform, HxClog.flushAfter, hf]
    rw [hlevel, if_pos hf]
    exact .performed hp (settles_flush hi c.summaryAt)
  · have hp : (DupTask.dispatch c text).perform w = { writer := w, out := [.line (w.record c text)] } := by
      simp [DupTask.perform, HxClog.flushAfter, hf]
    rw [hlevel, if_neg hf]
    exact .performed hp (.done w)

theorem settles_write (hi : w.initialized = true) (c : WriteCall) :
    Settles w ((DupCall.write c).tasks w) (coreWritev w c).1 (coreWritev w c).2 := by
  cases ha : w.accepted c with
  | none =>
    rw [coreWritev_turned_away ha]
    have hnone : (DupCall.write c).tasks w = [] := by
      unfold Writer.accepted at ha
      by_cases hp : w.passes c = true
      · rw [if_pos hp] at ha
        simp [DupCall.tasks, ha]
      · simp [DupCall.tasks, hp]
    rw [hnone]
    exact .done w
  | some text =>
    obtain ⟨hp, htext⟩ := Writer.accepted_eq ha
    by_cases he : w.dup.enabled = true
    · have htasks : (DupCall.write c).tasks w = [.check c text] := by simp [DupCall.tasks, hi, hp, htext, he]
      rw [htasks, coreWritev_spec hi he ha]
      by_cases hf : w.dup.folds (w.key c text) c.checkedAt.ms = true
      · rw [if_pos hf]
        exact .performed (perform_check_folds he hf) (.done _)
      · rw [if_neg hf]
        have hlast := settles_dispatch (w := { w with dup := w.dup.restart (w.key c text) c.checkedAt.ms }) hi c text
        rw [coreDispatchRecord_idle rfl] at hlast
        refine .performed (perform_check_restarts he hf) ?_
        rw [List.append_nil]
        exact Settles.report (w := { w with dup := w.dup.restart (w.key c text) c.checkedAt.ms }) hi rfl w.dup
          c.summaryAt hlast
    · have htasks : (DupCall.write c).tasks w = [.dispatch c text] := by simp [DupCall.tasks, hi, hp, htext, he]
      have hcall : coreWritev w c =
          coreDispatchRecord (hxClogFlush c.summaryAt flushDepth) w (w.record c text) := by
        simp [coreWritev, hi, hp, htext, he]
      rw [htasks, hcall]
      exact settles_dispatch hi c text

end

/-- A thread that is left alone goes through its tasks. -/
theorem Settles.run {w w' : Writer} {ts : List DupTask} {rs : List Record} (h : Settles w ts w' rs) :
    ∀ {s : DupThreads} {i : Nat}, s.writer = w → s.threads[i]? = some ts →
      ∃ k s', Transition.run DupThreads.step s (.replicate k (.go i)) = some s' ∧ s'.writer = w' ∧
        s'.threads = s.threads.set i [] ∧ s'.out.map Dispatched.record = s.out.map Dispatched.record ++ rs := by
  induction h with
  | done w =>
    intro s i hw hi
    obtain ⟨hlt, hts⟩ := List.getElem?_eq_some_iff.mp hi
    refine ⟨0, s, rfl, hw, ?_, by simp⟩
    rw [← hts, List.set_getElem_self]
  | @go w w' t rest rs h ih =>
    intro s i hw hi
    subst hw
    have hlt : i < s.threads.length := (List.getElem?_eq_some_iff.mp hi).1
    obtain ⟨k, s', hr, hw', ht, ho⟩ := ih
      (s := ⟨(t.perform s.writer).writer, s.threads.set i ((t.perform s.writer).next ++ rest),
        s.suppressed + (t.perform s.writer).suppressed, s.out ++ (t.perform s.writer).out⟩)
      (i := i) rfl (by simp [hlt])
    refine ⟨k + 1, s', ?_, hw', ?_, ?_⟩
    · rw [List.replicate_succ, Transition.run_cons]
      simp only [DupThreads.step, hi]
      exact hr
    · rw [ht]
      simp
    · rw [ho]
      simp

/-- Alone, a call of `core_writev` does what it does in a program with one thread. -/
theorem undisturbed_write {s : DupThreads} {i : Nat} (hi : s.writer.initialized = true) (hidle : s.threads[i]? = some [])
    (c : WriteCall) : ∃ k s', Transition.run DupThreads.step s (.call i (.write c) :: .replicate k (.go i)) = some s' ∧
      s'.writer = (coreWritev s.writer c).1 ∧ s'.threads = s.threads ∧
        s'.out.map Dispatched.record = s.out.map Dispatched.record ++ (coreWritev s.writer c).2 := by
  obtain ⟨hlt, hnone⟩ := List.getElem?_eq_some_iff.mp hidle
  obtain ⟨k, s', hr, hw, ht, ho⟩ := (settles_write hi c).run
    (s := { s with threads := s.threads.set i ((DupCall.write c).tasks s.writer) }) (i := i) rfl (by simp [hlt])
  refine ⟨k, s', ?_, hw, ?_, ho⟩
  · rw [Transition.run_cons]
    simp only [DupThreads.step, hidle]
    exact hr
  · rw [ht]
    simp only [List.set_set]
    rw [← hnone, List.set_getElem_self]

end HxClog
