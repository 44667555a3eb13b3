import HxClog.EngineSound
import HxClog.Threads

/-!
# Sections of `hx_async_enqueue`

`Enqueued` lists the ways in which a lock section of `hx_async_enqueue` can end,
each with everything that is known about the engine then.
-/

namespace HxClog

open C

inductive Enqueued (e : AsyncEngine) (l : Line) (alloc : Bool) : Enqueue → Prop
  | unavailable (h : e.running = false ∨ e.stop = true) : Enqueued e l alloc .unavailable
  | wait (h : e.capacity ≤ e.count ∧ e.stop = false) : Enqueued e l alloc .wait
  | refused (report : Bool) (hr : e.running = true) (hs : e.stop = false) (hp : e.overflow = .dropNew)
      (hc : e.count = e.capacity) : Enqueued e l alloc (.refused { e with dropped := e.dropped + 1 } report)
  | stored (e' : AsyncEngine) (stored report : Bool) (hr : e.running = true) (hs : e.stop = false)
      (hc : e.count < e.capacity) (h : Stored e e' l stored) (ha : alloc = true → stored = true) :
      Enqueued e l alloc (.settled e' none stored report)
  | evicted (mid e' : AsyncEngine) (old : Line) (stored report : Bool) (hr : e.running = true) (hs : e.stop = false)
      (hp : e.overflow = .dropOld) (hc : e.count = e.capacity) (hq : e.queued = old :: mid.queued)
      (hsame : SameControl e mid) (hscratch : mid.scratch = e.scratch) (hd : mid.dropped = e.dropped + 1)
      (h : Stored mid e' l stored) (ha : alloc = true → stored = true) :
      Enqueued e l alloc (.settled e' (some old) stored report)

section
variable {e : AsyncEngine} {l : Line} {alloc : Bool} {r : Enqueue} (hw : e.running = true → e.WF)
include hw

theorem asyncEnqueueBlock_spec (h : asyncEnqueueBlock e l alloc = some r) : Enqueued e l alloc r := by
  unfold asyncEnqueueBlock at h
  split at h
  · rename_i hc
    cases h
    exact .wait hc
  · rename_i hfull
    split at h
    · rename_i hoff
      cases h
      refine .unavailable ?_
      rw [Bool.or_eq_true, Bool.not_eq_true'] at hoff
      exact hoff.symm
    · rename_i hon
      rw [Bool.or_eq_true, Bool.not_eq_true', not_or, Bool.not_eq_true, Bool.not_eq_false] at hon
      obtain ⟨⟨e', stored, report⟩, hst, rfl⟩ := Option.map_eq_some_iff.mp h
      have hc : e.count < e.capacity := by
        rcases Nat.lt_or_ge e.count e.capacity with h' | h'; exact h'
        exact absurd ⟨h', hon.1⟩ hfull
      obtain ⟨hs, ha⟩ := storeLine_spec (hw hon.2) hc hst
      exact .stored e' stored report hon.2 hon.1 hc hs ha

theorem hxAsyncEnqueue_spec (h : hxAsyncEnqueue e l alloc = some r) : Enqueued e l alloc r := by
  unfold hxAsyncEnqueue at h
  split at h
  · rename_i hoff
    cases h
    rw [Bool.or_eq_true, Bool.not_eq_true'] at hoff
    exact .unavailable hoff
  · rename_i hon
    rw [Bool.or_eq_true, Bool.not_eq_true', not_or, Bool.not_eq_true, Bool.not_eq_false] at hon
    obtain ⟨hr, hs⟩ := hon
    have hwf := hw hr
    split at h
    · rename_i hfull
      have hc : e.count = e.capacity := Nat.le_antisymm hwf.count hfull
      split at h
      · rename_i hp
        cases h
        exact .refused _ hr hs hp hc
      · rename_i hp
        obtain ⟨⟨e', stored, report⟩, hst, rfl⟩ := Option.map_eq_some_iff.mp h
        obtain ⟨hmid, hlt, s, hslot, _, _, hq⟩ := advanceHead_spec hwf (by rw [hc]; exact hwf.pos)
        obtain ⟨hsto, ha⟩ := storeLine_spec (wf_dropped hmid (e.dropped + 1)) hlt hst
        rw [hslot]
        exact .evicted { advanceHead e with dropped := e.dropped + 1 } e' s.line stored _ hr hs hp hc hq
          ⟨rfl, rfl, rfl, rfl, rfl, rfl⟩ rfl rfl hsto ha
      · exact asyncEnqueueBlock_spec hw h
    · rename_i hroom
      obtain ⟨⟨e', stored, report⟩, hst, rfl⟩ := Option.map_eq_some_iff.mp h
      obtain ⟨hsto, ha⟩ := storeLine_spec hwf (Nat.lt_of_not_le hroom) hst
      exact .stored e' stored report hr hs (Nat.lt_of_not_le hroom) hsto ha

end

/-- Lines shorter than `2 ^ 31 - 1` bytes always get through the section. -/
theorem hxAsyncEnqueue_isSome {e : AsyncEngine} (hw : e.WF) {l : Line} (hl : l.size < 2 ^ 31 - 1) (alloc : Bool) :
    (hxAsyncEnqueue e l alloc).isSome ∧ (asyncEnqueueBlock e l alloc).isSome := by
  have hblock : (asyncEnqueueBlock e l alloc).isSome := by
    unfold asyncEnqueueBlock
    split
    · rfl
    · split
      · rfl
      · rw [Option.isSome_map]; exact storeLine_isSome hw hl alloc
  refine ⟨?_, hblock⟩
  unfold hxAsyncEnqueue
  split
  · rfl
  · split
    · rename_i hfull
      split
      · rfl
      · obtain ⟨hmid, _⟩ := advanceHead_spec hw (Nat.lt_of_lt_of_le hw.pos hfull)
        rw [Option.isSome_map]
        exact storeLine_isSome (wf_dropped hmid _) hl alloc
      · exact hblock
    · rw [Option.isSome_map]; exact storeLine_isSome hw hl alloc

/-- A section that reaches the queue keeps the engine well formed. -/
theorem Enqueued.wf {e e' : AsyncEngine} {l : Line} {alloc stored report : Bool} {old : Option Line}
    (h : Enqueued e l alloc (.settled e' old stored report)) :
    e'.WF ∧ SameControl e e' ∧ e'.scratch = e.scratch ∧ e.running = true ∧ e.stop = false := by
  cases h with
  | stored _ _ _ hr hs _ h => exact ⟨h.wf, h.same, h.scratch, hr, hs⟩
  | evicted mid _ _ _ _ hr hs _ _ _ hsame hscratch _ h =>
    exact ⟨h.wf, hsame.trans h.same, h.scratch.trans hscratch, hr, hs⟩

/-- The effect of a section that reaches the queue, as operations of a bounded queue. -/
theorem Enqueued.fifo {e e' : AsyncEngine} {l : Line} {alloc stored report : Bool} {old : Option Line}
    (hw : e.WF) (h : Enqueued e l alloc (.settled e' old stored report)) (q : Fifo.Queue Line e.capacity)
    (hq : q.items = e.queued) :
    ∃ q' : Fifo.Queue Line e.capacity, Transition.run Fifo.step q
        ((old.map fun o => Fifo.Op.leave o .evicted).toList ++ [if stored then Fifo.Op.push l else .lose l]) = some q' ∧
      q'.items = e'.queued ∧ e'.dropped = e.dropped + (if old.isSome then 1 else 0) + (if stored then 0 else 1) := by
  have hlen := AsyncEngine.queued_length hw
  -- storing into a queue with room
  have key : ∀ (mid : AsyncEngine) (p : Fifo.Queue Line e.capacity), p.items = mid.queued →
      p.items.length < e.capacity → Stored mid e' l stored →
      ∃ q' : Fifo.Queue Line e.capacity,
        Transition.run Fifo.step p [if stored then Fifo.Op.push l else .lose l] = some q' ∧ q'.items = e'.queued := by
    intro mid p hp hroom hst
    cases stored with
    | true =>
      obtain ⟨q', hs, hi⟩ := Fifo.step_push (q := p) l hroom
      refine ⟨q', by simp [Transition.run_cons, hs], ?_⟩
      rw [hi, hp]; exact hst.queued.symm
    | false => exact ⟨p, rfl, hp.trans hst.queued.symm⟩
  cases h with
  | stored _ _ _ hr hs hc h _ =>
    obtain ⟨q', hrun, hi⟩ := key e q hq (by rw [hq, hlen]; exact hc) h
    refine ⟨q', hrun, hi, ?_⟩
    rw [h.dropped]; cases stored <;> rfl
  | evicted mid _ old _ _ hr hs hp hc hmid hsame hscratch hd h _ =>
    obtain ⟨p, hstep, hi⟩ := Fifo.step_leave .evicted (hq.trans hmid) (fun _ => by rw [hq, hlen, hc])
    have hroom : p.items.length < e.capacity := by
      have hl : e.queued.length = p.items.length + 1 := by rw [hmid, hi]; rfl
      have := hw.count
      omega
    obtain ⟨q', hrun, hi'⟩ := key mid p hi hroom h
    refine ⟨q', ?_, hi', ?_⟩
    · rw [Transition.run_append, show Transition.run Fifo.step q ((some old).map fun o =>
        Fifo.Op.leave o .evicted).toList = some p by simp [Transition.run_cons, hstep]]
      exact hrun
    · rw [h.dropped, hd]; cases stored <;> rfl

end HxClog
