import HxClog.LosslessSound

/-!
# The order of each thread's lines

A line reaches the sinks through the queue or past it. `Lane` reads off the trace
which thread brought each line that is queued, in the worker's hand or with the
sinks. As long as no thread goes past the queue while an earlier line of its own is
still in there, the sinks get the lines of every thread in the order of its calls.
-/

namespace HxClog

/-! ## Who brought which line -/

structure Lane where
  queued : List (Nat × Line)
  hand : List (Nat × Line)
  reached : List (Nat × Line)
  deriving DecidableEq, Repr

def Lane.record (d : Lane) : Ev → Lane
  | .stored i l => { d with queued := d.queued ++ [(i, l)] }
  | .evicted _ => { d with queued := d.queued.tail }
  | .skipped _ => { d with queued := d.queued.tail }
  | .popped _ => { d with queued := d.queued.tail, hand := d.queued.take 1 }
  | .emitted _ => { d with hand := [], reached := d.reached ++ d.hand }
  | .direct i l => { d with reached := d.reached ++ [(i, l)] }
  | _ => d

def lane (tr : List Ev) : Lane := tr.foldl Lane.record ⟨[], [], []⟩

def linesBy (i : Nat) (ls : List (Nat × Line)) : List Line := (ls.filter fun p => p.1 = i).map Prod.snd

def Ev.givenBy? (i : Nat) : Ev → Option Line
  | .given j l => if j = i then some l else none
  | _ => none

def givenBy (i : Nat) (tr : List Ev) : List Line := tr.filterMap (Ev.givenBy? i)

def Ev.reached? : Ev → Option Line
  | .direct _ l => some l
  | .emitted l => some l
  | _ => none

def sinkLines (tr : List Ev) : List Line := tr.filterMap Ev.reached?

/-- A thread that goes past the queue has no line of its own in it, nor in the worker's hand. -/
def notOvertaking (s : State) : Act → Bool
  | .thread i _ =>
    match s.threads[i]? with
    | some (.emit _) => linesBy i (lane s.trace).queued = [] ∧ linesBy i (lane s.trace).hand = []
    | _ => true
  | _ => true

def orderOk (s : State) (a : Act) : Bool := a.lossless && notOvertaking s a

theorem lane_append (tr evs : List Ev) : lane (tr ++ evs) = evs.foldl Lane.record (lane tr) := List.foldl_append

theorem linesBy_append (i : Nat) (xs ys : List (Nat × Line)) : linesBy i (xs ++ ys) = linesBy i xs ++ linesBy i ys := by
  unfold linesBy
  rw [List.filter_append, List.map_append]

theorem linesBy_self (i : Nat) (l : Line) : linesBy i [(i, l)] = [l] := by simp [linesBy]

theorem linesBy_other {i j : Nat} (h : i ≠ j) (l : Line) : linesBy j [(i, l)] = [] := by simp [linesBy, h]

theorem givenBy_append (i : Nat) (xs ys : List Ev) : givenBy i (xs ++ ys) = givenBy i xs ++ givenBy i ys :=
  List.filterMap_append

theorem sinkLines_append (xs ys : List Ev) : sinkLines (xs ++ ys) = sinkLines xs ++ sinkLines ys :=
  List.filterMap_append

/-! ## Who holds which line -/

def heldAt (s : State) (i : Nat) : List Line := ((s.threads[i]?).bind Pc.held).toList

theorem SameThreads.held {threads threads' : List Pc} (h : SameThreads threads threads') :
    threads'.map Pc.held = threads.map Pc.held := by
  have hsome := h (Option Line) (fun pc => some pc.held) fun pc => by rw [wake_held]
  have hmap (l : List Pc) : l.filterMap (fun pc => some pc.held) = l.map Pc.held :=
    congrFun (List.filterMap_eq_map (f := Pc.held)) l
  rw [← hmap, ← hmap]
  exact hsome

theorem heldAt_congr {s s' : State} {i : Nat} (h : (s'.threads.map Pc.held)[i]? = (s.threads.map Pc.held)[i]?) :
    heldAt s' i = heldAt s i := by
  have hjoin (threads : List Pc) : (threads[i]?).bind Pc.held = ((threads.map Pc.held)[i]?).join := by
    rw [List.getElem?_map]
    cases threads[i]? <;> rfl
  unfold heldAt
  rw [hjoin, hjoin, h]

section
variable {a : Act} {s s' : State} {i : Nat} {pc pc' : Pc}

/-- The thread that moves has its new line, the others keep theirs. -/
theorem ThreadStep.heldAt (h : ThreadStep a s s' i pc pc') (hi : s.threads[i]? = some pc) :
    heldAt s i = pc.held.toList ∧ heldAt s' i = pc'.held.toList ∧ ∀ j, j ≠ i → heldAt s' j = heldAt s j := by
  have hlt : i < s.threads.length := (List.getElem?_eq_some_iff.mp hi).1
  have hmap := h.threads.held
  refine ⟨?_, ?_, fun j hj => ?_⟩
  · unfold HxClog.heldAt
    rw [hi]
    rfl
  · have hset : HxClog.heldAt { s with threads := s.threads.set i pc' } i = pc'.held.toList := by
      unfold HxClog.heldAt
      simp only [List.getElem?_set_self hlt]
      rfl
    rw [← hset]
    refine heldAt_congr ?_
    rw [hmap]
  · refine heldAt_congr ?_
    rw [hmap, List.getElem?_map, List.getElem?_map, List.getElem?_set_ne fun e => hj e.symm]

theorem ThreadStep.heldLines (h : ThreadStep a s s' i pc pc') (hi : s.threads[i]? = some pc) :
    ∃ A B, heldLines s.threads = A ++ pc.held.toList ++ B ∧ heldLines s'.threads = A ++ pc'.held.toList ++ B := by
  obtain ⟨A, B, hold, hnew⟩ := Pool.filterMap_set Pc.held s.threads i pc hi
  exact ⟨A, B, hold, (h.threads Line Pc.held wake_held).trans (hnew pc')⟩

end

/-- The one difference between two lists of held lines. -/
theorem held_exchange {A B : List Line} {x y : Option Line} {l : Line}
    (h : (A ++ x.toList ++ B).Perm (l :: (A ++ y.toList ++ B))) : x = some l ∧ y = none := by
  have hperm : x.toList.Perm (l :: y.toList) := by
    refine List.perm_iff_count.mpr fun z => ?_
    have hcount := h.count_eq z
    simp only [List.count_append, List.count_cons] at hcount ⊢
    omega
  have hlen := hperm.length_eq
  cases x with
  | none => simp at hlen
  | some x =>
    cases y with
    | some y => simp at hlen
    | none =>
      have hx := List.perm_singleton.mp hperm.symm
      simp only [Option.toList_none, List.cons.injEq, and_true] at hx
      exact ⟨congrArg some hx.symm, rfl⟩

section
variable {a : Act} {s s' : State} (h : step s a = some s')
include h

theorem held_kept (hsame : heldLines s'.threads = heldLines s.threads) (i : Nat) : heldAt s' i = heldAt s i := by
  rcases step_threads h with ⟨-, hall, -⟩ | ⟨j, pc, pc', -, hj, hstep⟩
  · exact heldAt_congr (by rw [hall.held])
  · obtain ⟨A, B, hold, hnew⟩ := hstep.heldLines hj
    obtain ⟨h1, h2, h3⟩ := hstep.heldAt hj
    by_cases hij : i = j
    · subst hij
      rw [hold, hnew, List.append_assoc, List.append_assoc] at hsame
      rw [h1, h2]
      exact List.append_cancel_right (List.append_cancel_left hsame)
    · exact h3 i hij

/-- A line is let go of by a move of its thread. -/
theorem releasing_thread {l : Line} (hr : Releases s s' l) : ∃ i c pc pc', a = .thread i c ∧
    s.threads[i]? = some pc ∧ ThreadStep a s s' i pc pc' ∧ pc.held = some l ∧ pc'.held = none := by
  rcases step_threads h with ⟨-, hall, -⟩ | ⟨i, pc, pc', ha, hi, hstep⟩
  · have hlen := hr.length_eq
    have hsame : heldLines s'.threads = heldLines s.threads := hall Line Pc.held wake_held
    rw [hsame, List.length_cons] at hlen
    omega
  · obtain ⟨A, B, hold, hnew⟩ := hstep.heldLines hi
    unfold Releases at hr
    rw [hold, hnew] at hr
    obtain ⟨hpc, hpc'⟩ := held_exchange hr
    have hbusy : s.threads[i]? ≠ some .idle := by
      rintro hidle
      rw [hi] at hidle
      cases hidle
      cases hpc
    cases a with
    | thread i' c =>
      cases ha
      exact ⟨i, c, pc, pc', rfl, hi, hstep, hpc, hpc'⟩
    | worker c => cases ha
    | spurious i' =>
      cases ha
      obtain ⟨pc₀, hi', h⟩ := Option.bind_eq_some_iff.mp h
      split at h
      · cases h
        have hsame : heldLines (s.goto i pc₀.wake).threads = heldLines s.threads := held_goto hi' (wake_held pc₀)
        rw [hnew, hold, hpc, hpc'] at hsame
        exact absurd (congrArg List.length hsame) (by simp)
      · cases h
    | call i' l' =>
      cases ha
      simp only [step, if_neg hbusy] at h
      cases h
    | callFlush i' =>
      cases ha
      simp only [step, if_neg hbusy] at h
      cases h
    | callReconfigure i' cfg =>
      cases ha
      simp only [step, if_neg hbusy] at h
      cases h

/-- The thread whose line the new events settle has let go of it. -/
theorem held_settled {i : Nat} {l : Line} {evs : List Ev} (ht : s'.trace = s.trace ++ evs)
    (hev : ∀ j l', ∀ ev ∈ evs, ev ∈ settling j l' → j = i) (hr : Releases s s' l) :
    heldAt s i = [l] ∧ heldAt s' i = [] ∧ ∀ j, j ≠ i → heldAt s' j = heldAt s j := by
  obtain ⟨j, c, pc, pc', ha, hj, hstep, hpc, hpc'⟩ := releasing_thread h hr
  obtain ⟨h1, h2, h3⟩ := hstep.heldAt hj
  have hij : j = i := by
    cases hstep.step with
    | carry l' _ _ _ hl' => rw [hpc'] at hl'; cases hl'
    | settle l' _ _ evs' ht' ev hm hset =>
      obtain rfl : evs' = evs := List.append_cancel_left (ht'.symm.trans ht)
      exact hev j l' ev hm hset
    | reconfigure _ _ hrec _ _ =>
      cases pc with
      | dispatch | enqueue | parked | woken | emit => cases hrec
      | _ => cases hpc
    | flushPasses mark k _ hflush _ =>
      rcases hflush with rfl | rfl
      · cases hpc
      · cases hpc
    | flushWaits mark k _ hflush _ =>
      rcases hflush with rfl | rfl
      · cases hpc
      · cases hpc
    | _ => cases hpc
  subst hij
  rw [h1, h2, hpc, hpc']
  exact ⟨rfl, rfl, h3⟩

/-- A line is handed in by a call, and its thread holds it. -/
theorem held_given {i : Nat} {l : Line} (ht : s'.trace = s.trace ++ [.given i l]) (hr : Releases s' s l) :
    heldAt s i = [] ∧ heldAt s' i = [l] ∧ ∀ j, j ≠ i → heldAt s' j = heldAt s j := by
  rcases step_threads h with ⟨-, hall, -⟩ | ⟨j, pc, pc', ha, hj, hstep⟩
  · have hlen := hr.length_eq
    have hsame : heldLines s'.threads = heldLines s.threads := hall Line Pc.held wake_held
    rw [hsame, List.length_cons] at hlen
    omega
  · obtain ⟨A, B, hold, hnew⟩ := hstep.heldLines hj
    obtain ⟨h1, h2, h3⟩ := hstep.heldAt hj
    unfold Releases at hr
    rw [hold, hnew] at hr
    have hpc := held_exchange hr
    have hij : j = i := by
      cases a with
      | call i' l' =>
        simp only [step] at h
        split at h
        · cases h
          cases List.append_cancel_left ht
          cases ha
          rfl
        · cases h
      | callFlush i' =>
        simp only [step] at h
        split at h
        · cases h
          cases List.append_cancel_left ht
        · cases h
      | callReconfigure i' cfg =>
        simp only [step] at h
        split at h
        · cases h
          exact absurd (congrArg List.length ht) (by simp [State.goto])
        · cases h
      | spurious i' =>
        obtain ⟨pc₀, -, h⟩ := Option.bind_eq_some_iff.mp h
        split at h
        · cases h
          exact absurd (congrArg List.length ht) (by simp [State.goto])
        · cases h
      | worker c => cases ha
      | thread i' c =>
        cases ha
        obtain ⟨pc₀, hj', h⟩ := Option.bind_eq_some_iff.mp h
        obtain rfl : pc = pc₀ := Option.some.inj (hj.symm.trans hj')
        -- only an idle thread takes a line up, and it does so by its call
        cases hstep.step with
        | call l' => cases h
        | carry l' _ _ hl' _ => rw [hpc.2] at hl'; cases hl'
        | settle l' _ hl' => rw [hpc.2] at hl'; cases hl'
        | flushed mark k => cases k <;> cases hpc.1
        | reconfigure _ _ _ hrec _ =>
          cases pc' with
          | dispatch | enqueue | parked | woken | emit => cases hrec
          | _ => cases hpc.1
        | _ => cases hpc.1
    subst hij
    rw [h1, h2, hpc.1, hpc.2]
    exact ⟨rfl, rfl, h3⟩

/-- Only a thread at its sinks goes past the queue. -/
theorem direct_emits {i : Nat} {l : Line} (ht : s'.trace = s.trace ++ [.direct i l]) (hr : Releases s s' l) :
    ∃ c, a = .thread i c ∧ s.threads[i]? = some (.emit l) := by
  obtain ⟨j, c, pc, pc', rfl, hj, -, hpc, -⟩ := releasing_thread h hr
  have hlater : s'.trace ≠ s.trace := fun e => absurd (congrArg List.length (e.symm.trans ht)) (by simp)
  have hsettle (l' : Line) (r : Enqueue) : settleEnqueue s j l' r ≠ s' := by
    rintro rfl
    cases r with
    | unavailable => exact hlater rfl
    | wait => exact hlater rfl
    | refused e report => cases List.append_cancel_left ht
    | settled e old stored report =>
      have hevs := List.append_cancel_left ht
      cases old with
      | some old => cases hevs
      | none => cases stored <;> cases hevs
  obtain ⟨pc₀, hj', hmove⟩ := Option.bind_eq_some_iff.mp h
  obtain rfl : pc = pc₀ := Option.some.inj (hj.symm.trans hj')
  cases pc with
  | parked l' => cases hmove
  | dispatch l' =>
    cases hmove
    exact absurd rfl hlater
  | enqueue l' =>
    simp only [threadMove] at hmove
    split at hmove
    · cases hmove
      exact absurd rfl hlater
    · split at hmove
      · obtain ⟨r, -, he⟩ := Option.map_eq_some_iff.mp hmove
        exact absurd he (hsettle l' r)
      · cases hmove
  | woken l' =>
    simp only [threadMove] at hmove
    split at hmove
    · obtain ⟨r, -, he⟩ := Option.map_eq_some_iff.mp hmove
      exact absurd he (hsettle l' r)
    · cases hmove
  | emit l' =>
    cases hmove
    cases List.append_cancel_left ht
    exact ⟨c, rfl, hj⟩
  | _ => cases hpc

end

/-! ## The invariant -/

/-- What a thread handed in is with the sinks, in the worker's hand, in the queue or with the thread, in this order. -/
structure Ordered (s : State) : Prop where
  queued : (lane s.trace).queued.map Prod.snd = s.eng.queued
  hand : (lane s.trace).hand.map Prod.snd = s.hand
  reached : (lane s.trace).reached.map Prod.snd = sinkLines s.trace
  given : ∀ i, givenBy i s.trace =
    linesBy i (lane s.trace).reached ++ linesBy i (lane s.trace).hand ++ linesBy i (lane s.trace).queued ++ heldAt s i

/-- Events that move no line. -/
theorem record_silent : ∀ {evs : List Ev} (d : Lane), (∀ ev ∈ evs, ev.silent = true) → evs.foldl Lane.record d = d
  | [], _, _ => rfl
  | ev :: evs, d, h => by
    have hev : d.record ev = d := by
      have hs := h ev List.mem_cons_self
      cases ev with
      | dropsReported | workerFlush | flushCalled => rfl
      | _ => cases hs
    rw [List.foldl_cons, hev]
    exact record_silent d fun ev hm => h ev (List.mem_cons_of_mem _ hm)

section
variable {s s' : State}

/-- A step that moves no line. -/
theorem Ordered.still (ho : Ordered s) {evs : List Ev} (ht : s'.trace = s.trace ++ evs)
    (hlane : evs.foldl Lane.record (lane s.trace) = lane s.trace) (hgiven : ∀ i, givenBy i evs = [])
    (hsinks : sinkLines evs = []) (hq : s'.eng.queued = s.eng.queued) (hh : s'.hand = s.hand)
    (hheld : ∀ i, heldAt s' i = heldAt s i) : Ordered s' := by
  have hl : lane s'.trace = lane s.trace := by rw [ht, lane_append, hlane]
  constructor
  · rw [hl, hq]
    exact ho.queued
  · rw [hl, hh]
    exact ho.hand
  · rw [hl, ht, sinkLines_append, hsinks, List.append_nil]
    exact ho.reached
  · intro i
    rw [hl, ht, givenBy_append, hgiven, List.append_nil, hheld]
    exact ho.given i

theorem Ordered.take (ho : Ordered s) {i : Nat} {l : Line} (ht : s'.trace = s.trace ++ [.given i l])
    (hq : s'.eng.queued = s.eng.queued) (hh : s'.hand = s.hand)
    (hheld : heldAt s i = [] ∧ heldAt s' i = [l] ∧ ∀ j, j ≠ i → heldAt s' j = heldAt s j) : Ordered s' := by
  have hl : lane s'.trace = lane s.trace := by rw [ht, lane_append]; rfl
  constructor
  · rw [hl, hq]
    exact ho.queued
  · rw [hl, hh]
    exact ho.hand
  · rw [hl, ht, sinkLines_append]
    exact ho.reached.trans (List.append_nil _).symm
  · intro j
    have hj := ho.given j
    rw [hl, ht, givenBy_append]
    by_cases hij : j = i
    · subst hij
      rw [hheld.1, List.append_nil] at hj
      rw [hheld.2.1, ← hj]
      simp [givenBy, Ev.givenBy?]
    · have hne : ¬i = j := fun e => hij e.symm
      rw [hheld.2.2 j hij, ← hj]
      simp [givenBy, Ev.givenBy?, hne]

theorem Ordered.store (ho : Ordered s) {i : Nat} {l : Line} {evs : List Ev}
    (ht : s'.trace = s.trace ++ .stored i l :: evs) (hs : ∀ ev ∈ evs, ev.silent = true)
    (hq : s'.eng.queued = s.eng.queued ++ [l]) (hh : s'.hand = s.hand)
    (hheld : heldAt s i = [l] ∧ heldAt s' i = [] ∧ ∀ j, j ≠ i → heldAt s' j = heldAt s j) : Ordered s' := by
  have hl : lane s'.trace = { lane s.trace with queued := (lane s.trace).queued ++ [(i, l)] } := by
    rw [ht, lane_append, List.foldl_cons]
    exact record_silent _ hs
  have hsinks : sinkLines (.stored i l :: evs) = [] := by
    refine List.filterMap_eq_nil_iff.mpr fun ev hm => ?_
    rcases List.mem_cons.mp hm with rfl | hm
    · rfl
    · have := hs ev hm
      cases ev <;> first | rfl | cases this
  have hgiven (j : Nat) : givenBy j (.stored i l :: evs) = [] := by
    refine List.filterMap_eq_nil_iff.mpr fun ev hm => ?_
    rcases List.mem_cons.mp hm with rfl | hm
    · rfl
    · have := hs ev hm
      cases ev <;> first | rfl | cases this
  constructor
  · rw [hl, hq, ← ho.queued]
    exact List.map_append
  · rw [hl, hh]
    exact ho.hand
  · rw [hl, ht, sinkLines_append, hsinks, List.append_nil]
    exact ho.reached
  · intro j
    have hj := ho.given j
    rw [hl, ht, givenBy_append, hgiven, List.append_nil, linesBy_append, hj]
    by_cases hij : j = i
    · subst hij
      rw [hheld.1, hheld.2.1, linesBy_self, List.append_nil, List.append_assoc]
    · rw [hheld.2.2 j hij, linesBy_other (fun e => hij e.symm), List.append_nil]

/-- The line goes past the queue, in which there is no line of its thread. -/
theorem Ordered.pass (ho : Ordered s) {i : Nat} {l : Line} (ht : s'.trace = s.trace ++ [.direct i l])
    (hq : s'.eng.queued = s.eng.queued) (hh : s'.hand = s.hand)
    (hclear : linesBy i (lane s.trace).queued = [] ∧ linesBy i (lane s.trace).hand = [])
    (hheld : heldAt s i = [l] ∧ heldAt s' i = [] ∧ ∀ j, j ≠ i → heldAt s' j = heldAt s j) : Ordered s' := by
  have hl : lane s'.trace = { lane s.trace with reached := (lane s.trace).reached ++ [(i, l)] } := by
    rw [ht, lane_append]
    rfl
  constructor
  · rw [hl, hq]
    exact ho.queued
  · rw [hl, hh]
    exact ho.hand
  · rw [hl, ht, sinkLines_append, ← ho.reached]
    exact List.map_append
  · intro j
    have hj := ho.given j
    rw [hl, ht, givenBy_append, linesBy_append, hj]
    by_cases hij : j = i
    · subst hij
      rw [hheld.1, hheld.2.1, hclear.1, hclear.2, linesBy_self]
      simp [givenBy, Ev.givenBy?]
    · rw [hheld.2.2 j hij, linesBy_other (fun e => hij e.symm)]
      simp [givenBy, Ev.givenBy?]

theorem Ordered.pop (ho : Ordered s) {l : Line} (ht : s'.trace = s.trace ++ [.popped l])
    (hq : s.eng.queued = l :: s'.eng.queued) (hh : s.hand = []) (hh' : s'.hand = [l])
    (hheld : ∀ i, heldAt s' i = heldAt s i) : Ordered s' := by
  have hqueued := ho.queued
  rw [hq] at hqueued
  obtain ⟨p, rest, hlane, hp, hrest⟩ := List.map_eq_cons_iff.mp hqueued
  have hhand : (lane s.trace).hand = [] := List.map_eq_nil_iff.mp (ho.hand.trans hh)
  have hl : lane s'.trace = { lane s.trace with queued := rest, hand := [p] } := by
    rw [ht, lane_append]
    show (lane s.trace).record (.popped l) = _
    unfold Lane.record
    rw [hlane]
    rfl
  constructor
  · rw [hl]
    exact hrest
  · rw [hl, hh', ← hp]
    rfl
  · rw [hl, ht, sinkLines_append]
    exact (ho.reached).trans (List.append_nil _).symm
  · intro i
    have hi := ho.given i
    have hsplit : linesBy i (p :: rest) = linesBy i [p] ++ linesBy i rest := linesBy_append i [p] rest
    rw [hlane, hhand, hsplit] at hi
    rw [hl, ht, givenBy_append, hi, hheld]
    simp [givenBy, Ev.givenBy?, linesBy]

theorem Ordered.emit (ho : Ordered s) {l : Line} (ht : s'.trace = s.trace ++ [.emitted l])
    (hq : s'.eng.queued = s.eng.queued) (hh : s.hand = [l]) (hh' : s'.hand = [])
    (hheld : ∀ i, heldAt s' i = heldAt s i) : Ordered s' := by
  have hl : lane s'.trace =
      { lane s.trace with hand := [], reached := (lane s.trace).reached ++ (lane s.trace).hand } := by
    rw [ht, lane_append]
    rfl
  constructor
  · rw [hl, hq]
    exact ho.queued
  · rw [hl, hh']
    rfl
  · rw [hl, ht, sinkLines_append, ← ho.reached]
    refine List.map_append.trans (congrArg _ ?_)
    rw [ho.hand, hh]
    rfl
  · intro i
    rw [hl, ht, givenBy_append, ho.given i, hheld, linesBy_append]
    simp [givenBy, Ev.givenBy?, linesBy]

end

theorem ordered_step {s s' : State} {a : Act} (hc : Control s) (hs : Lossless s) (ho : Ordered s)
    (ha : orderOk s a = true) (h : step s a = some s') : Ordered s' := by
  obtain ⟨halossless, hpast⟩ := (Bool.and_eq_true _ _).mp ha
  obtain ⟨hstarts, halloc⟩ := lossless_startsOk halossless
  have halone (i : Nat) (l : Line) : ∀ j l', ∀ ev ∈ [Ev.direct i l], ev ∈ settling j l' → j = i := by
    intro j l' ev hev hset
    rw [List.mem_singleton.mp hev] at hset
    simp [settling] at hset
    exact hset.1.symm
  cases step_effect hc hstarts h with
  | quiet evs ht hev same held =>
    refine ho.still ht (record_silent _ hev) (fun i => ?_) ?_ same.queued same.hand (held_kept h held)
    · exact silent_filterMap hev fun ev hev => by cases ev <;> first | rfl | cases hev
    · exact silent_filterMap hev fun ev hev => by cases ev <;> first | rfl | cases hev
  | flushed i mark k _ ht same held =>
    exact ho.still ht rfl (fun _ => rfl) rfl same.queued same.hand (held_kept h held)
  | given i l ht same held => exact ho.take ht same.queued same.hand (held_given h ht held)
  | direct i l ht same held =>
    obtain ⟨c, rfl, hi⟩ := direct_emits h ht held
    simp only [notOvertaking, hi, decide_eq_true_eq] at hpast
    exact ho.pass ht same.queued same.hand hpast (held_settled h ht (halone i l) held)
  | refused i l report _ hp =>
    rw [hs.overflow] at hp
    cases hp
  | settled i l old stored report _ hen ht hw held =>
    rw [halloc] at hen
    have hh := hand_of_worker hw hen.wf.2.2.1
    cases hen with
    | stored _ _ _ hr hs' hc h' ha' =>
      obtain rfl := ha' rfl
      have hsilent := dropEvents_silent report
      refine ho.store ht hsilent h'.queued hh (held_settled h ht ?_ held)
      intro j l' ev hev hset
      rcases List.mem_cons.mp hev with rfl | hev
      · simp [settling] at hset
        exact hset.1.symm
      · have hquiet := hsilent ev hev
        cases ev with
        | dropsReported => simp [settling] at hset
        | workerFlush => simp [settling] at hset
        | flushCalled => simp [settling] at hset
        | _ => cases hquiet
    | evicted _ _ _ _ _ _ _ hp =>
      rw [hs.overflow] at hp
      cases hp
  | skipped c l hact hno =>
    subst hact
    rw [show c.alloc = true from halloc] at hno
    cases hno
  | popped l ht hsame hq hd hh hh' held => exact ho.pop ht hq hh hh' (held_kept h held)
  | emitted l ht he hh hh' held => exact ho.emit ht (by rw [he]) hh hh' (held_kept h held)
  | started i cfg hi ht hq hh he hh' held =>
    refine ho.still ht rfl (fun _ => rfl) rfl ?_ (hh'.trans hh.symm) (held_kept h held)
    rw [he, hq, hxAsyncStart_queued]

theorem ordered_init (n : Nat) (cfg : AsyncConfig) : Ordered (initState n cfg) := by
  have hheld (i : Nat) : heldAt (initState n cfg) i = [] := by
    unfold heldAt initState
    simp only [List.getElem?_replicate]
    split <;> rfl
  refine ⟨?_, ?_, rfl, fun i => ?_⟩
  · cases hm : cfg.mode with
    | async => simp only [initState, hm, hxAsyncStart_queued]; rfl
    | sync => simp only [initState, hm]; rfl
  · cases hm : cfg.mode with
    | async => simp only [State.hand, initState, hm]; rfl
    | sync => simp only [State.hand, initState, hm]; rfl
  · rw [hheld]
    rfl

/-- However often the library is reconfigured, a sink that stays gets the lines of
each thread in the order in which the thread handed them in, in every run in which
no thread goes past lines of its own. `takes` are the lines the sink lets through. -/
theorem order_survives {n : Nat} {cfg : AsyncConfig} {as : List Act} {s : State}
    (hcfg : cfg.overflowPolicy = .block)
    (h : Transition.run (Transition.restrict orderOk step) (initState n cfg) as = some s) :
    (lane s.trace).reached.map Prod.snd = sinkLines s.trace ∧
      ∀ (i : Nat) (takes : Line → Bool),
        (linesBy i (lane s.trace).reached).filter takes <+: (givenBy i s.trace).filter takes := by
  obtain ⟨-, -, ho⟩ := Transition.run_invariant (I := fun s => Control s ∧ Lossless s ∧ Ordered s)
    (fun s a t hs hst => by
      obtain ⟨hok, hstep⟩ := Transition.restrict_some hst
      have hlossless := ((Bool.and_eq_true _ _).mp hok).1
      exact ⟨control_step hs.1 (lossless_startsOk hlossless).1 hstep, lossless_step hs.1 hs.2.1 hlossless hstep,
        ordered_step hs.1 hs.2.1 hs.2.2 hok hstep⟩)
    as _ s ⟨control_init n cfg, lossless_init n hcfg, ordered_init n cfg⟩ h
  refine ⟨ho.reached, fun i takes => ?_⟩
  rw [ho.given i, List.append_assoc, List.append_assoc, List.filter_append]
  exact List.prefix_append _ _

theorem order_survives_underway : ∃ s,
    Transition.run (Transition.restrict orderOk step) (initState 2 ⟨.async, 1, 1, 0, .block⟩)
      (stoppedUnderway ⟨2, [97], 0, true⟩ ⟨2, [98], 0, true⟩) = some s ∧
    linesBy 0 (lane s.trace).reached = [⟨2, [97], 0, true⟩, ⟨2, [98], 0, true⟩] ∧
    (linesBy 0 (lane s.trace).reached).filter (fun _ => true) <+: (givenBy 0 s.trace).filter fun _ => true :=
  ⟨_, rfl, rfl, (@order_survives 2 ⟨.async, 1, 1, 0, .block⟩
    (stoppedUnderway ⟨2, [97], 0, true⟩ ⟨2, [98], 0, true⟩) _ rfl rfl).2 0 fun _ => true⟩

/-- The worker has a line of thread 0 in its hand when thread 1 switches to the
synchronous mode; the next line of thread 0 goes past it. -/
def overtaking (l l' : Line) : List Act :=
  [.call 0 l, .thread 0 {}, .thread 0 {}, .worker {}, .worker {}, .callReconfigure 1 ⟨.sync, 1, 1, 0, .block⟩,
    .thread 1 {}, .thread 1 {}, .thread 1 {}, .thread 1 {}, .thread 1 {}, .call 0 l', .thread 0 {}, .thread 0 {},
    .worker {}]

theorem reconfigure_overtakes : ∃ s,
    execute Act.lossless 2 ⟨.async, 1, 1, 0, .block⟩ (overtaking ⟨2, [97], 0, true⟩ ⟨2, [98], 0, true⟩) = some s ∧
    givenBy 0 s.trace = [⟨2, [97], 0, true⟩, ⟨2, [98], 0, true⟩] ∧
    sinkLines s.trace = [⟨2, [98], 0, true⟩, ⟨2, [97], 0, true⟩] ∧
    linesBy 0 (lane s.trace).reached = [⟨2, [98], 0, true⟩, ⟨2, [97], 0, true⟩] ∧
    ¬linesBy 0 (lane s.trace).reached <+: givenBy 0 s.trace :=
  ⟨_, rfl, rfl, rfl, rfl, by decide⟩

end HxClog
