import HxClog.Lib.Pool
import HxClog.Underway
import HxClog.RoutingSound

/-!
# What toggles of formats do to the records under way

For every sink and every record whose level passes, what the sink was written and what
is still owed to it add up to one: a line that is under way is owed to the sinks it was
meant for when it was routed. Emitting a line pays what it owes as long as the sinks
that take it stand as they did then.
-/

namespace HxClog

open C Slots

/-! ## What is owed -/

/-- Whether the line was meant for the sink with this id. -/
def Routed.due (id : Nat) (r : Routed) : Bool :=
  if r.line.target = 0 then !r.overridden.contains id else r.line.target = id

def owedLines (id n : Nat) (ls : List Routed) : Nat := ls.countP fun r => r.record = n && r.due id

def Dispatching.owes (id n : Nat) : Dispatching → Nat
  | .collect m _ _ _ => if m = n then 1 else 0
  | .send ls => owedLines id n ls

def Dispatching.lines : Dispatching → List Routed
  | .collect .. => []
  | .send ls => ls

/-- What a sink is known by. -/
def Sink.key (s : Sink) : Nat × Nat × Level := (s.obj, s.id, s.minLevel)

section
variable {cap : Nat}

def Underway.owed (u : Underway cap) (id n : Nat) : Nat :=
  owedLines id n u.hand.toList + owedLines id n u.queue.items + (u.threads.map (Dispatching.owes id n)).sum

def Underway.inFlight (u : Underway cap) (r : Routed) : Prop :=
  r ∈ u.hand.toList ∨ r ∈ u.queue.items ∨ ∃ d ∈ u.threads, r ∈ d.lines

theorem owedLines_append (id n : Nat) (xs ys : List Routed) :
    owedLines id n (xs ++ ys) = owedLines id n xs + owedLines id n ys := List.countP_append

theorem owedLines_cons (id n : Nat) (r : Routed) (ls : List Routed) :
    owedLines id n (r :: ls) = owedLines id n [r] + owedLines id n ls := owedLines_append id n [r] ls

theorem owedLines_none {id n : Nat} {ls : List Routed} (h : ∀ r ∈ ls, r.record ≠ n) : owedLines id n ls = 0 := by
  refine List.countP_eq_zero.mpr fun r hr hd => h r hr ?_
  simp only [Bool.and_eq_true, decide_eq_true_eq] at hd
  exact hd.1

/-- Nobody else owes more or less when one thread goes on. -/
theorem goto_owed {u : Underway cap} {i : Nat} {d : Dispatching} (hi : u.threads[i]? = some d) (d' : Dispatching)
    (id n : Nat) : (u.goto i d').owed id n + d.owes id n = u.owed id n + d'.owes id n := by
  have hsum := Pool.sum_set (Dispatching.owes id n) d' hi
  unfold Underway.owed Underway.goto
  simp only
  omega

theorem goto_inFlight {u : Underway cap} {i : Nat} {d' : Dispatching} {r : Routed} (h : (u.goto i d').inFlight r) :
    u.inFlight r ∨ r ∈ d'.lines := by
  rcases h with h | h | ⟨d, hd, h⟩
  · exact .inl (.inl h)
  · exact .inl (.inr (.inl h))
  · rcases List.mem_or_eq_of_mem_set hd with hd | rfl
    · exact .inl (.inr (.inr ⟨d, hd, h⟩))
    · exact .inr h

/-! ## What a line is meant for -/

variable {c : Core}

/-- When a record is routed, its lines are meant for the sinks they would go to. -/
theorem routed_due (hdistinct : (c.table.live.map Sink.id).Nodup) {s : Sink} (hmem : s ∈ c.table.live) (n : Nat)
    (l : Line) : (Routed.mk l n c.overridden).due s.id = Core.routes l.target s := by
  unfold Routed.due Core.routes
  simp only
  split
  · have hiff : s.id ∈ c.overridden ↔ s.overrideSet = true := by
      unfold Core.overridden
      constructor
      · intro h
        obtain ⟨s', hs', hid⟩ := List.mem_map.mp h
        obtain ⟨hlive, hset⟩ := List.mem_filter.mp hs'
        exact List.inj_on_of_nodup_map hdistinct hlive hmem hid ▸ hset
      · exact fun h => List.mem_map_of_mem (List.mem_filter.mpr ⟨hmem, h⟩)
    cases hset : s.overrideSet with
    | true => simp [hiff.mpr hset]
    | false =>
      have hnot : s.id ∉ c.overridden := fun h => by rw [hiff.mp h] at hset; cases hset
      simp [hnot]
  · exact decide_eq_decide.mpr eq_comm

theorem routed_owed (hdistinct : (c.table.live.map Sink.id).Nodup) {s : Sink} (hmem : s ∈ c.table.live) (n m : Nat)
    {ls : List Line} {l : Line} (h : (ls.filter fun l => Core.routes l.target s) = [l]) :
    owedLines s.id m (c.routed n ls) = if n = m then 1 else 0 := by
  unfold owedLines Core.routed
  rw [List.countP_map]
  by_cases hn : n = m
  · rw [if_pos hn]
    have hsame : (fun l : Line => Core.routes l.target s) =
        (fun r : Routed => r.record = m && r.due s.id) ∘ fun l => ⟨l, n, c.overridden⟩ := by
      funext l
      simp only [Function.comp, hn, decide_true, Bool.true_and]
      exact (routed_due hdistinct hmem m l).symm
    rw [← hsame, List.countP_eq_length_filter, h]
    rfl
  · rw [if_neg hn]
    refine List.countP_eq_zero.mpr fun l _ => ?_
    simp [hn]

theorem routed_mem {n : Nat} {ls : List Line} {r : Routed} (h : r ∈ c.routed n ls) : r.record = n ∧ r.line ∈ ls := by
  obtain ⟨l, hl, rfl⟩ := List.mem_map.mp h
  exact ⟨rfl, hl⟩

/-! ## Setting and clearing formats -/

theorem changeSink_key (hs : c.Slotted 0) (id : Nat) (f : Sink → Sink) (hf : ∀ s, (f s).key = s.key) :
    (c.changeSink id f).1.table.live.map Sink.key = c.table.live.map Sink.key := by
  unfold Core.changeSink
  split
  · rename_i i _
    have hlive := (hs.holds.modify i f).live
    show (c.table.modify i f).live.map Sink.key = _
    rw [hlive]
    exact Core.map_modify Sink.key f hf _ i
  · rfl

theorem changeOverride_key (hs : c.Slotted 0) (id : Nat) (f : Sink → Sink) (hf : ∀ s, (f s).key = s.key) :
    (c.changeOverride id f).1.table.live.map Sink.key = c.table.live.map Sink.key := by
  have h := changeSink_key hs id f hf
  unfold Core.changeOverride
  split
  · rename_i c' he
    rw [he] at h
    exact h
  · exact h

theorem changeOverride_created (id : Nat) (f : Sink → Sink) : (c.changeOverride id f).1.created = c.created := by
  have h : (c.changeSink id f).1.created = c.created := by
    unfold Core.changeSink
    split <;> rfl
  unfold Core.changeOverride
  split
  · rename_i c' he
    rw [he] at h
    exact h
  · exact h

/-- What a call leaves as it is. -/
structure Keeps (c c' : Core) : Prop where
  slotted : c'.Slotted 0
  counted : c'.Counted
  created : c'.created = c.created
  keys : c'.table.live.map Sink.key = c.table.live.map Sink.key

theorem setSinkPattern_keeps (hs : c.Slotted 0) (hc : c.Counted) (id : Nat) (pattern : Option CStr) :
    Keeps c (c.hxClogSetSinkPattern id pattern).1 := by
  refine ⟨Core.run_slotted hs (.setSinkPattern id pattern), Core.run_counted hc hs (.setSinkPattern id pattern),
    changeOverride_created id _, changeOverride_key hs id _ fun s => ?_⟩
  cases pattern <;> rfl

theorem setSinkFormatMode_keeps (hs : c.Slotted 0) (hc : c.Counted) (id : Nat) (mode : Option FormatMode) :
    Keeps c (c.hxClogSetSinkFormatMode id mode).1 := by
  cases mode with
  | none => exact ⟨hs, hc, rfl, rfl⟩
  | some m =>
    exact ⟨Core.run_slotted hs (.setSinkFormatMode id (some m)), Core.run_counted hc hs (.setSinkFormatMode id (some m)),
      changeOverride_created id _, changeOverride_key hs id _ fun _ => rfl⟩

theorem emit_keeps (hs : c.Slotted 0) (hc : c.Counted) (l : Line) : Keeps c (c.hxCoreEmitToSinks l) := by
  rw [Core.emit_written]
  exact ⟨hs.congr rfl rfl rfl, hc.congr rfl rfl, rfl, rfl⟩

theorem flushSinks_keeps (hs : c.Slotted 0) (hc : c.Counted) : Keeps c c.hxCoreFlushSinks :=
  ⟨hs.congr rfl rfl rfl, hc.congr rfl rfl, rfl, rfl⟩

/-! ## The account -/

/-- The sinks are those the run began with, up to their formats. -/
structure Accounted (c₀ : Core) (u : Underway cap) : Prop where
  few : c₀.created < 2 ^ 32 - 1
  keeps : Keeps c₀ u.core
  levels : ∀ r, u.inFlight r → u.records[r.record]? = some r.line.level
  collects : ∀ n th e rec, Dispatching.collect n th e rec ∈ u.threads → u.records[n]? = some rec.level
  numbers : ∀ p ∈ u.received, p.2 < u.records.length
  passed : ∀ s ∈ c₀.table.live, ∀ n level, u.records[n]? = some level → s.minLevel ≤ level →
    u.received.count (s.obj, n) + u.owed s.id n = 1
  refused : ∀ s ∈ c₀.table.live, ∀ n level, u.records[n]? = some level → level < s.minLevel →
    u.received.count (s.obj, n) = 0

section
variable {c₀ : Core} {u : Underway cap}

theorem Accounted.distinct (ha : Accounted c₀ u) : (u.core.table.live.map Sink.id).Nodup :=
  ha.keeps.slotted.distinct (by rw [ha.keeps.created]; exact ha.few)

theorem Accounted.ids (ha : Accounted c₀ u) : ∀ s ∈ u.core.table.live, 0 < s.id := fun s hs =>
  (ha.keeps.slotted.ids (by rw [ha.keeps.created]; exact ha.few) s hs).1

/-- The sink of the beginning as it is now. -/
theorem Accounted.now (ha : Accounted c₀ u) {s : Sink} (hs : s ∈ c₀.table.live) :
    ∃ s' ∈ u.core.table.live, s'.obj = s.obj ∧ s'.id = s.id ∧ s'.minLevel = s.minLevel := by
  have hkey : s.key ∈ u.core.table.live.map Sink.key := ha.keeps.keys ▸ List.mem_map_of_mem hs
  obtain ⟨s', hs', he⟩ := List.mem_map.mp hkey
  simp only [Sink.key, Prod.mk.injEq] at he
  exact ⟨s', hs', he.1, he.2.1, he.2.2⟩

/-- A step that moves lines on and emits none. -/
theorem Accounted.move (ha : Accounted c₀ u) {u' : Underway cap} (hk : Keeps c₀ u'.core) (hr : u'.records = u.records)
    (hrec : u'.received = u.received) (hl : ∀ r, u'.inFlight r → u'.records[r.record]? = some r.line.level)
    (hcol : ∀ n th e rec, Dispatching.collect n th e rec ∈ u'.threads → Dispatching.collect n th e rec ∈ u.threads)
    (howed : ∀ s ∈ c₀.table.live, ∀ n, u'.owed s.id n = u.owed s.id n) : Accounted c₀ u' := by
  refine ⟨ha.few, hk, hl, ?_, ?_, ?_, ?_⟩
  · intro n th e rec hm
    rw [hr]
    exact ha.collects n th e rec (hcol n th e rec hm)
  · rw [hrec, hr]
    exact ha.numbers
  · intro s hs n level hn hp
    rw [hr] at hn
    rw [hrec, howed s hs]
    exact ha.passed s hs n level hn hp
  · intro s hs n level hn hp
    rw [hr] at hn
    rw [hrec]
    exact ha.refused s hs n level hn hp

/-- Nothing is owed of a record that is not there yet. -/
theorem Accounted.fresh (ha : Accounted c₀ u) (id : Nat) : u.owed id u.records.length = 0 := by
  have hold (r : Routed) (h : u.inFlight r) : r.record ≠ u.records.length :=
    Nat.ne_of_lt (List.getElem?_eq_some_iff.mp (ha.levels r h)).1
  have hthreads : (u.threads.map (Dispatching.owes id u.records.length)).sum = 0 := by
    refine List.sum_eq_zero fun x hx => ?_
    obtain ⟨d, hd, rfl⟩ := List.mem_map.mp hx
    cases d with
    | collect n th e rec =>
      have hlt := (List.getElem?_eq_some_iff.mp (ha.collects n th e rec hd)).1
      exact if_neg (Nat.ne_of_lt hlt)
    | send ls => exact owedLines_none fun r hr => hold r (.inr (.inr ⟨_, hd, hr⟩))
  unfold Underway.owed
  rw [hthreads, owedLines_none fun r hr => hold r (.inl hr), owedLines_none fun r hr => hold r (.inr (.inl hr))]

/-- A record is taken up, and owed to every sink once. -/
theorem Accounted.open (ha : Accounted c₀ u) {i : Nat} (hi : u.threads[i]? = some (.send [])) {d : Dispatching}
    {level : Level} (howes : ∀ s ∈ c₀.table.live, ∀ n, d.owes s.id n = if u.records.length = n then 1 else 0)
    (hlines : ∀ r ∈ d.lines, r.record = u.records.length ∧ r.line.level = level)
    (hcol : ∀ n th e rec, d = .collect n th e rec → n = u.records.length ∧ rec.level = level) :
    Accounted c₀ ({ u with records := u.records ++ [level] }.goto i d) := by
  have hnew : (u.records ++ [level])[u.records.length]? = some level := by simp
  have hold {n : Nat} {l : Level} (h : u.records[n]? = some l) : (u.records ++ [level])[n]? = some l := by
    rw [List.getElem?_append_left (List.getElem?_eq_some_iff.mp h).1]
    exact h
  have hback {n : Nat} {l : Level} (h : (u.records ++ [level])[n]? = some l) (hne : u.records.length ≠ n) :
      u.records[n]? = some l := by
    have hlen : (u.records ++ [level]).length = u.records.length + 1 := by simp
    have hlt := (List.getElem?_eq_some_iff.mp h).1
    rw [List.getElem?_append_left (by omega)] at h
    exact h
  have howed (s : Sink) (hs : s ∈ c₀.table.live) (n : Nat) :
      ({ u with records := u.records ++ [level] }.goto i d).owed s.id n =
        u.owed s.id n + if u.records.length = n then 1 else 0 := by
    have h := goto_owed (u := { u with records := u.records ++ [level] }) hi d s.id n
    rw [howes s hs n] at h
    exact h
  have hnone (s : Sink) : u.received.count (s.obj, u.records.length) = 0 :=
    List.count_eq_zero.mpr fun hm => Nat.lt_irrefl _ (ha.numbers _ hm)
  refine ⟨ha.few, ha.keeps, fun r hr => ?_, fun n th e rec hm => ?_, fun p hp => ?_, fun s hs n l hn hp => ?_,
    fun s hs n l hn hp => ?_⟩
  · rcases goto_inFlight hr with hr | hr
    · exact hold (ha.levels r hr)
    · obtain ⟨hn, hl⟩ := hlines r hr
      rw [hn, hl]
      exact hnew
  · rcases List.mem_or_eq_of_mem_set hm with hm | he
    · exact hold (ha.collects n th e rec hm)
    · obtain ⟨rfl, rfl⟩ := hcol n th e rec he.symm
      exact hnew
  · show p.2 < (u.records ++ [level]).length
    rw [List.length_append]
    exact Nat.lt_add_right _ (ha.numbers p hp)
  · rw [howed s hs]
    by_cases he : u.records.length = n
    · subst he
      rw [ha.fresh, if_pos rfl]
      exact congrArg (· + 1) (hnone s)
    · rw [if_neg he]
      exact ha.passed s hs n l (hback hn he) hp
  · by_cases he : u.records.length = n
    · subst he
      exact hnone s
    · refine ha.refused s hs n l ?_ hp
      obtain ⟨hlt, hget⟩ := List.getElem?_eq_some_iff.mp hn
      have hlt' : n < u.records.length := by
        have hlen : (u.records ++ [level]).length = u.records.length + 1 := by simp
        have hlt : n < (u.records ++ [level]).length := hlt
        omega
      exact (List.getElem?_append_left hlt').symm.trans hn

/-- A thread's lines for a record, routed now, are one for each sink. -/
theorem Accounted.routes (ha : Accounted c₀ u) {ovs : List OverrideSnap} {b : Bool}
    (hovs : ovs = (u.core.table.live.filter Sink.overrideSet).map Sink.override)
    (hdefault : b = false → ∀ s ∈ u.core.table.live, s.overrideSet = true) (th : FmtCache) (e : Renderer) (rec : Record)
    (m : Nat) {s : Sink} (hs : s ∈ c₀.table.live) (n : Nat) :
    (Dispatching.send (u.core.routed m (dispatchLines th e rec ovs b))).owes s.id n = if m = n then 1 else 0 := by
  obtain ⟨s', hs', -, hid, -⟩ := ha.now hs
  obtain ⟨k, l, hl, -⟩ := Core.lines_routed ha.ids ha.distinct hovs hdefault th e rec hs'
  rw [← hid]
  exact routed_owed ha.distinct hs' m n hl

theorem routed_level (th : FmtCache) (e : Renderer) (rec : Record) (ovs : List OverrideSnap) (b : Bool) (m : Nat) :
    ∀ r ∈ (Dispatching.send (c.routed m (dispatchLines th e rec ovs b))).lines, r.record = m ∧ r.line.level = rec.level := by
  intro r hr
  obtain ⟨hn, hline⟩ := routed_mem hr
  exact ⟨hn, Core.dispatchLines_level th e rec ovs b _ hline⟩

theorem Accounted.dispatch (ha : Accounted c₀ u) {i : Nat} (hi : u.threads[i]? = some (.send [])) (th : FmtCache)
    (e : Renderer) (rec : Record) : Accounted c₀ (u.dispatch i th e rec) := by
  unfold Underway.dispatch
  simp only
  split
  · refine ha.open hi (fun s _ n => rfl) (fun r hr => by cases hr) fun n th' e' rec' he => ?_
    cases he
    exact ⟨rfl, rfl⟩
  · rename_i hzero
    have hovs : ([] : List OverrideSnap) = (u.core.table.live.filter Sink.overrideSet).map Sink.override := by
      rw [ha.keeps.counted.none hzero]
      rfl
    refine ha.open hi (fun s hs n => ?_) (routed_level _ _ _ _ _ _) fun n th' e' rec' he => by cases he
    exact ha.routes hovs (fun hf => by cases hf) _ e rec _ hs n

theorem Accounted.collect (ha : Accounted c₀ u) {i m : Nat} {th : FmtCache} {e : Renderer} {rec : Record}
    (hi : u.threads[i]? = some (.collect m th e rec)) :
    Accounted c₀ (u.goto i (.send (u.core.routed m
      (dispatchLines th e rec u.core.collectLocked.1 u.core.collectLocked.2)))) := by
  obtain ⟨hovs, hdefault⟩ := Core.collectLocked_eq ha.keeps.slotted
  refine ha.move ha.keeps rfl rfl (fun r hr => ?_) (fun n th' e' rec' hm => ?_) fun s hs n => ?_
  · rcases goto_inFlight hr with hr | hr
    · exact ha.levels r hr
    · obtain ⟨hn, hl⟩ := routed_level _ _ _ _ _ _ r hr
      show u.records[r.record]? = some r.line.level
      rw [hn, hl]
      exact ha.collects m th e rec (List.mem_of_getElem? hi)
  · rcases List.mem_or_eq_of_mem_set hm with hm | he
    · exact hm
    · cases he
  · have h := goto_owed hi (.send (u.core.routed m
      (dispatchLines th e rec u.core.collectLocked.1 u.core.collectLocked.2))) s.id n
    rw [ha.routes hovs hdefault th e rec m hs n] at h
    exact Nat.add_right_cancel h

theorem Accounted.enqueue (ha : Accounted c₀ u) {i : Nat} {r : Routed} {rest : List Routed} {queue : Fifo.Queue Routed cap}
    (hi : u.threads[i]? = some (.send (r :: rest))) (hq : Fifo.step u.queue (.push r) = some queue) :
    Accounted c₀ { u.goto i (.send rest) with queue := queue } := by
  have hitems : u.queue.items ++ [r] = queue.items := Fifo.step_conserves hq
  have hmine : ∀ r' ∈ r :: rest, u.inFlight r' := fun r' h => .inr (.inr ⟨_, List.mem_of_getElem? hi, h⟩)
  refine ha.move ha.keeps rfl rfl (fun r' hr => ha.levels r' ?_) (fun n th e rec hm => ?_) fun s _ n => ?_
  · rcases hr with hr | hr | ⟨d, hd, hr⟩
    · exact .inl hr
    · rcases List.mem_append.mp (hitems ▸ hr) with hr | hr
      · exact .inr (.inl hr)
      · exact hmine r' (List.mem_singleton.mp hr ▸ List.mem_cons_self)
    · rcases List.mem_or_eq_of_mem_set hd with hd | rfl
      · exact .inr (.inr ⟨d, hd, hr⟩)
      · exact hmine r' (List.mem_cons_of_mem _ hr)
  · rcases List.mem_or_eq_of_mem_set hm with hm | he
    · exact hm
    · cases he
  · have hsum := Pool.sum_set (Dispatching.owes s.id n) (Dispatching.send rest) hi
    have hcons : (Dispatching.send (r :: rest)).owes s.id n = owedLines s.id n [r] + owedLines s.id n rest :=
      owedLines_cons s.id n r rest
    have hqueue : owedLines s.id n queue.items = owedLines s.id n u.queue.items + owedLines s.id n [r] := by
      rw [← hitems, owedLines_append]
    rw [hcons] at hsum
    unfold Underway.owed
    show owedLines s.id n u.hand.toList + owedLines s.id n queue.items +
      ((u.threads.set i (.send rest)).map (Dispatching.owes s.id n)).sum = _
    have hsend : (Dispatching.send rest).owes s.id n = owedLines s.id n rest := rfl
    omega

theorem Accounted.pop (ha : Accounted c₀ u) {r : Routed} {queue : Fifo.Queue Routed cap} (hh : u.hand = none)
    (hq : Fifo.step u.queue (.leave r .taken) = some queue) : Accounted c₀ { u with queue := queue, hand := some r } := by
  have hitems : u.queue.items = r :: queue.items := (List.append_nil _).symm.trans (Fifo.step_conserves hq)
  refine ha.move ha.keeps rfl rfl (fun r' hr => ha.levels r' ?_) (fun n th e rec hm => hm) fun s _ n => ?_
  · rcases hr with hr | hr | hr
    · refine .inr (.inl ?_)
      rw [hitems, List.mem_singleton.mp hr]
      exact List.mem_cons_self
    · refine .inr (.inl ?_)
      rw [hitems]
      exact List.mem_cons_of_mem _ hr
    · exact .inr (.inr hr)
  · unfold Underway.owed
    rw [hh, hitems, owedLines_cons]
    simp only [Option.toList_some, Option.toList_none]
    have hnil : owedLines s.id n [] = 0 := rfl
    omega

/-- Setting and clearing formats, and flushing. -/
theorem Accounted.keep (ha : Accounted c₀ u) {c : Core} (h : Keeps u.core c) : Accounted c₀ { u with core := c } :=
  ha.move ⟨h.slotted, h.counted, h.created.trans ha.keeps.created, h.keys.trans ha.keeps.keys⟩ rfl rfl
    (fun r hr => ha.levels r hr) (fun _ _ _ _ hm => hm) fun _ _ _ => rfl

/-! ## Emitting -/

/-- What a line that is emitted pays to a sink. -/
theorem emitted_count {l : List Sink} (hnd : (l.map Sink.obj).Nodup) (p q : Sink → Bool) (m n : Nat) {s : Sink} (hs : s ∈ l) :
    (((l.filter p).filter q).map fun s => (s.obj, m)).count (s.obj, n) = if (p s = true ∧ q s = true) ∧ m = n then 1 else 0 := by
  have hsub : (((l.filter p).filter q).map Sink.obj).Nodup :=
    hnd.sublist ((List.filter_sublist.trans List.filter_sublist).map _)
  have hpairs : (((l.filter p).filter q).map fun s => (s.obj, m)).Nodup := by
    refine List.Nodup.of_map Prod.fst ?_
    rw [List.map_map]
    exact hsub
  rw [hpairs.count]
  refine if_congr ?_ rfl rfl
  simp only [List.mem_map, List.mem_filter, Prod.mk.injEq]
  constructor
  · rintro ⟨s', ⟨⟨hs', hp⟩, hq⟩, hobj, hm⟩
    obtain rfl := List.inj_on_of_nodup_map hnd hs' hs hobj
    exact ⟨⟨hp, hq⟩, hm⟩
  · rintro ⟨⟨hp, hq⟩, hm⟩
    exact ⟨s, ⟨⟨hs, hp⟩, hq⟩, rfl, hm⟩

/-- A line that is emitted in time goes where it was meant to. -/
theorem settled_due {r : Routed} (hh : u.hand = some r) (hok : u.settled .emit = true) {s : Sink}
    (hs : s ∈ u.core.table.live) (hp : s.minLevel ≤ r.line.level) : r.due s.id = Core.routes r.line.target s := by
  unfold Underway.settled at hok
  rw [hh] at hok
  have hall := List.all_eq_true.mp hok s hs
  unfold Routed.due Core.routes
  by_cases ht : r.line.target = 0
  · simp only [ht, hp, decide_true, Bool.and_true, Bool.not_true, Bool.false_or, beq_iff_eq] at hall
    rw [if_pos ht, if_pos ht, hall]
  · rw [if_neg ht, if_neg ht]
    exact decide_eq_decide.mpr eq_comm

theorem emit_received (hnd : (u.core.table.live.map Sink.obj).Nodup) (r : Routed) {s : Sink}
    (hs : s ∈ u.core.table.live) (n : Nat) : (u.emit r).received.count (s.obj, n) = u.received.count (s.obj, n) +
      if (Core.routes r.line.target s = true ∧ s.minLevel ≤ r.line.level) ∧ r.record = n then 1 else 0 := by
  unfold Underway.emit
  rw [List.count_append, emitted_count hnd _ _ _ _ hs]
  simp only [decide_eq_true_eq]

/-- What is counted as received is what is written. -/
theorem received_written (hnd : (u.core.table.live.map Sink.obj).Nodup) (r : Routed) : ∃ ops,
    (u.emit r).core.ops = u.core.ops ++ ops ∧ ∀ s ∈ u.core.table.live, ∀ n,
      (u.emit r).received.count (s.obj, n) =
        u.received.count (s.obj, n) + if r.record = n then (Core.writesTo s.obj ops).length else 0 := by
  refine ⟨Core.emitOps u.core.table r.line, ?_, fun s hs n => ?_⟩
  · show (u.core.hxCoreEmitToSinks r.line).ops = _
    rw [Core.emit_written]
    rfl
  · have hline := Core.writesTo_line (Core.routes r.line.target) r.line.level r.line.bytes u.core.table.live hnd s hs
    unfold Core.emitOps
    rw [emit_received hnd r hs n, hline, apply_ite List.length]
    by_cases hn : r.record = n
    · simp only [hn, and_true, if_true, List.length_singleton, List.length_nil]
    · simp only [hn, and_false, if_false]

theorem Accounted.emit (ha : Accounted c₀ u) {r : Routed} (hh : u.hand = some r) (hok : u.settled .emit = true) :
    Accounted c₀ (u.emit r) := by
  have hlevel : u.records[r.record]? = some r.line.level := ha.levels r (.inl (by rw [hh]; exact List.mem_singleton_self r))
  have hkeep := emit_keeps ha.keeps.slotted ha.keeps.counted r.line
  have howed (id n : Nat) : u.owed id n = (u.emit r).owed id n + owedLines id n [r] := by
    unfold Underway.owed Underway.emit
    rw [hh]
    simp only [Option.toList_some, Option.toList_none]
    have hnil : owedLines id n [] = 0 := rfl
    omega
  have hreceived {s : Sink} (hs : s ∈ u.core.table.live) (n : Nat) := emit_received ha.keeps.slotted.objs r hs n
  refine ⟨ha.few, ⟨hkeep.slotted, hkeep.counted, hkeep.created.trans ha.keeps.created, hkeep.keys.trans ha.keeps.keys⟩,
    fun r' hr => ha.levels r' ?_, fun n th e rec hm => ha.collects n th e rec hm, fun p hp => ?_,
    fun s hs n level hn hp => ?_, fun s hs n level hn hp => ?_⟩
  · rcases hr with hr | hr | hr
    · cases hr
    · exact .inr (.inl hr)
    · exact .inr (.inr hr)
  · rcases List.mem_append.mp hp with hp | hp
    · exact ha.numbers p hp
    · obtain ⟨s, -, rfl⟩ := List.mem_map.mp hp
      exact (List.getElem?_eq_some_iff.mp hlevel).1
  · obtain ⟨s', hs', hobj, hid, hmin⟩ := ha.now hs
    have hbefore := ha.passed s hs n level hn hp
    rw [howed] at hbefore
    rw [← hobj, hreceived hs', hobj]
    have hpay : owedLines s.id n [r] =
        if (Core.routes r.line.target s' = true ∧ s'.minLevel ≤ r.line.level) ∧ r.record = n then 1 else 0 := by
      by_cases hrecord : r.record = n
      · have hl : r.line.level = level := Option.some.inj (hlevel.symm.trans (hrecord ▸ hn))
        have hpass : s'.minLevel ≤ r.line.level := by rw [hl, hmin]; exact hp
        have hdue := settled_due hh hok hs' hpass
        rw [hid] at hdue
        simp [owedLines, hrecord, hdue, hpass]
      · simp [owedLines, hrecord]
    omega
  · obtain ⟨s', hs', hobj, hid, hmin⟩ := ha.now hs
    rw [← hobj, hreceived hs', hobj, ha.refused s hs n level hn hp, Nat.zero_add]
    refine if_neg ?_
    rintro ⟨⟨-, hpass⟩, rfl⟩
    have hl : r.line.level = level := Option.some.inj (hlevel.symm.trans hn)
    rw [hl, hmin] at hpass
    exact absurd hp (Int.not_lt.mpr hpass)

/-! ## Runs -/

theorem accounted_step {u' : Underway cap} {a : Traffic} (ha : Accounted c₀ u) (hok : u.settled a = true)
    (h : u.step a = some u') : Accounted c₀ u' := by
  cases a with
  | dispatch i th e rec =>
    simp only [Underway.step] at h
    split at h
    · rename_i hi
      cases h
      exact ha.dispatch hi th e rec
    · cases h
  | collect i =>
    simp only [Underway.step] at h
    split at h
    · rename_i hi
      cases h
      exact ha.collect hi
    · cases h
  | enqueue i =>
    simp only [Underway.step] at h
    split at h
    · rename_i hi
      obtain ⟨queue, hq, rfl⟩ := Option.map_eq_some_iff.mp h
      exact ha.enqueue hi hq
    · cases h
  | pop =>
    simp only [Underway.step] at h
    split at h
    · rename_i hh hitems
      obtain ⟨queue, hq, rfl⟩ := Option.map_eq_some_iff.mp h
      exact ha.pop hh hq
    · cases h
  | emit =>
    obtain ⟨r, hh, rfl⟩ := Option.map_eq_some_iff.mp h
    exact ha.emit hh hok
  | flushSinks =>
    cases h
    exact ha.keep (flushSinks_keeps ha.keeps.slotted ha.keeps.counted)
  | setSinkPattern id pattern =>
    cases h
    exact ha.keep (setSinkPattern_keeps ha.keeps.slotted ha.keeps.counted id pattern)
  | setSinkFormatMode id mode =>
    cases h
    exact ha.keep (setSinkFormatMode_keeps ha.keeps.slotted ha.keeps.counted id mode)

theorem accounted_start {c : Core} (hs : c.Slotted 0) (hc : c.Counted) (hfew : c.created < 2 ^ 32 - 1) (threads : Nat) :
    Accounted c (Underway.start cap c threads) := by
  have hidle : ∀ d ∈ (Underway.start cap c threads).threads, d = .send [] := fun d hd => List.eq_of_mem_replicate hd
  refine ⟨hfew, ⟨hs, hc, rfl, rfl⟩, fun r hr => ?_, fun n th e rec hm => ?_, fun p hp => ?_, fun s _ n level hn => ?_,
    fun s _ n level hn => ?_⟩
  · rcases hr with hr | hr | ⟨d, hd, hr⟩
    · cases hr
    · cases hr
    · rw [hidle d hd] at hr
      cases hr
  · cases hidle _ hm
  · cases hp
  · cases hn
  · cases hn

/-- Nothing is owed any more once everything is drained. -/
theorem Underway.Drained.owed (hd : u.Drained) (id n : Nat) : u.owed id n = 0 := by
  have hthreads : (u.threads.map (Dispatching.owes id n)).sum = 0 := by
    refine List.sum_eq_zero fun x hx => ?_
    obtain ⟨d, hmem, rfl⟩ := List.mem_map.mp hx
    rw [hd.threads d hmem]
    rfl
  unfold Underway.owed
  rw [hthreads, hd.queue, hd.hand]
  rfl

end

end

/-- Every record reaches every sink that it passes once, whatever formats are set and
cleared meanwhile, in every run in which a default line finds the sinks that take it
with or without a format as they were when its record was routed. -/
theorem toggles_keep_records {calls : List Call} {cap threads : Nat} {as : List Traffic} {u : Underway cap}
    (hfew : (runCalls coreOnceInit calls).created < 2 ^ 32 - 1)
    (h : Transition.run (Transition.restrict Underway.settled Underway.step)
      (Underway.start cap (runCalls coreOnceInit calls) threads) as = some u) (hd : u.Drained) :
    ∀ s ∈ (runCalls coreOnceInit calls).table.live, ∀ n level, u.records[n]? = some level →
      u.received.count (s.obj, n) = if s.minLevel ≤ level then 1 else 0 := by
  obtain ⟨hs, hc⟩ := Core.reachable_sound calls Core.start_slotted (show coreOnceInit.Counted from rfl)
  have ha := Transition.run_invariant (I := Accounted (runCalls coreOnceInit calls)) (fun u a u' ha hst => by
    obtain ⟨hok, hstep⟩ := Transition.restrict_some hst
    exact accounted_step ha hok hstep) as _ u (accounted_start hs hc hfew threads) h
  intro s hmem n level hn
  by_cases hp : s.minLevel ≤ level
  · rw [if_pos hp]
    have hone := ha.passed s hmem n level hn hp
    rw [hd.owed, Nat.add_zero] at hone
    exact hone
  · rw [if_neg hp]
    exact ha.refused s hmem n level hn (Int.not_le.mp hp)

/-! ## Runs of one record -/

/-- The message alone. -/
def messagePattern : CStr := ⟨[37, 118], by decide⟩

def queueConfig : Config := { bareConfig with mode := .async, pattern := some messagePattern }

/-- A record is rendered into a buffer of zeros. -/
def zeroRenderer : Renderer := ⟨fun _ => midnight, none, fun _ => noHeap, fun _ => List.replicate 1280 0⟩

def emptyCache : FmtCache := ⟨0, .empty, .empty, .pattern, none⟩

/-- Callback sinks; those with an id in `own` have a format of their own. -/
def callbacks (n : Nat) (own : List Nat) : List Call :=
  .init (some queueConfig) {} :: List.replicate n (.addSink .callback true) ++
    own.map fun id => .setSinkPattern id (some messagePattern)

def enter : Traffic := .dispatch 0 emptyCache zeroRenderer shortRecord

/-- A format is set once the record has arrived. -/
def setBehind : List Traffic := [enter, .enqueue 0, .pop, .emit, .setSinkFormatMode 1 (some .json)]

/-- A format is set while the record is queued. -/
def setMeanwhile : List Traffic := [enter, .enqueue 0, .setSinkFormatMode 1 (some .json), .pop, .emit]

/-- A format is cleared while both lines of the record are queued. -/
def clearedMeanwhile : List Traffic :=
  [enter, .collect 0, .enqueue 0, .enqueue 0, .setSinkPattern 1 none, .pop, .emit, .pop, .emit]

theorem toggles_keep_records_behind : ∃ u,
    Transition.run (Transition.restrict Underway.settled Underway.step)
      (Underway.start 4 (runCalls coreOnceInit (callbacks 1 [])) 1) setBehind = some u ∧
    ∀ s ∈ (runCalls coreOnceInit (callbacks 1 [])).table.live, ∀ n level, u.records[n]? = some level →
      u.received.count (s.obj, n) = if s.minLevel ≤ level then 1 else 0 :=
  ⟨_, rfl, @toggles_keep_records (callbacks 1 []) 4 1 setBehind _ (by decide) rfl
    ⟨fun _ hd => List.mem_singleton.mp hd, rfl, rfl⟩⟩

/-- The record reaches the sink not at all, or twice. -/
theorem toggles_lose_and_duplicate :
    (∃ u, Transition.run Underway.step (Underway.start 4 (runCalls coreOnceInit (callbacks 1 [])) 1) setMeanwhile = some u ∧
      u.Drained ∧ u.records = [2] ∧ (u.core.table.live.map fun s => (s.obj, s.minLevel)) = [(0, 0)] ∧
      u.received.count (0, 0) = 0) ∧
    ∃ u, Transition.run Underway.step (Underway.start 4 (runCalls coreOnceInit (callbacks 2 [1])) 1) clearedMeanwhile =
        some u ∧
      u.Drained ∧ u.records = [2] ∧ (u.core.table.live.map fun s => (s.obj, s.minLevel)) = [(0, 0), (1, 0)] ∧
      u.received.count (0, 0) = 2 :=
  ⟨⟨_, rfl, ⟨fun _ hd => List.mem_singleton.mp hd, rfl, rfl⟩, rfl, rfl, rfl⟩,
    ⟨_, rfl, ⟨fun _ hd => List.mem_singleton.mp hd, rfl, rfl⟩, rfl, rfl, rfl⟩⟩

end HxClog
