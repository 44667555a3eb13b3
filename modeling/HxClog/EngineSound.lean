import HxClog.Engine

/-!
# The ring of slots is a list of lines

`AsyncEngine.WF` ties the four indices, the slot array and the buffer sizes
together. Each section of the engine keeps it, and acts on `queued` the way its
name says: storing appends, popping and evicting take the oldest line.
-/

namespace HxClog

open C

/-! ## Buffer capacities -/

/-- Capacities only ever come from doubling 256. -/
def CapOk (c : Nat) : Prop := c = 0 ∨ ∃ k, k ≤ 23 ∧ c = 256 * 2 ^ k

theorem CapOk.zero : CapOk 0 := Or.inl rfl

theorem CapOk.lt {c : Nat} (h : CapOk c) : c < 2 ^ 32 := by
  rcases h with rfl | ⟨k, hk, rfl⟩
  · decide
  · have : 2 ^ k ≤ 2 ^ 23 := Nat.pow_le_pow_right (by decide) hk
    omega

/-- The first capacity the doubling loops try. -/
theorem CapOk.start {c : Nat} (h : CapOk c) : ∃ k, k ≤ 23 ∧ (if c = 0 then 256 else c) = 256 * 2 ^ k := by
  rcases h with rfl | ⟨k, hk, rfl⟩
  · exact ⟨0, by decide, rfl⟩
  · refine ⟨k, hk, if_neg ?_⟩
    have : 0 < 2 ^ k := Nat.two_pow_pos k
    omega

theorem doubleUntil_zero {need : Nat} (hn : need ≠ 0) : ∀ fuel, doubleUntil need fuel 0 = none
  | 0 => if_neg (by omega)
  | fuel + 1 => by
    unfold doubleUntil
    rw [if_neg (by omega)]
    exact doubleUntil_zero hn fuel

theorem doubleUntil_capOk {need : Nat} (hn : need ≠ 0) : ∀ {fuel c r : Nat}, CapOk c →
    doubleUntil need fuel c = some r → CapOk r
  | 0, c, r, hc, h => by
    unfold doubleUntil at h
    split at h
    · cases h; exact hc
    · cases h
  | fuel + 1, c, r, hc, h => by
    unfold doubleUntil at h
    split at h
    · cases h; exact hc
    · rcases hc with rfl | ⟨k, hk, rfl⟩
      · rw [show u32 (0 * 2) = 0 from rfl, doubleUntil_zero hn] at h; cases h
      · rw [show 256 * 2 ^ k * 2 = 256 * 2 ^ (k + 1) by rw [Nat.pow_succ, Nat.mul_assoc]] at h
        rcases Nat.lt_or_ge k 23 with hlt | hge
        · have hl : 2 ^ (k + 1) ≤ 2 ^ 23 := Nat.pow_le_pow_right (by decide) hlt
          rw [u32_of_lt (by omega)] at h
          exact doubleUntil_capOk hn (Or.inr ⟨k + 1, hlt, rfl⟩) h
        · -- the last bit is shifted out
          have : k = 23 := by omega
          subst this
          rw [show u32 (256 * 2 ^ (23 + 1)) = 0 from rfl, doubleUntil_zero hn] at h; cases h

/-- Below `2 ^ 31` bytes the doubling loop ends. -/
theorem doubleUntil_isSome {need c : Nat} (hc : CapOk c) (hn : need ≤ 2 ^ 31) :
    (doubleUntil need 32 (if c = 0 then 256 else c)).isSome := by
  obtain ⟨k, hk, he⟩ := hc.start
  obtain ⟨k', _, _, h⟩ := doubleUntil_pow (a := 256) (m := 23) (by decide) hn 32 k hk (by omega)
  rw [he, h]
  rfl

/-! ## Well-formed engines -/

/-- A slot's buffer is within its block. -/
structure AsyncSlot.Ok (s : AsyncSlot) : Prop where
  cap : CapOk s.cap
  data : s.data.length ≤ s.cap

/-- A queued slot holds its whole line, with room for a terminator. -/
structure AsyncSlot.Full (s : AsyncSlot) : Prop where
  len : s.len ≤ s.data.length
  short : s.len < 2 ^ 31

structure AsyncEngine.WF (e : AsyncEngine) : Prop where
  slots : e.slots.length = e.capacity
  pos : 0 < e.capacity
  small : e.capacity < 2 ^ 32
  head : e.head < e.capacity
  count : e.count ≤ e.capacity
  tail : e.tail = (e.head + e.count) % e.capacity
  batch : 0 < e.batchSize
  ok : ∀ s ∈ e.slots, s.Ok
  full : ∀ s ∈ Ring.contents e.slots e.capacity e.head e.count, s.Full
  scratchCap : CapOk e.scratchCap
  scratch : e.scratch.length ≤ e.scratchCap

/-- The fields that only start, stop and flush change. -/
structure SameControl (e e' : AsyncEngine) : Prop where
  capacity : e'.capacity = e.capacity
  batchSize : e'.batchSize = e.batchSize
  overflow : e'.overflow = e.overflow
  running : e'.running = e.running
  stop : e'.stop = e.stop
  flushRequest : e'.flushRequest = e.flushRequest

theorem SameControl.refl (e : AsyncEngine) : SameControl e e := ⟨rfl, rfl, rfl, rfl, rfl, rfl⟩

theorem SameControl.trans {e₁ e₂ e₃ : AsyncEngine} (h : SameControl e₁ e₂) (h' : SameControl e₂ e₃) :
    SameControl e₁ e₃ :=
  ⟨h'.capacity.trans h.capacity, h'.batchSize.trans h.batchSize, h'.overflow.trans h.overflow,
    h'.running.trans h.running, h'.stop.trans h.stop, h'.flushRequest.trans h.flushRequest⟩

theorem AsyncEngine.queued_length {e : AsyncEngine} (h : e.WF) : e.queued.length = e.count := by
  unfold AsyncEngine.queued
  rw [List.length_map, Ring.contents_length h.slots h.pos]

theorem hxAsyncStart_wf (cfg : AsyncConfig) : (hxAsyncStart cfg).WF := by
  have hpos : 0 < (hxAsyncStart cfg).capacity := by
    unfold hxAsyncStart
    simp only
    split
    · decide
    · rename_i h
      rcases Nat.eq_zero_or_pos cfg.asyncQueueSize.toNat with h0 | h0
      · exact absurd (UInt32.toNat_inj.mp (by simpa using h0)) h
      · exact h0
  have hbatch : 0 < (hxAsyncStart cfg).batchSize := by
    unfold hxAsyncStart
    simp only
    split
    · decide
    · rename_i h
      rcases Nat.eq_zero_or_pos cfg.asyncBatchSize.toNat with h0 | h0
      · exact absurd (UInt32.toNat_inj.mp (by simpa using h0)) h
      · exact h0
  refine ⟨List.length_replicate, hpos, ?_, hpos, Nat.zero_le _, ?_, hbatch, ?_, ?_, CapOk.zero, Nat.le_refl _⟩
  · unfold hxAsyncStart
    simp only
    split
    · decide
    · exact cfg.asyncQueueSize.toNat_lt
  · exact (Nat.zero_mod _).symm
  · intro s hs
    rw [show s = {} from List.eq_of_mem_replicate hs]
    exact ⟨CapOk.zero, Nat.le_refl _⟩
  · intro s hs
    rw [show (hxAsyncStart cfg).count = 0 from rfl, Ring.contents_zero] at hs
    cases hs

@[simp] theorem hxAsyncStart_queued (cfg : AsyncConfig) : (hxAsyncStart cfg).queued = [] := rfl

/-! ## Storing -/

theorem slotShrink_ok {s : AsyncSlot} (h : s.Ok) (size : Nat) : (slotShrink s size).Ok := by
  unfold slotShrink
  split
  · exact ⟨CapOk.zero, Nat.le_refl _⟩
  · exact h

theorem slotGrow_ok {s s' : AsyncSlot} {size : Nat} {alloc ok : Bool} (h : s.Ok)
    (hg : slotGrow s size alloc = some (s', ok)) :
    s'.Ok ∧ (ok = true → u32 (size + 1) ≤ s'.cap) ∧ (alloc = true → ok = true) := by
  unfold slotGrow at hg
  split at hg
  · rename_i hlt
    obtain ⟨nc, hd, he⟩ := Option.map_eq_some_iff.mp hg
    have hcap : CapOk (if s.cap = 0 then 256 else s.cap) := by
      obtain ⟨k, hk, hk'⟩ := h.cap.start
      exact Or.inr ⟨k, hk, hk'⟩
    cases alloc with
    | true =>
      simp only [if_true] at he
      cases he
      exact ⟨⟨doubleUntil_capOk (by omega) hcap hd, Nat.zero_le _⟩, fun _ => doubleUntil_ge hd, fun _ => rfl⟩
    | false =>
      simp only [Bool.false_eq_true, if_false] at he
      cases he
      exact ⟨h, (nomatch ·), (nomatch ·)⟩
  · rename_i hge
    cases hg
    exact ⟨h, fun _ => Nat.le_of_not_lt hge, fun _ => rfl⟩

theorem slotGrow_isSome {s : AsyncSlot} {size : Nat} (h : s.Ok) (hs : size < 2 ^ 31 - 1) (alloc : Bool) :
    (slotGrow s size alloc).isSome := by
  unfold slotGrow
  split
  · rw [Option.isSome_map]
    exact doubleUntil_isSome h.cap (by rw [u32_of_lt (by omega)]; omega)
  · rfl

/-- Replacing the tail slot keeps a well-formed engine with room well formed. -/
theorem wf_set_tail {e : AsyncEngine} (h : e.WF) (hc : e.count < e.capacity) {s : AsyncSlot} (hs : s.Ok) :
    ({ e with slots := e.slots.set e.tail s } : AsyncEngine).WF ∧
      ({ e with slots := e.slots.set e.tail s } : AsyncEngine).queued = e.queued := by
  have hcont : Ring.contents (e.slots.set e.tail s) e.capacity e.head e.count =
      Ring.contents e.slots e.capacity e.head e.count := by
    rw [h.tail]; exact Ring.contents_set hc s e.count (Nat.le_refl _)
  refine ⟨⟨?_, h.pos, h.small, h.head, h.count, h.tail, h.batch, ?_, ?_, h.scratchCap, h.scratch⟩, ?_⟩
  · rw [List.length_set]; exact h.slots
  · intro x hx
    rcases List.mem_or_eq_of_mem_set hx with hx | rfl
    · exact h.ok x hx
    · exact hs
  · rw [hcont]; exact h.full
  · unfold AsyncEngine.queued; rw [hcont]

/-- What `storeLine` does, by its two outcomes. -/
structure Stored (e e' : AsyncEngine) (l : Line) (stored : Bool) : Prop where
  wf : e'.WF
  same : SameControl e e'
  scratch : e'.scratch = e.scratch
  queued : e'.queued = if stored then e.queued ++ [l] else e.queued
  dropped : e'.dropped = if stored then e.dropped else e.dropped + 1

theorem storeLine_spec {e e' : AsyncEngine} {l : Line} {alloc stored report : Bool} (h : e.WF)
    (hc : e.count < e.capacity) (hs : storeLine e l alloc = some (e', stored, report)) :
    Stored e e' l stored ∧ (alloc = true → stored = true) := by
  unfold storeLine at hs
  simp only [Option.bind_eq_bind, Option.bind_eq_some_iff] at hs
  obtain ⟨slot, hslot, ⟨grown, ok⟩, hgrow, hs⟩ := hs
  obtain ⟨hok, hcap, halloc⟩ := slotGrow_ok (slotShrink_ok (h.ok slot (List.mem_of_getElem? hslot)) l.size) hgrow
  cases ok with
  | false =>
    simp only [Bool.false_eq_true, if_false, asyncCountDropLocked, Option.some.injEq, Prod.mk.injEq] at hs
    obtain ⟨rfl, rfl, rfl⟩ := hs
    obtain ⟨hw, hq⟩ := wf_set_tail h hc hok
    exact ⟨⟨⟨hw.slots, hw.pos, hw.small, hw.head, hw.count, hw.tail, hw.batch, hw.ok, hw.full, hw.scratchCap,
      hw.scratch⟩, ⟨rfl, rfl, rfl, rfl, rfl, rfl⟩, rfl, hq, rfl⟩, halloc⟩
  | true =>
    simp only [if_true, Option.bind_eq_some_iff] at hs
    obtain ⟨data, hcopy, hs⟩ := hs
    simp only [Option.some.injEq, Prod.mk.injEq] at hs
    obtain ⟨rfl, rfl, rfl⟩ := hs
    have hlen : l.size ≤ grown.cap := by
      unfold memcpy at hcopy; split at hcopy; assumption; cases hcopy
    have hlt := hok.cap.lt
    have hshort : l.size < 2 ^ 31 := by
      have hle : grown.cap ≤ 2 ^ 31 := by
        rcases hok.cap with h0 | ⟨k, hk, h0⟩
        · omega
        · have : 2 ^ k ≤ 2 ^ 23 := Nat.pow_le_pow_right (by decide) hk
          omega
      have := hcap rfl
      rw [u32_of_lt (by omega)] at this
      omega
    have htake : data.take l.size = l.bytes := by
      rw [memcpy_take hcopy (Nat.le_refl _)]; exact List.take_length
    have hdata : l.size ≤ data.length := by
      have := congrArg List.length htake
      rw [List.length_take] at this
      have : l.bytes.length = l.size := rfl
      omega
    have htail : u32 (e.tail + 1) % e.capacity = (e.head + (e.count + 1)) % e.capacity := by
      have := h.small
      have : e.tail < e.capacity := by rw [h.tail]; exact Nat.mod_lt _ h.pos
      rw [u32_of_lt (by omega)]
      exact Ring.tail_succ h.tail
    have hcont : ∀ s, Ring.contents (e.slots.set e.tail s) e.capacity e.head (e.count + 1) =
        Ring.contents e.slots e.capacity e.head e.count ++ [s] := by
      intro s; rw [h.tail]; exact Ring.contents_push h.slots hc s
    refine ⟨⟨⟨?_, h.pos, h.small, h.head, hc, htail, h.batch, ?_, ?_, h.scratchCap, h.scratch⟩,
      ⟨rfl, rfl, rfl, rfl, rfl, rfl⟩, rfl, ?_, rfl⟩, fun _ => rfl⟩
    · rw [List.length_set]; exact h.slots
    · intro x hx
      rcases List.mem_or_eq_of_mem_set hx with hx | rfl
      · exact h.ok x hx
      · exact ⟨hok.cap, memcpy_length hcopy hok.data⟩
    · intro x hx
      rw [hcont] at hx
      rcases List.mem_append.mp hx with hx | hx
      · exact h.full x hx
      · rw [List.mem_singleton.mp hx]
        exact ⟨hdata, hshort⟩
    · unfold AsyncEngine.queued
      rw [hcont, List.map_append, if_pos rfl]
      simp [AsyncSlot.line, htake]

/-- A line shorter than `2 ^ 31 - 1` bytes is always stored or dropped. -/
theorem storeLine_isSome {e : AsyncEngine} {l : Line} (h : e.WF) (hl : l.size < 2 ^ 31 - 1) (alloc : Bool) :
    (storeLine e l alloc).isSome := by
  have ht : e.tail < e.slots.length := by rw [h.slots, h.tail]; exact Nat.mod_lt _ h.pos
  have hok := slotShrink_ok (h.ok _ (List.getElem_mem ht)) l.size
  obtain ⟨⟨grown, ok⟩, hg⟩ := Option.isSome_iff_exists.mp (slotGrow_isSome hok hl alloc)
  obtain ⟨_, hcap, _⟩ := slotGrow_ok hok hg
  unfold storeLine
  simp only [List.getElem?_eq_getElem ht, Option.bind_eq_bind, Option.bind_some, hg]
  cases ok with
  | false => rfl
  | true =>
    have := hcap rfl
    rw [u32_of_lt (by omega)] at this
    simp only [if_true, memcpy, if_pos (by omega : l.size ≤ grown.cap), Option.bind_some, Option.isSome_some]

/-! ## Taking the oldest line -/

theorem advanceHead_spec {e : AsyncEngine} (h : e.WF) (hc : 0 < e.count) :
    (advanceHead e).WF ∧ (advanceHead e).count < e.capacity ∧
      ∃ s, e.slots[e.head]? = some s ∧ s.Ok ∧ s.Full ∧ e.queued = s.line :: (advanceHead e).queued := by
  have hh : e.head < e.slots.length := by rw [h.slots]; exact h.head
  have hu : u32 (e.head + 1) = e.head + 1 := by
    have := h.small
    have := h.head
    exact u32_of_lt (by omega)
  have hcont : Ring.contents e.slots e.capacity e.head e.count =
      e.slots[e.head] :: Ring.contents e.slots e.capacity ((e.head + 1) % e.capacity) (e.count - 1) := by
    rw [show e.count = (e.count - 1) + 1 by omega, Ring.contents_pop, Nat.mod_eq_of_lt h.head,
      List.getElem?_eq_getElem hh]
    rfl
  have hcount := h.count
  refine ⟨⟨h.slots, h.pos, h.small, Nat.mod_lt _ h.pos, ?_, ?_, h.batch, h.ok, ?_, h.scratchCap, h.scratch⟩, ?_,
    e.slots[e.head], List.getElem?_eq_getElem hh, h.ok _ (List.getElem_mem hh), ?_, ?_⟩
  · exact Nat.le_trans (Nat.sub_le _ _) hcount
  · simp only [advanceHead, hu, Nat.mod_add_mod]
    rw [h.tail]
    congr 1
    omega
  · intro s hs
    simp only [advanceHead, hu] at hs
    exact h.full s (by rw [hcont]; exact List.mem_cons_of_mem _ hs)
  · simp only [advanceHead]; omega
  · exact h.full _ (by rw [hcont]; exact List.mem_cons_self ..)
  · unfold AsyncEngine.queued
    rw [hcont, List.map_cons]
    simp only [advanceHead, hu]

@[simp] theorem advanceHead_scratch (e : AsyncEngine) : (advanceHead e).scratch = e.scratch := rfl

theorem wf_dropped {e : AsyncEngine} (h : e.WF) (n : Nat) : ({ e with dropped := n } : AsyncEngine).WF :=
  ⟨h.slots, h.pos, h.small, h.head, h.count, h.tail, h.batch, h.ok, h.full, h.scratchCap, h.scratch⟩

theorem scratchGrow_spec {e e' : AsyncEngine} {len : Nat} {alloc ok : Bool} (h : e.WF)
    (hg : scratchGrow e len alloc = some (e', ok)) :
    (∃ sc cap, e' = { e with scratch := sc, scratchCap := cap } ∧ CapOk cap ∧ sc.length ≤ cap) ∧
      (ok = true → u32 (len + 1) ≤ e'.scratchCap) ∧ (alloc = true → ok = true) := by
  unfold scratchGrow at hg
  split at hg
  · rename_i hlt
    obtain ⟨nc, hd, he⟩ := Option.map_eq_some_iff.mp hg
    have hcap : CapOk (if e.scratchCap = 0 then 256 else e.scratchCap) := by
      obtain ⟨k, hk, hk'⟩ := h.scratchCap.start
      exact Or.inr ⟨k, hk, hk'⟩
    cases alloc with
    | true =>
      simp only [if_true] at he
      cases he
      exact ⟨⟨[], nc, rfl, doubleUntil_capOk (by omega) hcap hd, Nat.zero_le _⟩, fun _ => doubleUntil_ge hd,
        fun _ => rfl⟩
    | false =>
      simp only [Bool.false_eq_true, if_false] at he
      cases he
      exact ⟨⟨_, _, rfl, h.scratchCap, h.scratch⟩, (nomatch ·), (nomatch ·)⟩
  · rename_i hge
    cases hg
    exact ⟨⟨_, _, rfl, h.scratchCap, h.scratch⟩, fun _ => Nat.le_of_not_lt hge, fun _ => rfl⟩

/-- What a turn of the worker's batch loop does: the oldest line is either
skipped and counted or lands whole in the scratch buffer. -/
theorem workerPop_spec {e : AsyncEngine} {alloc : Bool} {r : Pop} (h : e.WF) (hc : 0 < e.count)
    (hp : workerPop e alloc = some r) :
    (∃ e' l, r = .skipped e' l ∧ alloc = false ∧ e'.WF ∧ SameControl e e' ∧ e.queued = l :: e'.queued ∧
      e'.dropped = e.dropped + 1) ∨
    (∃ e' p, r = .popped e' p ∧ e'.WF ∧ SameControl e e' ∧ e.queued = p.line e' :: e'.queued ∧
      e'.dropped = e.dropped) := by
  unfold workerPop at hp
  simp only [Option.bind_eq_bind, Option.bind_eq_some_iff] at hp
  obtain ⟨s, hslot, ⟨g, ok⟩, hgrow, hp⟩ := hp
  obtain ⟨⟨sc, cap, rfl, hcap, hsc⟩, hroom, halloc⟩ := scratchGrow_spec h hgrow
  have hg : ({ e with scratch := sc, scratchCap := cap } : AsyncEngine).WF :=
    ⟨h.slots, h.pos, h.small, h.head, h.count, h.tail, h.batch, h.ok, h.full, hcap, hsc⟩
  cases ok with
  | false =>
    simp only [Bool.false_eq_true, if_false, Option.some.injEq] at hp
    subst hp
    obtain ⟨hw, _, s', hs', _, _, hq⟩ := advanceHead_spec hg hc
    rw [show s' = s from Option.some.inj (hs'.symm.trans hslot)] at hq
    refine Or.inl ⟨_, _, rfl, ?_, wf_dropped hw _, ⟨rfl, rfl, rfl, rfl, rfl, rfl⟩, hq, rfl⟩
    cases alloc with
    | false => rfl
    | true => cases halloc rfl
  | true =>
    simp only [if_true, Option.bind_eq_some_iff, Option.some.injEq] at hp
    obtain ⟨d, hcopy, rfl⟩ := hp
    have hd : ({ e with scratch := d, scratchCap := cap } : AsyncEngine).WF :=
      ⟨h.slots, h.pos, h.small, h.head, h.count, h.tail, h.batch, h.ok, h.full, hcap, memcpy_length hcopy hsc⟩
    obtain ⟨hw, _, s', hs', _, hfull, hq⟩ := advanceHead_spec hd hc
    rw [show s' = s from Option.some.inj (hs'.symm.trans hslot)] at hq hfull
    refine Or.inr ⟨_, _, rfl, hw, ⟨rfl, rfl, rfl, rfl, rfl, rfl⟩, ?_, rfl⟩
    rw [show e.queued = s.line :: _ from hq]
    congr 1
    simp only [Popped.line, AsyncSlot.line, advanceHead_scratch, memcpy_take hcopy hfull.len]

/-- The worker's turn never gets stuck on a queued line. -/
theorem workerPop_isSome {e : AsyncEngine} (h : e.WF) (hc : 0 < e.count) (alloc : Bool) :
    (workerPop e alloc).isSome := by
  obtain ⟨_, _, s, hs, _, hfull, _⟩ := advanceHead_spec h hc
  have hshort := hfull.short
  have hu : u32 (s.len + 1) = s.len + 1 := u32_of_lt (by omega)
  have hgrow : (scratchGrow e s.len alloc).isSome := by
    unfold scratchGrow
    split
    · rw [Option.isSome_map]
      exact doubleUntil_isSome h.scratchCap (by rw [hu]; omega)
    · rfl
  obtain ⟨⟨g, ok⟩, hg⟩ := Option.isSome_iff_exists.mp hgrow
  obtain ⟨_, hroom, _⟩ := scratchGrow_spec h hg
  unfold workerPop
  simp only [hs, Option.bind_eq_bind, Option.bind_some, hg]
  cases ok with
  | false => rfl
  | true =>
    have := hroom rfl
    rw [hu] at this
    simp only [if_true, memcpy, if_pos (by omega : s.len ≤ g.scratchCap), Option.bind_some, Option.isSome_some]

end HxClog
