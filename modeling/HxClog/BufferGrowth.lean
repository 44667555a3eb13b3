import HxClog.Dispatch
import HxClog.EnqueueSound

/-!
# Buffers of the queue

Both doubling loops start from a capacity that earlier doublings of 256 have left. They
reach every size up to 2^31; beyond, the capacity wraps to 0 and the loop never ends.
-/

namespace HxClog

open C

/-! ## The two loops -/

/-- The loop of `hx_async_enqueue` ends, and the block behind it holds the line. -/
def SlotFits (slot : AsyncSlot) (size : Nat) (alloc : Bool) : Prop :=
  ∃ slot' ok, slotGrow (slotShrink slot size) size alloc = some (slot', ok) ∧ (ok = true → size ≤ slot'.cap)

theorem CapOk.le {c : Nat} (h : CapOk c) : c ≤ 2 ^ 31 := by
  rcases h with rfl | ⟨k, hk, rfl⟩
  · decide
  · have : 2 ^ k ≤ 2 ^ 23 := Nat.pow_le_pow_right (by decide) hk
    omega

theorem CapOk.start_ok {c : Nat} (h : CapOk c) : CapOk (if c = 0 then 256 else c) := by
  obtain ⟨k, hk, hk'⟩ := h.start
  exact .inr ⟨k, hk, hk'⟩

/-- A size from 2^31 on is never reached. -/
theorem doubleUntil_none {need c : Nat} (hc : CapOk c) (hn : 2 ^ 31 < need) (fuel : Nat) : doubleUntil need fuel c = none := by
  cases hd : doubleUntil need fuel c with
  | none => rfl
  | some r =>
    have hr := (doubleUntil_capOk (Nat.ne_of_gt (Nat.zero_lt_of_lt hn)) hc hd).le
    have := doubleUntil_ge hd
    omega

/-- What both loops do with a capacity. `none` is the loop that does not end. -/
def grownCap (cap size : Nat) : Option Nat :=
  if cap < u32 (size + 1) then doubleUntil (u32 (size + 1)) 32 (if cap = 0 then 256 else cap) else some cap

theorem grownCap_iff {cap size : Nat} (hc : CapOk cap) (hsize : size < 2 ^ 32) :
    (∃ cap', grownCap cap size = some cap' ∧ size ≤ cap') ↔ size < 2 ^ 31 := by
  unfold grownCap
  constructor
  · rintro ⟨cap', hgrown, hle⟩
    by_contra hlong
    by_cases hwrap : size + 1 = 2 ^ 32
    · rw [hwrap, show u32 (2 ^ 32) = 0 from rfl, if_neg (Nat.not_lt_zero cap)] at hgrown
      obtain rfl := Option.some.inj hgrown
      have := hc.le
      omega
    · have hu : u32 (size + 1) = size + 1 := u32_of_lt (by omega)
      have hcap := hc.le
      rw [hu, if_pos (by omega), doubleUntil_none hc.start_ok (by omega)] at hgrown
      cases hgrown
  · intro hshort
    have hu : u32 (size + 1) = size + 1 := u32_of_lt (by omega)
    rw [hu]
    by_cases hroom : cap < size + 1
    · rw [if_pos hroom]
      obtain ⟨r, hr⟩ := Option.isSome_iff_exists.mp (doubleUntil_isSome hc (Nat.succ_le_of_lt hshort))
      exact ⟨r, hr, Nat.le_of_succ_le (doubleUntil_ge hr)⟩
    · rw [if_neg hroom]
      exact ⟨cap, rfl, by omega⟩

/-- Where a loop runs at all, the block it asks for holds the line. -/
theorem doubled_holds {cap size nc : Nat} (hsize : size < 2 ^ 32) (hroom : cap < u32 (size + 1))
    (hd : doubleUntil (u32 (size + 1)) 32 (if cap = 0 then 256 else cap) = some nc) : size ≤ nc := by
  have hge := doubleUntil_ge hd
  have hwrap : size + 1 ≠ 2 ^ 32 := by
    intro h
    rw [h] at hroom
    exact Nat.not_lt_zero cap hroom
  rw [u32_of_lt (by omega)] at hge
  exact Nat.le_of_succ_le hge

theorem slotGrow_iff (slot : AsyncSlot) {size : Nat} (hsize : size < 2 ^ 32) (alloc : Bool) :
    (∃ slot' ok, slotGrow slot size alloc = some (slot', ok) ∧ (ok = true → size ≤ slot'.cap)) ↔
      ∃ cap', grownCap slot.cap size = some cap' ∧ size ≤ cap' := by
  unfold slotGrow grownCap
  by_cases hroom : slot.cap < u32 (size + 1)
  · rw [if_pos hroom, if_pos hroom]
    constructor
    · rintro ⟨slot', ok, hgrow, -⟩
      obtain ⟨nc, hd, -⟩ := Option.map_eq_some_iff.mp hgrow
      exact ⟨nc, hd, doubled_holds hsize hroom hd⟩
    · rintro ⟨nc, hd, hle⟩
      rw [hd]
      cases alloc with
      | true => exact ⟨_, _, rfl, fun _ => hle⟩
      | false => exact ⟨_, _, rfl, fun h => absurd h Bool.false_ne_true⟩
  · rw [if_neg hroom, if_neg hroom]
    constructor
    · rintro ⟨slot', ok, hgrow, hle⟩
      cases hgrow
      exact ⟨_, rfl, hle rfl⟩
    · rintro ⟨cap', hcap, hle⟩
      cases hcap
      exact ⟨_, _, rfl, fun _ => hle⟩

theorem slotFits_iff {slot : AsyncSlot} (h : CapOk slot.cap) {size : Nat} (hsize : size < 2 ^ 32) (alloc : Bool) :
    SlotFits slot size alloc ↔ size < 2 ^ 31 := by
  have hshrunk : CapOk (slotShrink slot size).cap := by
    unfold slotShrink
    split
    · exact CapOk.zero
    · exact h
  exact (slotGrow_iff _ hsize alloc).trans (grownCap_iff hshrunk hsize)

/-- Under a line cap up to 2^31 the lines that are written are shorter. -/
theorem capped_line_short (localtime : Int → Tm) {c : UInt32} (heap : Heap) (fmt : Format) (rec : Record) {stackbuf : Bytes}
    {stackSize : Nat} (hs : Fits stackbuf stackSize) (hstack : stackSize ≤ 2 ^ 31) (hpos : c ≠ 0) (hcap : c.toNat ≤ 2 ^ 31)
    (hneed : requiredLength localtime fmt rec stackbuf stackSize < uintMax) :
    (formatWithRetry localtime (some c) heap fmt rec stackbuf stackSize).len < 2 ^ 31 := by
  have hspos := hs.pos
  unfold formatWithRetry
  simp only [formatLine_required localtime fmt rec hs]
  generalize requiredLength localtime fmt rec stackbuf stackSize = needed at hneed ⊢
  have hu : u32 (needed + 1) = needed + 1 := u32_of_lt (by unfold uintMax at hneed; omega)
  rw [hu, if_pos hneed]
  split
  · simp only
    omega
  · have hclamp : 0 < hxClampLine (some c) (needed + 1) ∧ hxClampLine (some c) (needed + 1) ≤ 2 ^ 31 := by
      refine ⟨clamp_pos (Nat.succ_pos _) fun h => hpos (Option.some.inj h), ?_⟩
      unfold hxClampLine
      simp only
      split <;> omega
    have hsub := u32Sub_of_le hclamp.1 (by omega)
    split
    · simp only [hsub]
      split <;> omega
    · simp only
      omega

/-! ## Capacities over a run -/

/-- Every capacity comes from doubling 256, and every slot's line went through the loop. -/
structure Capacities (e : AsyncEngine) : Prop where
  slots : ∀ s ∈ e.slots, CapOk s.cap ∧ s.len < 2 ^ 31
  scratch : CapOk e.scratchCap

/-- A change that leaves the slots and the scratch buffer alone. -/
theorem Capacities.same {e e' : AsyncEngine} (h : Capacities e) (hslots : e'.slots = e.slots)
    (hscratch : e'.scratchCap = e.scratchCap) : Capacities e' :=
  ⟨by rw [hslots]; exact h.slots, by rw [hscratch]; exact h.scratch⟩

theorem Capacities.empty : Capacities {} := ⟨fun _ hs => absurd hs List.not_mem_nil, CapOk.zero⟩

theorem Capacities.start (cfg : AsyncConfig) : Capacities (hxAsyncStart cfg) := by
  refine ⟨fun s hs => ?_, CapOk.zero⟩
  rw [List.eq_of_mem_replicate hs]
  exact ⟨CapOk.zero, by decide⟩

theorem Capacities.setSlot {e : AsyncEngine} (h : Capacities e) {s : AsyncSlot} (hs : CapOk s.cap ∧ s.len < 2 ^ 31) :
    ∀ s' ∈ e.slots.set e.tail s, CapOk s'.cap ∧ s'.len < 2 ^ 31 := by
  intro s' hs'
  rcases List.mem_or_eq_of_mem_set hs' with hs' | rfl
  · exact h.slots s' hs'
  · exact hs

theorem grownSlot_ok {s s' : AsyncSlot} {size : Nat} {alloc ok : Bool} (h : CapOk s.cap ∧ s.len < 2 ^ 31)
    (hg : slotGrow (slotShrink s size) size alloc = some (s', ok)) : CapOk s'.cap ∧ s'.len < 2 ^ 31 := by
  have hshrunk : CapOk (slotShrink s size).cap ∧ (slotShrink s size).len < 2 ^ 31 := by
    unfold slotShrink
    split
    · exact ⟨CapOk.zero, h.2⟩
    · exact h
  unfold slotGrow at hg
  split at hg
  · rename_i hlt
    obtain ⟨nc, hd, he⟩ := Option.map_eq_some_iff.mp hg
    cases alloc with
    | true =>
      cases he
      exact ⟨doubleUntil_capOk (Nat.ne_of_gt (Nat.zero_lt_of_lt hlt)) hshrunk.1.start_ok hd, hshrunk.2⟩
    | false =>
      cases he
      exact hshrunk
  · cases hg
    exact hshrunk

theorem Capacities.stored {e e' : AsyncEngine} {l : Line} {alloc stored report : Bool} (h : Capacities e)
    (hs : storeLine e l alloc = some (e', stored, report)) : Capacities e' := by
  unfold storeLine at hs
  simp only [Option.bind_eq_bind, Option.bind_eq_some_iff] at hs
  obtain ⟨slot, hslot, ⟨grown, ok⟩, hgrow, hs⟩ := hs
  have hgrown := grownSlot_ok (h.slots slot (List.mem_of_getElem? hslot)) hgrow
  cases ok with
  | false =>
    cases hs
    exact ⟨h.setSlot hgrown, h.scratch⟩
  | true =>
    simp only [if_true, Option.bind_eq_some_iff, Option.some.injEq, Prod.mk.injEq] at hs
    obtain ⟨data, hcopy, rfl, -, -⟩ := hs
    have hlen : l.size ≤ grown.cap := by
      unfold memcpy at hcopy
      split at hcopy
      · assumption
      · cases hcopy
    have hcap := hgrown.1.le
    have hshort : l.size < 2 ^ 31 :=
      (slotFits_iff (h.slots slot (List.mem_of_getElem? hslot)).1 (by omega) alloc).mp ⟨grown, true, hgrow, fun _ => hlen⟩
    exact ⟨h.setSlot ⟨hgrown.1, hshort⟩, h.scratch⟩

/-- The engine that a section of `hx_async_enqueue` leaves. -/
def Enqueue.engine (e : AsyncEngine) : Enqueue → AsyncEngine
  | .unavailable => e
  | .wait => e
  | .refused e' _ => e'
  | .settled e' _ _ _ => e'

section
variable {e : AsyncEngine} {l : Line} {alloc : Bool} {r : Enqueue}

theorem Capacities.enqueueBlock (h : Capacities e) (hr : asyncEnqueueBlock e l alloc = some r) : Capacities (r.engine e) := by
  unfold asyncEnqueueBlock at hr
  split at hr
  · cases hr
    exact h
  · split at hr
    · cases hr
      exact h
    · obtain ⟨⟨e', stored, report⟩, hst, rfl⟩ := Option.map_eq_some_iff.mp hr
      exact h.stored hst

theorem Capacities.enqueue (h : Capacities e) (hr : hxAsyncEnqueue e l alloc = some r) : Capacities (r.engine e) := by
  unfold hxAsyncEnqueue at hr
  split at hr
  · cases hr
    exact h
  · split at hr
    · split at hr
      · cases hr
        exact h.same rfl rfl
      · obtain ⟨⟨e', stored, report⟩, hst, rfl⟩ := Option.map_eq_some_iff.mp hr
        have hmid : Capacities (asyncCountDropLocked (advanceHead e)).1 := h.same rfl rfl
        exact hmid.stored hst
      · exact h.enqueueBlock hr
    · obtain ⟨⟨e', stored, report⟩, hst, rfl⟩ := Option.map_eq_some_iff.mp hr
      exact h.stored hst

end

/-- The engine that a turn of the worker's batch loop leaves. -/
def Pop.engine : Pop → AsyncEngine
  | .skipped e _ => e
  | .popped e _ => e

theorem Capacities.pop {e : AsyncEngine} {alloc : Bool} {r : Pop} (h : Capacities e) (hp : workerPop e alloc = some r) :
    Capacities r.engine := by
  unfold workerPop at hp
  simp only [Option.bind_eq_bind, Option.bind_eq_some_iff] at hp
  obtain ⟨s, hslot, ⟨g, ok⟩, hgrow, hp⟩ := hp
  have hg : Capacities g := by
    unfold scratchGrow at hgrow
    split at hgrow
    · rename_i hlt
      obtain ⟨nc, hd, he⟩ := Option.map_eq_some_iff.mp hgrow
      cases alloc with
      | true =>
        cases he
        exact ⟨h.slots, doubleUntil_capOk (Nat.ne_of_gt (Nat.zero_lt_of_lt hlt)) h.scratch.start_ok hd⟩
      | false =>
        cases he
        exact h
    · cases hgrow
      exact h
  cases ok with
  | false =>
    cases hp
    exact hg.same rfl rfl
  | true =>
    simp only [if_true, Option.bind_eq_some_iff, Option.some.injEq] at hp
    obtain ⟨d, -, rfl⟩ := hp
    exact hg.same rfl rfl

end HxClog
