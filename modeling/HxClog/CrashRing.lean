import HxClog.Lib.Block
import HxClog.Lib.Ring

/-!
# The crash ring

The last lines are kept in a ring that is allocated ahead, for the report of a crash. A
line that is too long for its entry is cut, and the oldest entry is overwritten when
the ring is full.
-/

namespace HxClog

open C

def ringCapacity : Nat := 1024

def ringEntrySize : Nat := 512

/-- `ring_entry_t` -/
structure RingEntry where
  data : Block ringEntrySize
  len : Nat

/-- `len` bytes of the entry are written to the report. -/
def RingEntry.text (e : RingEntry) : Option Bytes := e.data.read e.len

/-- How much of a line an entry takes. -/
def keptLength (line : Bytes) : Nat := if ringEntrySize ≤ line.length then ringEntrySize - 1 else line.length

/-- `g_ring`, `g_ring_head`, `g_ring_count` and `g_ring_inited`. -/
structure CrashRing where
  ring : Option (List RingEntry)
  head : Nat
  count : Nat
  inited : Bool

namespace CrashRing

def start : CrashRing := ⟨none, 0, 0, false⟩

/-- `hx_ring_init`, with what the allocator gives. -/
def hxRingInit (r : CrashRing) (allocated : Bool) : CrashRing :=
  if r.inited then r
  else if ¬allocated then { r with ring := none }
  else ⟨some (List.replicate ringCapacity ⟨Block.zero ringEntrySize, 0⟩), 0, 0, true⟩

/-- `hx_ring_push`. It has no value where it writes outside the entry or the ring. -/
def hxRingPush (r : CrashRing) (line : Bytes) : Option CrashRing :=
  match r.inited, r.ring with
  | true, some ring => do
    let len := keptLength line
    let e ← ring[r.head]?
    let data ← e.data.write 0 (line.take len)
    let data ← data.write len [0]
    some { r with ring := some (ring.set r.head ⟨data, len⟩), head := u32 (r.head + 1) % ringCapacity,
                  count := if r.count < ringCapacity then u32 (r.count + 1) else r.count }
  | _, _ => some r

/-- `hx_ring_dump_fd`: what the calls of `write` are given. -/
def hxRingDumpFd (r : CrashRing) : Option (List Bytes) :=
  match r.inited, r.ring with
  | true, some ring =>
    let start := u32Sub (u32 (r.head + ringCapacity)) r.count % ringCapacity
    (List.range r.count).mapM fun i => do
      let e ← ring[u32 (start + i) % ringCapacity]?
      e.text
  | _, _ => some []

/-- `hx_ring_destroy` -/
def hxRingDestroy (r : CrashRing) : CrashRing := if r.inited then start else r

def pushAll (r : CrashRing) (lines : List Bytes) : Option CrashRing := lines.foldlM hxRingPush r

/-! ## What an entry holds -/

/-- What is left of a line in an entry. -/
def kept (line : Bytes) : Bytes := line.take (ringEntrySize - 1)

theorem take_keptLength (line : Bytes) : line.take (keptLength line) = kept line ∧
    (line.take (keptLength line)).length = keptLength line ∧ keptLength line < ringEntrySize := by
  have hsize : ringEntrySize = 512 := rfl
  unfold keptLength kept
  split
  · refine ⟨rfl, ?_, by omega⟩
    rw [List.length_take]
    omega
  · refine ⟨?_, ?_, by omega⟩
    · rw [List.take_length, List.take_of_length_le (by omega)]
    · rw [List.take_length]

/-- Both writes of a push stay in the entry. -/
theorem stored (e : RingEntry) (line : Bytes) : ∃ data data',
    e.data.write 0 (line.take (keptLength line)) = some data ∧ data.write (keptLength line) [0] = some data' ∧
      RingEntry.text ⟨data', keptLength line⟩ = some (kept line) := by
  obtain ⟨hkept, hlen, hlt⟩ := take_keptLength line
  obtain ⟨data, hdata, hbytes⟩ := Block.write_start e.data (line.take (keptLength line)) (by omega)
  obtain ⟨data', hdata', hsame⟩ := Block.write_behind data (keptLength line) [0] hlt
  refine ⟨data, data', hdata, hdata', ?_⟩
  unfold RingEntry.text Block.read
  rw [if_pos (Nat.le_of_lt hlt), hsame, hbytes, List.take_append_of_le_length hlen.ge, List.take_of_length_le hlen.le, hkept]

/-! ## Pushes -/

/-- Of the last `n` elements the first is left out for a new one. -/
theorem rtake_concat_full {α : Type*} {l : List α} {n : Nat} (h : n ≤ l.length) (hn : 0 < n) (x : α) :
    (l ++ [x]).rtake n = (l.rtake n).tail ++ [x] := by
  obtain ⟨m, rfl⟩ : ∃ m, n = m + 1 := ⟨n - 1, by omega⟩
  rw [List.rtake_concat_succ]
  unfold List.rtake
  rw [List.tail_drop]
  congr 2
  omega

/-- The ring after the lines have been pushed: from `first` on it holds the last of them. -/
structure Holding (r : CrashRing) (ring : List RingEntry) (first : Nat) (lines : List Bytes) : Prop where
  inited : r.inited = true
  ring_eq : r.ring = some ring
  full : ring.length = ringCapacity
  first_lt : first < ringCapacity
  head : r.head = (first + r.count) % ringCapacity
  count : r.count = min lines.length ringCapacity
  texts : (Ring.contents ring ringCapacity first r.count).map RingEntry.text = ((lines.map kept).rtake ringCapacity).map some

variable {r : CrashRing} {ring : List RingEntry} {first : Nat} {lines : List Bytes}

theorem init_holding (h : r.inited = false) :
    (r.hxRingInit true).Holding (List.replicate ringCapacity ⟨Block.zero ringEntrySize, 0⟩) 0 [] := by
  unfold hxRingInit
  rw [if_neg (by rw [h]; decide), if_neg (by decide)]
  exact ⟨rfl, rfl, List.length_replicate, by decide, rfl, rfl, rfl⟩

theorem Holding.head_lt (h : r.Holding ring first lines) : r.head < ring.length := by
  rw [h.full, h.head]
  exact Nat.mod_lt _ (by decide)

theorem push_holding (h : r.Holding ring first lines) (line : Bytes) : ∃ r' e first',
    r.hxRingPush line = some r' ∧ r'.Holding (ring.set r.head e) first' (lines ++ [line]) := by
  obtain ⟨old, hold⟩ : ∃ e, ring[r.head]? = some e := ⟨_, List.getElem?_eq_getElem h.head_lt⟩
  obtain ⟨data, data', hdata, hdata', htext⟩ := stored old line
  have hcap : ringCapacity = 1024 := rfl
  have hcount := h.count
  have hhead : r.head < 1024 := hcap ▸ h.full ▸ h.head_lt
  have hpush : r.hxRingPush line = some { r with
      ring := some (ring.set r.head ⟨data', keptLength line⟩), head := (r.head + 1) % ringCapacity,
      count := if r.count < ringCapacity then r.count + 1 else r.count } := by
    unfold hxRingPush
    rw [h.inited, h.ring_eq]
    simp only
    change (ring[r.head]?.bind fun e => (e.data.write 0 (line.take (keptLength line))).bind fun data =>
      (data.write (keptLength line) [0]).bind fun data => some _) = _
    rw [hold, Option.bind_some, hdata, Option.bind_some, hdata', Option.bind_some, u32_of_lt (by omega)]
    by_cases hroom : r.count < ringCapacity
    · rw [if_pos hroom, if_pos hroom, u32_of_lt (by omega)]
    · rw [if_neg hroom, if_neg hroom]
  have hset : (ring.set r.head ⟨data', keptLength line⟩).length = ringCapacity := by rw [List.length_set, h.full]
  have hlength : (lines ++ [line]).length = lines.length + 1 := List.length_append
  by_cases hroom : r.count < ringCapacity
  · rw [if_pos hroom] at hpush
    refine ⟨_, ⟨data', keptLength line⟩, first, hpush, h.inited, rfl, hset, h.first_lt, Ring.tail_succ h.head, ?_, ?_⟩
    · change r.count + 1 = _
      rw [hlength]
      omega
    · change (Ring.contents (ring.set r.head _) ringCapacity first (r.count + 1)).map RingEntry.text = _
      have hall : lines.length < ringCapacity := by omega
      rw [h.head, Ring.contents_push h.full hroom, List.map_append, h.texts]
      unfold List.rtake
      rw [List.length_map, List.length_map, hlength, Nat.sub_eq_zero_of_le hall, Nat.sub_eq_zero_of_le hall.le,
        List.drop_zero, List.drop_zero, List.map_append, List.map_append, List.map_singleton, htext]
      rfl
  · rw [if_neg hroom] at hpush
    have hfull : r.count = ringCapacity := by omega
    refine ⟨_, ⟨data', keptLength line⟩, (first + 1) % ringCapacity, hpush, h.inited, rfl, hset, Nat.mod_lt _ (by decide), ?_, ?_, ?_⟩
    · change (r.head + 1) % ringCapacity = ((first + 1) % ringCapacity + r.count) % ringCapacity
      rw [h.head, Nat.mod_add_mod, Nat.mod_add_mod, Nat.add_right_comm]
    · change r.count = _
      rw [hlength]
      omega
    · change (Ring.contents (ring.set r.head _) ringCapacity ((first + 1) % ringCapacity) r.count).map RingEntry.text = _
      have htexts := h.texts
      rw [hfull] at htexts
      have hat : r.head = first % ringCapacity := by rw [h.head, hfull, Nat.add_mod_right]
      rw [hfull, hat, Ring.contents_overwrite h.full (by decide), List.map_append, List.map_tail, htexts, List.map_append,
        List.map_singleton, List.map_singleton, htext, ← List.map_tail, rtake_concat_full (by rw [List.length_map]; omega)
          (by decide), List.map_append]
      rfl

theorem pushAll_holding : ∀ (more : List Bytes) {r : CrashRing} {ring : List RingEntry} {first : Nat} {lines : List Bytes},
    r.Holding ring first lines → ∃ r' ring' first', r.pushAll more = some r' ∧ r'.Holding ring' first' (lines ++ more)
  | [], r, ring, first, lines, h => ⟨r, ring, first, rfl, by rwa [List.append_nil]⟩
  | line :: more, r, ring, first, lines, h => by
    obtain ⟨r₁, e, first₁, hpush, h₁⟩ := push_holding h line
    obtain ⟨r', ring', first', hmore, h'⟩ := pushAll_holding more h₁
    refine ⟨r', ring', first', ?_, ?_⟩
    · change (r.hxRingPush line).bind (fun r => r.pushAll more) = some r'
      rw [hpush]
      exact hmore
    · rwa [List.append_assoc] at h'

/-! ## The dump -/

/-- The entries are read one by one from the first on. -/
theorem dump_contents (hlen : ring.length = ringCapacity) (first : Nat) (index : Nat → Nat) : ∀ (n : Nat) (texts : List Bytes),
    (∀ i < n, index i = (first + i) % ringCapacity) →
    (Ring.contents ring ringCapacity first n).map RingEntry.text = texts.map some →
      ((List.range n).mapM fun i => ring[index i]?.bind RingEntry.text) = some texts
  | 0, texts, _, h => by
    rw [List.map_eq_nil_iff.mp (h.symm.trans rfl)]
    rfl
  | n + 1, texts, hindex, h => by
    have hat : (first + n) % ringCapacity < ring.length := by
      rw [hlen]
      exact Nat.mod_lt _ (by decide)
    rw [Ring.contents_succ, List.getElem?_eq_getElem hat, Option.toList_some, List.map_append, List.map_singleton] at h
    obtain ⟨before, last, rfl, hbefore, hlast⟩ := List.map_eq_append_iff.mp h.symm
    obtain ⟨t, rfl, ht⟩ := List.map_eq_singleton_iff.mp hlast
    rw [List.range_succ, List.mapM_append,
      dump_contents hlen first index n before (fun i hi => hindex i (Nat.lt_succ_of_lt hi)) hbefore.symm, List.mapM_cons,
      hindex n (Nat.lt_succ_self n), List.getElem?_eq_getElem hat, Option.bind_some, ← ht]
    rfl

theorem Holding.dump (h : r.Holding ring first lines) :
    r.hxRingDumpFd = some ((lines.rtake ringCapacity).map kept) := by
  have hcap : ringCapacity = 1024 := rfl
  have hcount := h.count
  have hhead : r.head < 1024 := hcap ▸ h.full ▸ h.head_lt
  have hstart : u32Sub (u32 (r.head + ringCapacity)) r.count % ringCapacity = first := by
    rw [u32_of_lt (by omega), u32Sub_of_le (by omega) (by omega), h.head]
    exact Ring.oldest_index h.first_lt (by omega)
  have hindex : ∀ i < r.count, u32 (first + i) % ringCapacity = (first + i) % ringCapacity := by
    intro i hi
    have hfirst := h.first_lt
    rw [u32_of_lt (by omega)]
  have hlast : (lines.map kept).rtake ringCapacity = (lines.rtake ringCapacity).map kept := by
    unfold List.rtake
    rw [List.length_map, List.map_drop]
  unfold hxRingDumpFd
  rw [h.inited, h.ring_eq, ← hlast]
  simp only [hstart]
  exact dump_contents h.full first (fun i => u32 (first + i) % ringCapacity) r.count _ hindex h.texts

/-- After a successful start every push stays in the entry that it fills, and the dump writes what is kept of the
last lines. -/
theorem ring_keeps_last (h : r.inited = false) (lines : List Bytes) :
    ∃ r', (r.hxRingInit true).pushAll lines = some r' ∧
      (∀ line, ∃ r'' e, r'.hxRingPush line = some r'' ∧ r''.ring = r'.ring.map fun ring => ring.set r'.head e) ∧
      ∃ writes, r'.hxRingDumpFd = some writes ∧
        writes.flatten = ((lines.drop (lines.length - ringCapacity)).map (List.take (ringEntrySize - 1))).flatten := by
  obtain ⟨r', ring, first, hall, hholds⟩ := pushAll_holding lines (init_holding h)
  rw [List.nil_append] at hholds
  refine ⟨r', hall, fun line => ?_, _, hholds.dump, rfl⟩
  obtain ⟨r'', e, first', hpush, hnext⟩ := push_holding hholds line
  refine ⟨r'', e, hpush, ?_⟩
  rw [hnext.ring_eq, hholds.ring_eq]
  rfl

theorem ring_keeps_last_two : CrashRing.start.inited = false ∧
    ∃ r', (CrashRing.start.hxRingInit true).pushAll [lit "one", lit "two"] = some r' ∧
      (∀ line, ∃ r'' e, r'.hxRingPush line = some r'' ∧ r''.ring = r'.ring.map fun ring => ring.set r'.head e) ∧
      ∃ writes, r'.hxRingDumpFd = some writes ∧
        writes.flatten = (([lit "one", lit "two"].drop ([lit "one", lit "two"].length - ringCapacity)).map
          (List.take (ringEntrySize - 1))).flatten :=
  ⟨rfl, ring_keeps_last rfl _⟩

end CrashRing

end HxClog
