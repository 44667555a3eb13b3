import HxClog.CrashRing

/-!
# A crash in the middle of a push

The handler of a crash takes no lock, and it can interrupt a push between any two of its
stores, also in the middle of the copy. The entry that is being filled is the one behind
the newest, or the oldest one when the ring is full. So the report has every line that
was kept but the oldest.
-/

namespace HxClog

open C

namespace CrashRing

/-- How far a push has come: of the line the bytes at these places are copied, or the copy is terminated, the
length is set, the head is advanced. -/
inductive PushAt
  | copying (places : List Nat)
  | terminated
  | measured
  | advanced

/-- The copy stays within what is kept of the line. -/
def PushAt.Within (line : Bytes) : PushAt → Prop
  | .copying places => ∀ i ∈ places, i < keptLength line
  | _ => True

def copyByte (src : Bytes) (data : Block ringEntrySize) (i : Nat) : Option (Block ringEntrySize) :=
  src[i]?.bind fun c => data.write i [c]

/-- `hx_ring_push`, as far as it has come when the crash interrupts it. -/
def hxRingPushUpTo (r : CrashRing) (line : Bytes) (stop : PushAt) : Option CrashRing :=
  match r.inited, r.ring with
  | true, some ring => do
    let len := keptLength line
    let e ← ring[r.head]?
    match stop with
    | .copying places =>
      let data ← places.foldlM (copyByte (line.take len)) e.data
      some { r with ring := some (ring.set r.head ⟨data, e.len⟩) }
    | .terminated =>
      let data ← e.data.write 0 (line.take len)
      let data ← data.write len [0]
      some { r with ring := some (ring.set r.head ⟨data, e.len⟩) }
    | .measured =>
      let data ← e.data.write 0 (line.take len)
      let data ← data.write len [0]
      some { r with ring := some (ring.set r.head ⟨data, len⟩) }
    | .advanced =>
      let data ← e.data.write 0 (line.take len)
      let data ← data.write len [0]
      some { r with ring := some (ring.set r.head ⟨data, len⟩), head := u32 (r.head + 1) % ringCapacity }
  | _, _ => some r

/-- A push that has come to its last store. -/
theorem push_advanced {r : CrashRing} {ring : List RingEntry} (hi : r.inited = true) (hr : r.ring = some ring) (line : Bytes) :
    r.hxRingPush line = (r.hxRingPushUpTo line .advanced).map fun t =>
      { t with count := if r.count < ringCapacity then u32 (r.count + 1) else r.count } := by
  unfold hxRingPush hxRingPushUpTo
  rw [hi, hr]
  simp only [Option.bind_eq_bind]
  cases ring[r.head]? with
  | none => rfl
  | some e =>
    simp only [Option.bind_some]
    cases e.data.write 0 (line.take (keptLength line)) with
    | none => rfl
    | some data =>
      simp only [Option.bind_some]
      cases data.write (keptLength line) [0] <;> rfl

/-! ## The copy -/

theorem write_byte (b : Block ringEntrySize) {i : Nat} (h : i < ringEntrySize) (c : UInt8) :
    ∃ b', b.write i [c] = some b' ∧ b'.bytes = b.bytes.set i c := by
  obtain ⟨b', hb, hbytes⟩ := b.write_fits i [c] h
  refine ⟨b', hb, ?_⟩
  rw [hbytes, List.set_eq_take_append_cons_drop, if_pos (by rw [b.sized]; exact h), List.append_assoc]
  rfl

/-- Each byte is that of the source where it has been copied, and the old one elsewhere. -/
theorem copy_places {src : Bytes} (hsrc : src.length ≤ ringEntrySize) {places : List Nat}
    (h : ∀ i ∈ places, i < src.length) (data : Block ringEntrySize) : ∃ data',
      places.foldlM (copyByte src) data = some data' ∧
      ∀ i, data'.bytes[i]? = if i ∈ places then src[i]? else data.bytes[i]? := by
  induction places generalizing data with
  | nil => exact ⟨data, rfl, fun i => rfl⟩
  | cons j places ih =>
    have hj : j < src.length := h j List.mem_cons_self
    obtain ⟨data₁, hwrite, hset⟩ := write_byte data (hj.trans_le hsrc) src[j]
    obtain ⟨data', hrest, hbytes⟩ := ih (fun i hi => h i (List.mem_cons_of_mem _ hi)) data₁
    refine ⟨data', ?_, fun i => ?_⟩
    · rw [List.foldlM_cons]
      unfold copyByte
      rw [List.getElem?_eq_getElem hj, Option.bind_some, hwrite]
      exact hrest
    · rw [hbytes, hset]
      by_cases hi : i ∈ places
      · rw [if_pos hi, if_pos (List.mem_cons_of_mem _ hi)]
      · rw [if_neg hi]
        by_cases hij : i = j
        · subst hij
          rw [if_pos List.mem_cons_self, List.getElem?_set_self (by rw [data.sized]; exact hj.trans_le hsrc),
            List.getElem?_eq_getElem hj]
        · rw [if_neg (by simp [hi, hij]), List.getElem?_set_ne (Ne.symm hij)]

/-- When all bytes have been copied, the copy is that of the push. -/
theorem copy_whole {src : Bytes} (hsrc : src.length ≤ ringEntrySize) {places : List Nat}
    (h : ∀ i, i ∈ places ↔ i < src.length) (data : Block ringEntrySize) :
    places.foldlM (copyByte src) data = data.write 0 src := by
  obtain ⟨data', hcopy, hbytes⟩ := copy_places hsrc (fun i hi => (h i).mp hi) data
  obtain ⟨data'', hwrite, hwhole⟩ := data.write_start src hsrc
  have hsame : data' = data'' := by
    have : data'.bytes = data''.bytes := by
      refine List.ext_getElem? fun i => ?_
      rw [hbytes, hwhole]
      by_cases hi : i < src.length
      · rw [if_pos ((h i).mpr hi), List.getElem?_append_left hi]
      · rw [if_neg fun hm => hi ((h i).mp hm), List.getElem?_append_right (not_lt.mp hi), List.getElem?_drop,
          Nat.add_sub_cancel' (not_lt.mp hi)]
    cases data'
    cases data''
    cases this
    rfl
  rw [hcopy, hwrite, hsame]

/-! ## What is shown of a ring -/

/-- A ring whose entries from `first` on have these texts. -/
structure Shows (r : CrashRing) (ring : List RingEntry) (first : Nat) (texts : List Bytes) : Prop where
  inited : r.inited = true
  ring_eq : r.ring = some ring
  full : ring.length = ringCapacity
  first_lt : first < ringCapacity
  head : r.head = (first + r.count) % ringCapacity
  count : r.count ≤ ringCapacity
  texts_eq : (Ring.contents ring ringCapacity first r.count).map RingEntry.text = texts.map some

theorem Shows.dump {r : CrashRing} {ring : List RingEntry} {first : Nat} {texts : List Bytes} (h : r.Shows ring first texts) :
    r.hxRingDumpFd = some texts := by
  have hcap : ringCapacity = 1024 := rfl
  have hcount := h.count
  have hfirst := h.first_lt
  have hhead : r.head < 1024 := by
    rw [h.head]
    exact Nat.mod_lt _ (by decide)
  have hstart : u32Sub (u32 (r.head + ringCapacity)) r.count % ringCapacity = first := by
    rw [u32_of_lt (by omega), u32Sub_of_le (by omega) (by omega), h.head]
    exact Ring.oldest_index h.first_lt hcount
  unfold hxRingDumpFd
  rw [h.inited, h.ring_eq]
  simp only [hstart]
  refine dump_contents h.full first (fun i => u32 (first + i) % ringCapacity) r.count _ (fun i hi => ?_) h.texts_eq
  rw [u32_of_lt (by omega)]

section
variable {r : CrashRing} {ring : List RingEntry} {first : Nat} {texts : List Bytes} {lines : List Bytes} {line : Bytes}
  {e : RingEntry} {x : Bytes}

theorem Holding.shows (h : r.Holding ring first lines) : r.Shows ring first ((lines.map kept).rtake ringCapacity) where
  inited := h.inited
  ring_eq := h.ring_eq
  full := h.full
  first_lt := h.first_lt
  head := h.head
  count := h.count.trans_le (Nat.min_le_right _ _)
  texts_eq := h.texts

theorem Shows.set_full (h : r.Shows ring first texts) (e : RingEntry) : (ring.set r.head e).length = ringCapacity := by
  rw [List.length_set, h.full]

/-- An entry behind the newest is not shown. -/
theorem Shows.behind (h : r.Shows ring first texts) (hroom : r.count < ringCapacity) (e : RingEntry) :
    Shows { r with ring := some (ring.set r.head e) } (ring.set r.head e) first texts := by
  refine ⟨h.inited, rfl, h.set_full e, h.first_lt, h.head, h.count, ?_⟩
  show (Ring.contents (ring.set r.head e) ringCapacity first r.count).map RingEntry.text = _
  rw [h.head, Ring.contents_set hroom e r.count (le_refl _), h.texts_eq]

/-- In a full ring the entry is the oldest. -/
theorem Shows.oldest (h : r.Shows ring first texts) (hfull : r.count = ringCapacity) (he : e.text = some x) :
    Shows { r with ring := some (ring.set r.head e) } (ring.set r.head e) first (x :: texts.tail) := by
  refine ⟨h.inited, rfl, h.set_full e, h.first_lt, h.head, h.count, ?_⟩
  show (Ring.contents (ring.set r.head e) ringCapacity first r.count).map RingEntry.text = _
  have htexts := h.texts_eq
  rw [hfull] at htexts
  have hat : r.head = first % ringCapacity := by rw [h.head, hfull, Nat.add_mod_right]
  rw [hfull, hat, Ring.contents_replace h.full (by decide), List.map_cons, List.map_tail, htexts, he, List.map_cons,
    List.map_tail]

theorem Shows.oldest_text (h : r.Shows ring first texts) (hfull : r.count = ringCapacity) (he : ring[r.head]? = some e) :
    ∃ old, e.text = some old ∧ texts.head? = some old := by
  have htexts := h.texts_eq
  have hat : r.head = first % ringCapacity := by rw [h.head, hfull, Nat.add_mod_right]
  have hcap : ringCapacity = 1023 + 1 := rfl
  rw [hfull, hcap, Ring.contents_pop, ← hcap, ← hat, he, Option.toList_some, List.singleton_append, List.map_cons] at htexts
  obtain ⟨old, rest, rfl, hold, -⟩ := List.map_eq_cons_iff.mp htexts.symm
  exact ⟨old, hold.symm, rfl⟩

/-- With the head advanced, and not yet counted, the newest is shown in place of the oldest. -/
theorem Shows.uncounted (h : r.Shows ring first texts) (hroom : r.count < ringCapacity) (he : e.text = some x) :
    Shows { r with ring := some (ring.set r.head e), head := (r.head + 1) % ringCapacity } (ring.set r.head e)
      ((first + 1) % ringCapacity) (texts ++ [x]).tail := by
  refine ⟨h.inited, rfl, h.set_full e, Nat.mod_lt _ (by decide), ?_, h.count, ?_⟩
  · show (r.head + 1) % ringCapacity = ((first + 1) % ringCapacity + r.count) % ringCapacity
    rw [h.head, Nat.mod_add_mod, Nat.mod_add_mod, Nat.add_right_comm]
  · show (Ring.contents (ring.set r.head e) ringCapacity ((first + 1) % ringCapacity) r.count).map RingEntry.text = _
    have hpush : (Ring.contents (ring.set r.head e) ringCapacity first (r.count + 1)).map RingEntry.text =
        (texts ++ [x]).map some := by
      rw [h.head, Ring.contents_push h.full hroom, List.map_append, h.texts_eq, List.map_append, List.map_singleton, he]
      rfl
    have hat : first % ringCapacity < (ring.set r.head e).length := by
      rw [h.set_full]
      exact Nat.mod_lt _ (by decide)
    rw [Ring.contents_pop, List.getElem?_eq_getElem hat] at hpush
    rw [List.map_tail, ← hpush]
    rfl

theorem Shows.overwritten (h : r.Shows ring first texts) (hfull : r.count = ringCapacity) (he : e.text = some x) :
    Shows { r with ring := some (ring.set r.head e), head := (r.head + 1) % ringCapacity } (ring.set r.head e)
      ((first + 1) % ringCapacity) (texts.tail ++ [x]) := by
  refine ⟨h.inited, rfl, h.set_full e, Nat.mod_lt _ (by decide), ?_, h.count, ?_⟩
  · show (r.head + 1) % ringCapacity = ((first + 1) % ringCapacity + r.count) % ringCapacity
    rw [h.head, Nat.mod_add_mod, Nat.mod_add_mod, Nat.add_right_comm]
  · show (Ring.contents (ring.set r.head e) ringCapacity ((first + 1) % ringCapacity) r.count).map RingEntry.text = _
    have htexts := h.texts_eq
    rw [hfull] at htexts
    have hat : r.head = first % ringCapacity := by rw [h.head, hfull, Nat.add_mod_right]
    rw [hfull, hat, Ring.contents_overwrite h.full (by decide), List.map_append, List.map_tail, htexts, List.map_append,
      List.map_tail, List.map_singleton, List.map_singleton, he]

/-! ## The entry that is being filled -/

/-- A text of the old one's length, each byte of which is the old or the new one, or the terminator. -/
def Mixed (old new x : Bytes) : Prop :=
  x.length = old.length ∧ ∀ (i : Nat) (c : UInt8), x[i]? = some c → old[i]? = some c ∨ new[i]? = some c ∨ c = 0

theorem mixed_entry {old : Bytes} {data : Block ringEntrySize} (he : e.text = some old)
    (hbytes : ∀ (i : Nat) (c : UInt8), data.bytes[i]? = some c → e.data.bytes[i]? = some c ∨ (kept line)[i]? = some c ∨ c = 0) :
    ∃ x, RingEntry.text ⟨data, e.len⟩ = some x ∧ Mixed old (kept line) x := by
  unfold RingEntry.text Block.read at he ⊢
  by_cases hlen : e.len ≤ ringEntrySize
  · rw [if_pos hlen] at he ⊢
    cases he
    refine ⟨_, rfl, ?_, fun i c hc => ?_⟩
    · rw [List.length_take, List.length_take, data.sized, e.data.sized]
    · rw [List.getElem?_take] at hc ⊢
      split at hc
      · rename_i hi
        rw [if_pos hi]
        exact hbytes i c hc
      · cases hc
  · rw [if_neg hlen] at he
    cases he

/-- Until the length is set, the entry keeps its old one, and its bytes are old or new. -/
theorem filling (hi : r.inited = true) (hr : r.ring = some ring) (he : ring[r.head]? = some e) {stop : PushAt}
    (hstop : stop.Within line) (hm : stop ≠ .measured) (ha : stop ≠ .advanced) : ∃ data : Block ringEntrySize,
      r.hxRingPushUpTo line stop = some { r with ring := some (ring.set r.head ⟨data, e.len⟩) } ∧
      ∀ (i : Nat) (c : UInt8), data.bytes[i]? = some c → e.data.bytes[i]? = some c ∨ (kept line)[i]? = some c ∨ c = 0 := by
  obtain ⟨hkept, hlen, hlt⟩ := take_keptLength line
  unfold hxRingPushUpTo
  rw [hi, hr]
  simp only [he, Option.bind_eq_bind, Option.bind_some]
  cases stop with
  | copying places =>
    obtain ⟨data, hcopy, hbytes⟩ := copy_places (hlen.trans_le hlt.le)
      (fun i hi => (hstop i hi).trans_eq hlen.symm) e.data
    refine ⟨data, ?_, fun i c hc => ?_⟩
    · simp only [hcopy, Option.bind_some]
    · rw [hbytes] at hc
      split at hc
      · exact .inr (.inl (hkept ▸ hc))
      · exact .inl hc
  | terminated =>
    obtain ⟨data, hdata, hcopied⟩ := Block.write_start e.data (line.take (keptLength line)) (by omega)
    obtain ⟨data', hdata', hset⟩ := write_byte data hlt 0
    refine ⟨data', ?_, fun i c hc => ?_⟩
    · simp only [hdata, hdata', Option.bind_some]
    · rw [hset, List.getElem?_set] at hc
      split at hc
      · split at hc
        · cases hc
          exact .inr (.inr rfl)
        · cases hc
      · rw [hcopied, List.getElem?_append] at hc
        split at hc
        · exact .inr (.inl (hkept ▸ hc))
        · rename_i hge
          rw [List.getElem?_drop, Nat.add_sub_cancel' (not_lt.mp hge)] at hc
          exact .inl hc
  | measured => exact absurd rfl hm
  | advanced => exact absurd rfl ha

/-- From then on it has the text of the line. -/
theorem filled (hi : r.inited = true) (hr : r.ring = some ring) (he : ring[r.head]? = some e) (line : Bytes) :
    ∃ e' : RingEntry, e'.text = some (kept line) ∧
      r.hxRingPushUpTo line .measured = some { r with ring := some (ring.set r.head e') } ∧
      r.hxRingPushUpTo line .advanced =
        some { r with ring := some (ring.set r.head e'), head := u32 (r.head + 1) % ringCapacity } := by
  obtain ⟨data, data', hdata, hdata', htext⟩ := stored e line
  refine ⟨_, htext, ?_, ?_⟩
  · unfold hxRingPushUpTo
    rw [hi, hr]
    simp only [he, hdata, hdata', Option.bind_eq_bind, Option.bind_some]
  · unfold hxRingPushUpTo
    rw [hi, hr]
    simp only [he, hdata, hdata', Option.bind_eq_bind, Option.bind_some]

/-! ## The report -/

/-- What the report has of the lines when the push of `line` stops there. -/
def Reports (lines : List Bytes) (line : Bytes) (stop : PushAt) (writes : List Bytes) : Prop :=
  let before := (lines.map kept).rtake ringCapacity
  if lines.length < ringCapacity then
    match stop with
    | .advanced => writes = (before ++ [kept line]).tail
    | _ => writes = before
  else
    match stop with
    | .advanced => writes = before.tail ++ [kept line]
    | .measured => writes = kept line :: before.tail
    | _ => ∃ old x, before.head? = some old ∧ writes = x :: before.tail ∧ Mixed old (kept line) x

theorem Holding.stops (h : r.Holding ring first lines) {stop : PushAt} (hstop : stop.Within line) :
    ∃ r' writes, r.hxRingPushUpTo line stop = some r' ∧ r'.hxRingDumpFd = some writes ∧ Reports lines line stop writes := by
  have hshows := h.shows
  obtain ⟨e, he⟩ : ∃ e, ring[r.head]? = some e := ⟨_, List.getElem?_eq_getElem h.head_lt⟩
  obtain ⟨e', htext, hmeasured, hadvanced⟩ := filled h.inited h.ring_eq he line
  have hnext : u32 (r.head + 1) = r.head + 1 := by
    have hcap : ringCapacity = 1024 := rfl
    have hhead := h.head_lt
    rw [h.full] at hhead
    exact u32_of_lt (by omega)
  unfold Reports
  by_cases hroom : lines.length < ringCapacity
  · have hcount : r.count < ringCapacity := by
      rw [h.count]
      exact lt_of_le_of_lt (Nat.min_le_left _ _) hroom
    simp only [hroom, if_true]
    by_cases ha : stop = .advanced
    · subst ha
      rw [hnext] at hadvanced
      exact ⟨_, _, hadvanced, (hshows.uncounted hcount htext).dump, rfl⟩
    · by_cases hm : stop = .measured
      · subst hm
        exact ⟨_, _, hmeasured, (hshows.behind hcount e').dump, rfl⟩
      · obtain ⟨data, hpush, -⟩ := filling h.inited h.ring_eq he hstop hm ha
        refine ⟨_, _, hpush, (hshows.behind hcount _).dump, ?_⟩
        cases stop with
        | advanced => exact absurd rfl ha
        | _ => rfl
  · have hcount : r.count = ringCapacity := by
      rw [h.count]
      exact Nat.min_eq_right (not_lt.mp hroom)
    simp only [hroom, if_false]
    by_cases ha : stop = .advanced
    · subst ha
      rw [hnext] at hadvanced
      exact ⟨_, _, hadvanced, (hshows.overwritten hcount htext).dump, rfl⟩
    · by_cases hm : stop = .measured
      · subst hm
        exact ⟨_, _, hmeasured, (hshows.oldest hcount htext).dump, rfl⟩
      · obtain ⟨data, hpush, hbytes⟩ := filling h.inited h.ring_eq he hstop hm ha
        obtain ⟨old, hold, hhead⟩ := hshows.oldest_text hcount he
        obtain ⟨x, hx, hmixed⟩ := mixed_entry hold hbytes
        refine ⟨_, _, hpush, (hshows.oldest hcount hx).dump, ?_⟩
        cases stop with
        | advanced => exact absurd rfl ha
        | measured => exact absurd rfl hm
        | _ => exact ⟨old, x, hhead, rfl, hmixed⟩

end

end CrashRing

end HxClog
