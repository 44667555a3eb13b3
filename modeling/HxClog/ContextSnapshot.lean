import HxClog.ContextTable
import HxClog.JsonUtf8

/-!
# The snapshot of the diagnostic context

A log call takes the pairs of its thread as one text. The blank in front of a pair is
written before it is known whether the pair fits, and a pair needs one byte more than it takes.
-/

namespace HxClog

open C

namespace ContextTable

/-- The blank between two pairs. -/
def writeBlank {cap : Nat} (out : Block cap) (pos : Nat) : Option (Block cap) :=
  if 0 < pos then out.write pos [chr ' '] else some out

/-- The loop of `hx_context_snapshot_text` over these rows. It has no value where it writes outside `out`. -/
def snapshotFrom (t : ContextTable) {cap : Nat} : List Nat → Nat → Block cap → Option (Nat × Block cap)
  | [], pos, out => some (pos, out)
  | i :: rows, pos, out => do
    let krow ← t.keys[i]?
    let k ← krow.text
    let vrow ← t.values[i]?
    let v ← vrow.text
    let need := u32 (k.length + v.length + 2)
    if 0 < pos ∧ cap ≤ u32 (pos + 1) then some (pos, out)
    else
      let out ← writeBlank out pos
      let pos := if 0 < pos then u32 (pos + 1) else pos
      if cap ≤ u32 (pos + need) then some (pos, out)
      else
        let out ← out.write pos (k ++ [0])
        let pos := u32 (pos + k.length)
        let out ← out.write pos [chr '=']
        let pos := u32 (pos + 1)
        let out ← out.write pos (v ++ [0])
        snapshotFrom t rows (u32 (pos + v.length)) out

/-- `hx_context_snapshot_text` -/
def hxContextSnapshotText (t : ContextTable) {cap : Nat} (out : Block cap) : Option (Block cap) :=
  if cap = 0 then some out
  else do
    let out ← out.write 0 [0]
    let (pos, out) ← t.snapshotFrom (List.range t.count) 0 out
    out.write (if pos < cap then pos else cap - 1) [0]

/-! ## What is written stands in the buffer -/

/-- The buffer starts with these bytes. -/
def Begins {cap : Nat} (out : Block cap) (acc : Bytes) : Prop := out.bytes.take acc.length = acc

theorem Begins.write {cap : Nat} {out : Block cap} {acc : Bytes} (h : Begins out acc) (src more : Bytes)
    (hfits : acc.length + (src ++ more).length ≤ cap) :
    ∃ out', out.write acc.length (src ++ more) = some out' ∧ Begins out' (acc ++ src) := by
  obtain ⟨out', hwrite, hbytes⟩ := out.write_fits acc.length (src ++ more) hfits
  refine ⟨out', hwrite, ?_⟩
  unfold Begins at h ⊢
  rw [hbytes, h, List.append_assoc, List.append_assoc, ← List.append_assoc acc]
  exact List.take_left' rfl

/-- A NUL behind what was written ends the string there. -/
theorem Begins.close {cap : Nat} {out : Block cap} {acc : Bytes} (h : Begins out acc) (hnul : 0 ∉ acc) (hlt : acc.length < cap) :
    ∃ out', out.write acc.length [0] = some out' ∧ out'.text = some acc := by
  obtain ⟨out', hwrite, hbytes⟩ := out.write_fits acc.length [0] hlt
  rw [h, List.append_assoc] at hbytes
  exact ⟨out', hwrite, Block.text_of_bytes hnul hbytes⟩

section
variable {t : ContextTable} {items : List ContextItem} (h : t.Holds items)
include h

/-- The rows of a pair. -/
theorem Holds.row {before after : List ContextItem} {item : ContextItem} (hitems : items = before ++ item :: after) :
    (∃ krow, t.keys[before.length]? = some krow ∧ krow.text = some item.key.bytes) ∧
      ∃ vrow, t.values[before.length]? = some vrow ∧ vrow.text = some item.value.bytes := by
  have hget : items[before.length]? = some item := by
    rw [hitems, List.getElem?_append_right (Nat.le_refl _), Nat.sub_self]
    rfl
  exact ⟨h.keys.get (by rw [List.getElem?_map, hget, Option.map_some]),
    h.values.get (by rw [List.getElem?_map, hget, Option.map_some])⟩

/-- The loop writes what the loop over the pairs does. -/
theorem snapshotFrom_loop {cap : Nat} : ∀ (rest before : List ContextItem) (acc : Bytes) {out : Block cap}, items = before ++ rest →
    Begins out acc → acc.length < cap → acc.length + 256 * rest.length < 2 ^ 32 →
      ∃ out', t.snapshotFrom (List.range' before.length rest.length) acc.length out =
          some ((Context.snapshotLoop cap acc rest).length, out') ∧
        Begins out' (Context.snapshotLoop cap acc rest)
  | [], before, acc, out, hitems, hout, hlt, hsmall => ⟨out, rfl, hout⟩
  | item :: rest, before, acc, out, hitems, hout, hlt, hsmall => by
    obtain ⟨⟨krow, hkrow, hk⟩, vrow, hvrow, hv⟩ := h.row hitems
    have hklen := (Block.text_noNul hk).2
    have hvlen := (Block.text_noNul hv).2
    have hkmax : contextKeyMax = 64 := rfl
    have hvmax : contextValueMax = 128 := rfl
    rw [List.length_cons] at hsmall
    rw [List.length_cons, List.range'_succ]
    unfold snapshotFrom Context.snapshotLoop
    simp only [Option.bind_eq_bind, hkrow, hk, hvrow, hv, Option.bind_some]
    rw [u32_of_lt (show acc.length + 1 < 2 ^ 32 by omega),
      u32_of_lt (show item.key.bytes.length + item.value.bytes.length + 2 < 2 ^ 32 by omega)]
    by_cases hfull : 0 < acc.length ∧ cap ≤ acc.length + 1
    · rw [if_pos hfull, if_pos hfull]
      exact ⟨out, rfl, hout⟩
    · rw [if_neg hfull, if_neg hfull]
      obtain ⟨out₁, hblank, hout₁⟩ : ∃ out₁, writeBlank out acc.length = some out₁ ∧
          Begins out₁ (if 0 < acc.length then acc ++ [chr ' '] else acc) := by
        unfold writeBlank
        by_cases hpos : 0 < acc.length
        · rw [if_pos hpos, if_pos hpos]
          exact hout.write [chr ' '] [] (show acc.length + 1 ≤ cap by omega)
        · rw [if_neg hpos, if_neg hpos]
          exact ⟨out, rfl, hout⟩
      have hstart : (if 0 < acc.length then acc.length + 1 else acc.length) =
          (if 0 < acc.length then acc ++ [chr ' '] else acc).length := by
        split
        · rw [List.length_append]
          rfl
        · rfl
      have hle : (if 0 < acc.length then acc ++ [chr ' '] else acc).length ≤ acc.length + 1 := by
        rw [← hstart]
        split <;> omega
      rw [hblank, Option.bind_some, hstart]
      generalize (if 0 < acc.length then acc ++ [chr ' '] else acc) = start at hout₁ hle
      rw [u32_of_lt (show start.length + (item.key.bytes.length + item.value.bytes.length + 2) < 2 ^ 32 by omega)]
      by_cases hroom : cap ≤ start.length + (item.key.bytes.length + item.value.bytes.length + 2)
      · rw [if_pos hroom, if_pos hroom]
        exact ⟨out₁, rfl, hout₁⟩
      · rw [if_neg hroom, if_neg hroom]
        have hkeylen : (start ++ item.key.bytes).length = start.length + item.key.bytes.length := List.length_append
        obtain ⟨out₂, hkey, hout₂⟩ := hout₁.write item.key.bytes [0] (by
          rw [List.length_append, List.length_singleton]
          omega)
        obtain ⟨out₃, heq, hout₃⟩ := hout₂.write [chr '='] [] (by
          rw [hkeylen, List.append_nil, List.length_singleton]
          omega)
        have heqlen : (start ++ item.key.bytes ++ [chr '=']).length = start.length + item.key.bytes.length + 1 := by
          rw [List.length_append, hkeylen]
          rfl
        obtain ⟨out₄, hvalue, hout₄⟩ := hout₃.write item.value.bytes [0] (by
          rw [heqlen, List.length_append, List.length_singleton]
          omega)
        have hall : start ++ item.key.bytes ++ [chr '='] ++ item.value.bytes = start ++ item.key.bytes ++ chr '=' :: item.value.bytes := by
          rw [List.append_assoc (start ++ item.key.bytes)]
          rfl
        have hend : (start ++ item.key.bytes ++ chr '=' :: item.value.bytes).length =
            start.length + item.key.bytes.length + 1 + item.value.bytes.length := by
          rw [← hall, List.length_append, heqlen]
        rw [hall] at hout₄
        obtain ⟨out', hrest, hout'⟩ := snapshotFrom_loop rest (before ++ [item])
          (start ++ item.key.bytes ++ chr '=' :: item.value.bytes) (hitems.trans (List.append_cons _ _ _)) hout₄
          (by omega) (by omega)
        rw [List.length_append, List.length_singleton, hend] at hrest
        rw [u32_of_lt (show start.length + item.key.bytes.length < 2 ^ 32 by omega), hkey, Option.bind_some, ← hkeylen, ← List.append_nil [chr '='],
          heq, Option.bind_some, hkeylen, u32_of_lt (show start.length + item.key.bytes.length + 1 < 2 ^ 32 by omega),
          ← heqlen, hvalue, Option.bind_some, heqlen,
          u32_of_lt (show start.length + item.key.bytes.length + 1 + item.value.bytes.length < 2 ^ 32 by omega)]
        exact ⟨out', hrest, hout'⟩

/-- The buffer gets the text of the pairs, closed by a NUL. -/
theorem snapshot_stored {cap : Nat} (hcap : 0 < cap) (out : Block cap) :
    ∃ out', t.hxContextSnapshotText out = some out' ∧ out'.text = some (Context.snapshotLoop cap [] items) := by
  obtain ⟨out₀, hfirst, -⟩ := out.write_start [0] hcap
  have hroom := h.room
  have hmax : contextMaxItems = 16 := rfl
  have hempty : Begins out₀ [] := rfl
  obtain ⟨out₁, hloop, hout₁⟩ := snapshotFrom_loop h items [] [] rfl hempty hcap (by
    rw [List.length_nil]
    omega)
  simp only [List.length_nil] at hloop
  rw [← List.range_eq_range', ← h.count] at hloop
  have hlt : (Context.snapshotLoop cap [] items).length < cap := Context.snapshotLoop_length hcap
  obtain ⟨out', hclose, htext⟩ := hout₁.close (Context.snapshotLoop_noNul cap List.not_mem_nil) hlt
  refine ⟨out', ?_, htext⟩
  unfold hxContextSnapshotText
  rw [if_neg (Nat.ne_of_gt hcap)]
  simp only [Option.bind_eq_bind, hfirst, Option.bind_some, hloop, if_pos hlt, hclose]

end

end ContextTable

/-! ## Whole pairs -/

def pairText (i : ContextItem) : Bytes := i.key.bytes ++ chr '=' :: i.value.bytes

/-- `k1=v1 k2=v2 ...` -/
def contextText (items : List ContextItem) : Bytes := List.intercalate [chr ' '] (items.map pairText)

theorem pairText_pos (i : ContextItem) : 0 < (pairText i).length := by
  unfold pairText
  rw [List.length_append, List.length_cons]
  omega

theorem contextText_snoc (items : List ContextItem) (i : ContextItem) :
    contextText (items ++ [i]) = (if items = [] then [] else contextText items ++ [chr ' ']) ++ pairText i := by
  unfold contextText
  induction items with
  | nil => simp
  | cons a items ih =>
    rw [if_neg (List.cons_ne_nil a items), List.cons_append, List.map_cons, List.map_cons]
    cases items with
    | nil => simp [List.intercalate_cons_cons, List.intercalate_singleton]
    | cons b items =>
      rw [if_neg (List.cons_ne_nil b items)] at ih
      rw [List.cons_append, List.map_cons, List.map_cons] at ih ⊢
      rw [List.intercalate_cons_cons, ih, List.intercalate_cons_cons]
      simp

/-- A pair more makes the text longer. -/
theorem contextText_grows (items : List ContextItem) (i : ContextItem) :
    (contextText items).length < (contextText (items ++ [i])).length ∧
      (items ≠ [] → (contextText items).length + 2 ≤ (contextText (items ++ [i])).length) := by
  have hpos := pairText_pos i
  rw [contextText_snoc]
  by_cases hnil : items = []
  · subst hnil
    exact ⟨hpos, fun h => absurd rfl h⟩
  · rw [if_neg hnil, List.length_append, List.length_append, List.length_singleton]
    exact ⟨by omega, fun _ => by omega⟩

theorem contextText_take_lt {items : List ContextItem} {j k : Nat} (hjk : j < k) (hk : k ≤ items.length) :
    (contextText (items.take j)).length < (contextText (items.take k)).length := by
  induction k with
  | zero => cases hjk
  | succ k ih =>
    have hstep := (contextText_grows (items.take k) items[k]).1
    rw [List.take_append_getElem hk] at hstep
    rcases Nat.eq_or_lt_of_le (Nat.le_of_lt_succ hjk) with rfl | hlt
    · exact hstep
    · exact (ih hlt (Nat.le_of_succ_le hk)).trans hstep

theorem contextText_nil_iff {items : List ContextItem} : (contextText items).length = 0 ↔ items = [] := by
  constructor
  · intro hlen
    by_contra hne
    have hlt : (contextText (items.take 0)).length < (contextText (items.take items.length)).length :=
      contextText_take_lt (List.length_pos_iff.mpr hne) (Nat.le_refl _)
    rw [List.take_length, hlen] at hlt
    cases hlt
  · rintro rfl
    rfl

/-- The loop stores the pairs up to the first that does not fit with a byte to spare. If it has stored pairs and
others are left, a blank follows. -/
theorem snapshotLoop_text (cap : Nat) : ∀ (rest done : List ContextItem), (done ≠ [] → (contextText done).length + 1 < cap) →
    ∃ i ≤ rest.length, (i = rest.length ∨ i < rest.length ∧ cap ≤ (contextText (done ++ rest.take (i + 1))).length + 1) ∧
      (done ++ rest.take i ≠ [] → (contextText (done ++ rest.take i)).length + 1 < cap) ∧
      Context.snapshotLoop cap (contextText done) rest = contextText (done ++ rest.take i) ++
        if i = rest.length ∨ done ++ rest.take i = [] then [] else [chr ' ']
  | [], done, hdone => by
    refine ⟨0, Nat.le_refl _, .inl rfl, ?_, ?_⟩
    · rwa [List.take_nil, List.append_nil]
    · rw [List.take_nil, List.append_nil, if_pos (.inl rfl), List.append_nil]
      rfl
  | a :: rest, done, hdone => by
    have hpos : 0 < (contextText done).length ↔ done ≠ [] := by
      rw [Nat.pos_iff_ne_zero, Ne, contextText_nil_iff]
    have hsnoc := contextText_snoc done a
    unfold Context.snapshotLoop
    simp only
    rw [if_neg (fun hfull => by
      have := hdone (hpos.mp hfull.1)
      omega)]
    have hstart : (if 0 < (contextText done).length then contextText done ++ [chr ' '] else contextText done) =
        if done = [] then [] else contextText done ++ [chr ' '] := by
      by_cases hnil : done = []
      · rw [if_pos hnil, if_neg (fun hlt => hpos.mp hlt hnil), hnil]
        rfl
      · rw [if_neg hnil, if_pos (hpos.mpr hnil)]
    have hlen : (contextText (done ++ [a])).length + 1 =
        (if done = [] then [] else contextText done ++ [chr ' ']).length + (a.key.bytes.length + a.value.bytes.length + 2) := by
      rw [hsnoc, List.length_append, pairText, List.length_append, List.length_cons]
      omega
    rw [hstart, ← hlen]
    by_cases hroom : cap ≤ (contextText (done ++ [a])).length + 1
    · rw [if_pos hroom]
      refine ⟨0, Nat.zero_le _, .inr ⟨Nat.succ_pos _, hroom⟩, ?_, ?_⟩
      · rwa [List.take_zero, List.append_nil]
      · rw [List.take_zero, List.append_nil]
        by_cases hnil : done = []
        · rw [if_pos hnil, if_pos (.inr hnil), hnil]
          rfl
        · rw [if_neg hnil, if_neg]
          rintro (h | h)
          · cases h
          · exact hnil h
    · rw [if_neg hroom, List.append_assoc, ← pairText, ← hsnoc]
      obtain ⟨i, hi, hstop, hspare, htext⟩ := snapshotLoop_text cap rest (done ++ [a]) fun _ => by omega
      have hsame : ∀ j, done ++ [a] ++ rest.take j = done ++ (a :: rest).take (j + 1) := by
        intro j
        rw [List.take_succ_cons, List.append_assoc]
        rfl
      rw [hsame] at hspare htext hstop
      refine ⟨i + 1, Nat.succ_le_succ hi, ?_, hspare, ?_⟩
      · rcases hstop with h | ⟨hlt, h⟩
        · exact .inl (congrArg Nat.succ h)
        · exact .inr ⟨Nat.succ_lt_succ hlt, h⟩
      · rw [htext]
        simp only [List.length_cons, Nat.succ_inj]

/-- The text of the largest number of leading pairs that leaves room for the NUL. -/
def Whole (cap : Nat) (items : List ContextItem) (text : Bytes) : Prop := ∃ j ≤ items.length, text = contextText (items.take j) ∧
  (contextText (items.take j)).length ≤ cap - 1 ∧ ∀ k ≤ items.length, (contextText (items.take k)).length ≤ cap - 1 → k ≤ j

/-- There are no pairs, or they all fit with a byte to spare, or the first does not fit at all. -/
def Spare (cap : Nat) (items : List ContextItem) : Prop :=
  items = [] ∨ (contextText items).length + 1 < cap ∨ cap ≤ (contextText (items.take 1)).length

theorem snapshotLoop_whole_iff {cap : Nat} (hcap : 0 < cap) (items : List ContextItem) :
    Whole cap items (Context.snapshotLoop cap [] items) ↔ Spare cap items := by
  obtain ⟨i, hi, hstop, hspare, htext⟩ := snapshotLoop_text cap items [] fun h => absurd rfl h
  simp only [List.nil_append] at hstop hspare htext
  rw [show contextText [] = [] from rfl] at htext
  have hle : ∀ {j k : Nat}, j ≤ k → k ≤ items.length → (contextText (items.take j)).length ≤ (contextText (items.take k)).length := by
    intro j k hjk hk
    rcases Nat.eq_or_lt_of_le hjk with rfl | hlt
    · exact Nat.le_refl _
    · exact (contextText_take_lt hlt hk).le
  have hzero : contextText (items.take 0) = [] := rfl
  rw [htext]
  rcases hstop with rfl | ⟨hlt, hfull⟩
  · -- all pairs are stored
    rw [if_pos (.inl rfl), List.append_nil]
    rw [List.take_length] at hspare ⊢
    refine iff_of_true ⟨items.length, Nat.le_refl _, by rw [List.take_length], ?_, fun k hk _ => hk⟩ ?_
    · rw [List.take_length]
      by_cases hnil : items = []
      · rw [hnil]
        exact Nat.zero_le _
      · have := hspare hnil
        omega
    · by_cases hnil : items = []
      · exact .inl hnil
      · exact .inr (.inl (hspare hnil))
  · have hall : (contextText (items.take (i + 1))).length ≤ (contextText items).length := by
      have hmono := hle (Nat.succ_le_of_lt hlt) (Nat.le_refl _)
      rwa [List.take_length] at hmono
    have hne : items ≠ [] := fun h => by
      rw [h] at hlt
      cases hlt
    by_cases hi0 : i = 0
    · -- nothing is stored
      subst hi0
      rw [if_pos (.inr rfl), List.append_nil, hzero]
      rw [Nat.zero_add] at hall hfull
      constructor
      · rintro ⟨j, hj, hempty, -, hmax⟩
        have hj0 : j = 0 := by
          by_contra hpos
          have hgrow := contextText_take_lt (Nat.pos_of_ne_zero hpos) hj
          rw [← hempty] at hgrow
          cases hgrow
        refine .inr (.inr ?_)
        by_contra hfits
        have := hmax 1 hlt (by omega)
        omega
      · rintro (h | h | h)
        · exact absurd h hne
        · omega
        · refine ⟨0, Nat.zero_le _, rfl, Nat.zero_le _, fun k hk hfits => ?_⟩
          by_contra hpos
          have := hle (Nat.pos_of_ne_zero (by omega : k ≠ 0)) hk
          change (contextText (items.take 1)).length ≤ _ at this
          omega
    · -- a blank follows, and a pair that is left
      have htake : items.take i ≠ [] := by
        rw [Ne, List.take_eq_nil_iff]
        exact fun h => h.elim hi0 hne
      have hroom := hspare htake
      rw [if_neg (fun h => h.elim (Nat.ne_of_lt hlt) htake)]
      refine iff_of_false ?_ ?_
      · rintro ⟨j, hj, hsame, -, -⟩
        have hlen := congrArg List.length hsame
        rw [List.length_append, List.length_singleton] at hlen
        rcases Nat.lt_or_ge i j with hij | hji
        · have hnext := hle (Nat.succ_le_of_lt hij) hj
          have hgrow := (contextText_grows (items.take i) items[i]).2 htake
          rw [List.take_append_getElem hlt] at hgrow
          change (contextText (items.take (i + 1))).length ≤ _ at hnext
          omega
        · have := hle hji hlt.le
          omega
      · rintro (h | h | h)
        · exact hne h
        · omega
        · have := hle (Nat.one_le_iff_ne_zero.mpr hi0) hlt.le
          omega

/-- The pairs of a table after calls. -/
def pairsAfter (calls : List ContextCall) : List ContextItem :=
  (ContextTable.mapCalls (.empty CStr CStr contextMaxItems) calls).1.entries.map fun e => ⟨e.1, e.2⟩

section
variable {calls : List ContextCall} {t : ContextTable} {rcs : List (Option Rc)} {cap : Nat}

theorem pairsAfter_held (hrun : ContextTable.cleared.runCalls calls = some (t, rcs)) : t.Holds (pairsAfter calls) := by
  obtain ⟨t', ctx, hrun', h, hm⟩ := ContextTable.calls_held_cleared calls
  obtain ⟨rfl, -⟩ := Prod.mk.inj (Option.some.inj (hrun.symm.trans hrun'))
  have hpairs : pairsAfter calls = ctx.items := by
    unfold pairsAfter
    rw [hm.entries, List.map_map]
    exact List.map_id _
  rwa [hpairs]

/-- After every sequence of calls the snapshot holds whole pairs, as many as fit, if and only if there are none, they all
fit with a byte to spare, or the first does not fit. -/
theorem snapshot_whole_iff (hrun : ContextTable.cleared.runCalls calls = some (t, rcs)) (hcap : 0 < cap) (out : Block cap) :
    (∃ out' text, t.hxContextSnapshotText out = some out' ∧ out'.text = some text ∧ Whole cap (pairsAfter calls) text) ↔
      Spare cap (pairsAfter calls) := by
  obtain ⟨stored, hsnap, htext⟩ := ContextTable.snapshot_stored (pairsAfter_held hrun) hcap out
  rw [← snapshotLoop_whole_iff hcap]
  constructor
  · rintro ⟨out', text, hsnap', htext', hwhole⟩
    have hsame : out' = stored := Option.some.inj (hsnap'.symm.trans hsnap)
    rw [hsame, htext] at htext'
    rwa [Option.some.inj htext']
  · intro hwhole
    exact ⟨stored, _, hsnap, htext, hwhole⟩

end

/-- One short pair. -/
def userPair : List ContextCall := [.put (some (.ofBytes (lit "user"))) (some (.ofBytes (lit "ann")))]

theorem snapshot_whole_user : ∃ t rcs, ContextTable.cleared.runCalls userPair = some (t, rcs) ∧ 0 < 1024 ∧
    ((∃ out' text, t.hxContextSnapshotText (Block.zero 1024) = some out' ∧ out'.text = some text ∧
      Whole 1024 (pairsAfter userPair) text) ↔ Spare 1024 (pairsAfter userPair)) := by
  obtain ⟨t, ctx, hrun, -⟩ := ContextTable.calls_held_cleared userPair
  exact ⟨t, _, hrun, by decide, snapshot_whole_iff hrun (by decide) (Block.zero 1024)⟩

/-- Eight pairs of 129 bytes. -/
def eightPairs : List ContextCall := (lit "abcdefgh").map fun c =>
  .put (some (.ofBytes [c])) (some (.ofBytes (List.replicate 127 (chr 'v'))))

theorem eightPairs_lengths : (pairsAfter eightPairs).length = 8 ∧ (contextText (pairsAfter eightPairs)).length = 1039 ∧
    (contextText ((pairsAfter eightPairs).take 1)).length = 129 := by decide +kernel

/-- Seven of them are stored, and a blank behind them. -/
theorem blank_behind : ¬∀ t rcs, ContextTable.cleared.runCalls eightPairs = some (t, rcs) →
    ∃ out' text, t.hxContextSnapshotText (Block.zero 1024) = some out' ∧ out'.text = some text ∧
      Whole 1024 (pairsAfter eightPairs) text := by
  intro h
  obtain ⟨t, ctx, hrun, -⟩ := ContextTable.calls_held_cleared eightPairs
  obtain ⟨out', text, hsnap, htext, hwhole⟩ := h t _ hrun
  obtain ⟨stored, hsnap', htext'⟩ := ContextTable.snapshot_stored (pairsAfter_held hrun) (by decide) (Block.zero 1024)
  have hsame : out' = stored := Option.some.inj (hsnap.symm.trans hsnap')
  rw [hsame, htext'] at htext
  rw [← Option.some.inj htext] at hwhole
  obtain ⟨hlen, htotal, hfirst⟩ := eightPairs_lengths
  rcases (snapshotLoop_whole_iff (by decide) _).mp hwhole with hnil | hroom | hlong
  · rw [hnil] at hlen
    cases hlen
  · omega
  · omega

end HxClog
