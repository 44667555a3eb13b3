import HxClog.Context
import HxClog.Lib.Block
import HxClog.Lib.OrderedMap

/-!
# The table of the diagnostic context

The pairs of a thread stand in two arrays of rows. A key or value that is too long for its
row is cut, and removing a pair moves the rows behind it up, string by string.
-/

namespace HxClog

open C

/-- `hx_context_state_t` with its arrays. -/
structure ContextTable where
  count : Nat
  keys : List (Block contextKeyMax)
  values : List (Block contextValueMax)

namespace ContextTable

/-- `memset(&g_tls_context, 0, sizeof(g_tls_context))` -/
def cleared : ContextTable :=
  ⟨0, List.replicate contextMaxItems (Block.zero contextKeyMax), List.replicate contextMaxItems (Block.zero contextValueMax)⟩

/-- The loop of `context_key_index` over the rows in use. -/
def contextKeyIndex (t : ContextTable) (key : CStr) : Option Nat :=
  if key.bytes = [] then none
  else (t.keys.take t.count).findIdx? fun row => strncmpEq (contextKeyMax - 1) row.bytes key.bytes

/-- `strncpy` to a row, whose last byte is set to NUL. -/
def storeRow {cap : Nat} (rows : List (Block cap)) (idx : Nat) (s : CStr) : Option (List (Block cap)) := do
  let row ← rows[idx]?
  let row ← row.strncpy s (cap - 1)
  let row ← row.write (cap - 1) [0]
  some (rows.set idx row)

/-- `strcpy` from the next row. -/
def copyRow {cap : Nat} (rows : List (Block cap)) (i : Nat) : Option (List (Block cap)) := do
  let next ← rows[i + 1]?
  let s ← next.text
  let row ← rows[i]?
  let row ← row.strcpy s
  some (rows.set i row)

/-- `hx_clog_context_put`. It has no value where it writes outside the arrays. -/
def hxClogContextPut (t : ContextTable) (key value : Option CStr) : Option (ContextTable × Rc) :=
  match key, value with
  | some k, some v =>
    if k.bytes = [] then some (t, .invalidArgument)
    else
      match t.contextKeyIndex k with
      | some idx => do
        let values ← storeRow t.values idx v
        some ({ t with values }, .ok)
      | none =>
        if contextMaxItems ≤ t.count then some (t, .invalidArgument)
        else do
          let keys ← storeRow t.keys t.count k
          let values ← storeRow t.values t.count v
          some ({ count := t.count + 1, keys, values }, .ok)
  | _, _ => some (t, .invalidArgument)

/-- The pair behind is copied to a row. -/
def shiftRow (t : ContextTable) (i : Nat) : Option ContextTable := do
  let keys ← copyRow t.keys i
  let values ← copyRow t.values i
  some { t with keys, values }

/-- `hx_clog_context_remove` -/
def hxClogContextRemove (t : ContextTable) (key : Option CStr) : Option ContextTable :=
  match key.bind t.contextKeyIndex with
  | some idx => do
    let t ← (List.range' idx (t.count - 1 - idx)).foldlM shiftRow t
    some { t with count := t.count - 1 }
  | none => some t

/-- `hx_clog_context_clear` -/
def hxClogContextClear (_ : ContextTable) : ContextTable := cleared

/-- A call and what it returns, for the calls that return something. -/
def run (t : ContextTable) : ContextCall → Option (ContextTable × Option Rc)
  | .put key value => (t.hxClogContextPut key value).map fun (t, rc) => (t, some rc)
  | .remove key => (t.hxClogContextRemove key).map fun t => (t, none)
  | .clear => some (t.hxClogContextClear, none)

/-! ## The rows in use -/

/-- The strings in the first rows of an array. -/
def Rows {cap : Nat} (rows : List (Block cap)) (texts : List CStr) : Prop :=
  (rows.take texts.length).map Block.text = texts.map fun s => some s.bytes

section
variable {cap : Nat} {rows : List (Block cap)} {texts : List CStr} {row : Block cap} {s : CStr}

theorem Rows.get (h : Rows rows texts) {i : Nat} (hs : texts[i]? = some s) : ∃ row, rows[i]? = some row ∧ row.text = some s.bytes := by
  obtain ⟨hi, -⟩ := List.getElem?_eq_some_iff.mp hs
  have hget := congrArg (fun l => l[i]?) h
  simp only [List.getElem?_map, List.getElem?_take, if_pos hi, hs, Option.map_some, Option.map_eq_some_iff] at hget
  exact hget

theorem Rows.set (h : Rows rows texts) (hrow : row.text = some s.bytes) (i : Nat) : Rows (rows.set i row) (texts.set i s) := by
  unfold Rows at h ⊢
  rw [List.length_set, List.take_set, List.map_set, List.map_set, h, hrow]

theorem Rows.append (h : Rows rows texts) (hroom : texts.length < rows.length) (hrow : row.text = some s.bytes) :
    Rows (rows.set texts.length row) (texts ++ [s]) := by
  unfold Rows at h ⊢
  rw [List.length_append, List.length_singleton, List.take_add_one, List.take_set_of_le (Nat.le_refl _),
    List.getElem?_set_self hroom, Option.toList_some, List.map_append, List.map_append, h, List.map_singleton,
    List.map_singleton, hrow]

theorem storeRow_text (hcap : 0 < cap) {idx : Nat} (hidx : idx < rows.length) (s : CStr) :
    ∃ row, storeRow rows idx s = some (rows.set idx row) ∧ row.text = some (s.cut cap).bytes := by
  obtain ⟨row, hrow⟩ : ∃ row, rows[idx]? = some row := ⟨_, List.getElem?_eq_getElem hidx⟩
  obtain ⟨row₁, row₂, hcopy, hend, htext⟩ := row.strncpy_text hcap s
  refine ⟨row₂, ?_, htext⟩
  unfold storeRow
  simp only [Option.bind_eq_bind, hrow, hcopy, hend, Option.bind_some]

theorem copyRow_text (h : Rows rows texts) {i : Nat} (hs : texts[i + 1]? = some s) :
    ∃ row, copyRow rows i = some (rows.set i row) ∧ row.text = some s.bytes := by
  obtain ⟨next, hnext, htext⟩ := h.get hs
  have hi : i < rows.length := Nat.lt_of_succ_lt (List.getElem?_eq_some_iff.mp hnext).1
  obtain ⟨row, hrow⟩ : ∃ row, rows[i]? = some row := ⟨_, List.getElem?_eq_getElem hi⟩
  obtain ⟨hnul, hlen⟩ := Block.text_noNul htext
  obtain ⟨row', hcopy, hrow'⟩ := row.strcpy_text hnul hlen
  refine ⟨row', ?_, hrow'⟩
  unfold copyRow
  simp only [Option.bind_eq_bind, hnext, htext, hrow, hcopy, Option.bind_some]

theorem Rows.front (h : Rows rows (texts ++ [s])) : Rows rows texts := by
  have hfront := congrArg (List.take texts.length) h
  unfold Rows
  rw [List.length_append, ← List.map_take, List.take_take, Nat.min_eq_left (Nat.le_add_right _ _), List.map_append,
    List.take_left' (List.length_map _)] at hfront
  exact hfront

end

/-- The table holds these pairs. -/
structure Holds (t : ContextTable) (items : List ContextItem) : Prop where
  count : t.count = items.length
  room : items.length ≤ contextMaxItems
  keys_len : t.keys.length = contextMaxItems
  values_len : t.values.length = contextMaxItems
  keys : Rows t.keys (items.map ContextItem.key)
  values : Rows t.values (items.map ContextItem.value)

theorem cleared_holds : cleared.Holds [] := ⟨rfl, Nat.zero_le _, List.length_replicate, List.length_replicate, rfl, rfl⟩

variable {t : ContextTable} {items : List ContextItem}

theorem findIdx?_congr {α : Type*} {p q : α → Bool} {l : List α} (h : ∀ a ∈ l, p a = q a) : l.findIdx? p = l.findIdx? q := by
  induction l with
  | nil => rfl
  | cons a l ih =>
    rw [List.findIdx?_cons, List.findIdx?_cons, h a List.mem_cons_self, ih fun b hb => h b (List.mem_cons_of_mem a hb)]

theorem keyIndex_eq (h : t.Holds items) {key : CStr} (hkey : key.bytes ≠ []) :
    t.contextKeyIndex key = Context.keyIndex items key := by
  have htexts := h.keys
  unfold Rows at htexts
  rw [List.length_map, ← h.count] at htexts
  unfold contextKeyIndex Context.keyIndex
  rw [if_neg hkey]
  let matching : Option Bytes → Bool := fun s => strncmpEq (contextKeyMax - 1) (s.getD []) key.bytes
  have hrows : ∀ row ∈ t.keys.take t.count, strncmpEq (contextKeyMax - 1) row.bytes key.bytes = matching row.text := by
    intro row hrow
    obtain ⟨s, -, hs⟩ := List.mem_map.mp (htexts ▸ List.mem_map_of_mem hrow)
    rw [← hs]
    exact Block.strncmpEq_text hs.symm _ _
  have hfind := findIdx?_congr (q := matching ∘ Block.text) hrows
  rw [hfind, ← List.findIdx?_map, htexts, List.findIdx?_map, List.findIdx?_map]
  rfl

/-! ## Calls on the arrays -/

theorem set_at {α : Type*} (before after : List α) (a b : α) :
    (before ++ a :: after).set before.length b = before ++ b :: after := by
  rw [List.set_append_right _ _ (Nat.le_refl _), Nat.sub_self, List.set_cons_zero]

theorem modify_at {α : Type*} (before after : List α) (a : α) (f : α → α) :
    (before ++ a :: after).modify before.length f = before ++ f a :: after := by
  induction before with
  | nil => rfl
  | cons b before ih => rw [List.cons_append, List.length_cons, List.modify_succ_cons, ih, List.cons_append]

/-- A pair that is found stands between others. -/
theorem keyIndex_split {key : CStr} {i : Nat} (h : Context.keyIndex items key = some i) : ∃ before item after,
    items = before ++ item :: after ∧ before.length = i ∧ strncmpEq (contextKeyMax - 1) item.key.bytes key.bytes = true := by
  obtain ⟨hi, hmatch, -⟩ := List.findIdx?_eq_some_iff_getElem.mp h
  refine ⟨items.take i, items[i], items.drop (i + 1), ?_, List.length_take_of_le hi.le, hmatch⟩
  rw [← List.drop_eq_getElem_cons hi, List.take_append_drop]

/-- What `hx_clog_context_put` returns for a key and a value. -/
theorem put_items (ctx : Context) {k : CStr} (hk : k.bytes ≠ []) (v : CStr) :
    (Context.putItems ctx.items k v = none ∧ ctx.hxClogContextPut (some k) (some v) = (ctx, .invalidArgument)) ∨
      ∃ items, Context.putItems ctx.items k v = some items ∧ (ctx.hxClogContextPut (some k) (some v)).1.items = items ∧
        (ctx.hxClogContextPut (some k) (some v)).2 = .ok := by
  unfold Context.hxClogContextPut
  simp only [if_neg hk]
  split
  · rename_i items h
    exact .inr ⟨items, h, rfl, rfl⟩
  · rename_i h
    exact .inl ⟨h, rfl⟩

/-- The value in its place. -/
theorem replaced_holds {before after : List ContextItem} {item : ContextItem} (h : t.Holds (before ++ item :: after))
    {row : Block contextValueMax} {value : CStr} (hrow : row.text = some value.bytes) :
    { t with values := t.values.set before.length row }.Holds (before ++ { item with value := value } :: after) := by
  have hvalues := h.values.set hrow before.length
  have hkeys := h.keys
  rw [List.map_append, List.map_cons] at hvalues hkeys
  have hlen : (before.map ContextItem.value).length = before.length := List.length_map _
  rw [← hlen, set_at] at hvalues
  refine ⟨?_, ?_, h.keys_len, ?_, ?_, ?_⟩
  · rw [h.count, List.length_append, List.length_append, List.length_cons, List.length_cons]
  · have hroom := h.room
    rwa [List.length_append, List.length_cons] at hroom ⊢
  · rw [List.length_set, h.values_len]
  · rwa [List.map_append, List.map_cons]
  · rw [List.map_append, List.map_cons]
    rwa [hlen] at hvalues

/-- A pair behind the others. -/
theorem appended_holds (h : t.Holds items) (hroom : items.length < contextMaxItems) {krow : Block contextKeyMax}
    {vrow : Block contextValueMax} {key value : CStr} (hkrow : krow.text = some key.bytes) (hvrow : vrow.text = some value.bytes) :
    (⟨t.count + 1, t.keys.set t.count krow, t.values.set t.count vrow⟩ : ContextTable).Holds (items ++ [⟨key, value⟩]) := by
  have hkeys := h.keys.append (by rw [List.length_map, h.keys_len]; exact hroom) hkrow
  have hvalues := h.values.append (by rw [List.length_map, h.values_len]; exact hroom) hvrow
  rw [List.length_map, ← h.count] at hkeys hvalues
  refine ⟨?_, ?_, ?_, ?_, ?_, ?_⟩
  · rw [List.length_append, ← h.count]
    rfl
  · rw [List.length_append]
    exact hroom
  · rw [List.length_set, h.keys_len]
  · rw [List.length_set, h.values_len]
  · rwa [List.map_append, List.map_singleton]
  · rwa [List.map_append, List.map_singleton]

theorem put_holds {ctx : Context} (h : t.Holds ctx.items) (key value : Option CStr) : ∃ t',
    t.hxClogContextPut key value = some (t', (ctx.hxClogContextPut key value).2) ∧
      t'.Holds (ctx.hxClogContextPut key value).1.items := by
  cases key with
  | none => exact ⟨t, rfl, h⟩
  | some k =>
    cases value with
    | none => exact ⟨t, rfl, h⟩
    | some v =>
      unfold hxClogContextPut
      by_cases hk : k.bytes = []
      · simp only [if_pos hk]
        refine ⟨t, ?_, ?_⟩
        all_goals
          unfold Context.hxClogContextPut
          simp only [if_pos hk]
        exact h
      · simp only [if_neg hk, keyIndex_eq h hk]
        have hput := put_items ctx hk v
        unfold Context.putItems at hput
        cases hfind : Context.keyIndex ctx.items k with
        | some i =>
          simp only [hfind] at hput ⊢
          obtain ⟨before, item, after, hitems, rfl, -⟩ := keyIndex_split hfind
          obtain ⟨⟨⟩, -⟩ | ⟨items, ⟨rfl⟩, hstored, hrc⟩ := hput
          rw [hitems] at h
          have hlen := h.room
          rw [List.length_append, List.length_cons] at hlen
          have hidx : before.length < t.values.length := by
            rw [h.values_len]
            omega
          obtain ⟨row, hrow, htext⟩ := storeRow_text (show 0 < contextValueMax by decide) hidx v
          rw [hstored, hrc, hrow, hitems, modify_at]
          exact ⟨_, rfl, replaced_holds h htext⟩
        | none =>
          simp only [hfind] at hput ⊢
          rw [h.count]
          by_cases hfull : contextMaxItems ≤ ctx.items.length
          · rw [if_pos hfull] at hput ⊢
            obtain ⟨-, hsame⟩ | ⟨items, ⟨⟩, -⟩ := hput
            rw [hsame]
            exact ⟨t, rfl, h⟩
          · have hroom := Nat.lt_of_not_le hfull
            rw [if_neg hfull] at hput ⊢
            obtain ⟨⟨⟩, -⟩ | ⟨items, ⟨rfl⟩, hstored, hrc⟩ := hput
            obtain ⟨krow, hkrow, hktext⟩ := storeRow_text (show 0 < contextKeyMax by decide) (by rw [h.keys_len]; exact hroom) k
            obtain ⟨vrow, hvrow, hvtext⟩ := storeRow_text (show 0 < contextValueMax by decide) (by rw [h.values_len]; exact hroom) v
            rw [hstored, hrc, hkrow, Option.bind_eq_bind, Option.bind_some, hvrow]
            have hnew := appended_holds h hroom hktext hvtext
            rw [h.count] at hnew
            exact ⟨_, rfl, hnew⟩

/-- One turn of the loop of `hx_clog_context_remove`. -/
theorem shiftRow_holds {before after : List ContextItem} {item next : ContextItem}
    (h : t.Holds (before ++ item :: next :: after)) :
    ∃ t', shiftRow t before.length = some t' ∧ t'.Holds (before ++ next :: next :: after) := by
  have hnext : (before ++ item :: next :: after)[before.length + 1]? = some next := by
    rw [List.getElem?_append_right (Nat.le_add_right _ 1), Nat.add_sub_cancel_left]
    rfl
  have hkey : ((before ++ item :: next :: after).map ContextItem.key)[before.length + 1]? = some next.key := by
    rw [List.getElem?_map, hnext, Option.map_some]
  have hvalue : ((before ++ item :: next :: after).map ContextItem.value)[before.length + 1]? = some next.value := by
    rw [List.getElem?_map, hnext, Option.map_some]
  obtain ⟨krow, hkrow, hktext⟩ := copyRow_text h.keys hkey
  obtain ⟨vrow, hvrow, hvtext⟩ := copyRow_text h.values hvalue
  have hkeys := h.keys.set hktext before.length
  have hvalues := h.values.set hvtext before.length
  rw [← List.map_set, set_at] at hkeys hvalues
  refine ⟨{ t with keys := t.keys.set before.length krow, values := t.values.set before.length vrow }, ?_, ?_⟩
  · unfold shiftRow
    simp only [Option.bind_eq_bind, hkrow, hvrow, Option.bind_some]
  · have hlen : (before ++ next :: next :: after).length = (before ++ item :: next :: after).length := by simp
    refine ⟨h.count.trans hlen.symm, hlen ▸ h.room, ?_, ?_, hkeys, hvalues⟩
    · rw [List.length_set, h.keys_len]
    · rw [List.length_set, h.values_len]

/-- The loop moves all pairs behind the removed one up, and leaves the last row as it was. -/
theorem shift_holds : ∀ (after before : List ContextItem) (item : ContextItem) {t : ContextTable},
    t.Holds (before ++ item :: after) → ∃ t' last, (List.range' before.length after.length).foldlM shiftRow t = some t' ∧
      t'.Holds (before ++ after ++ [last])
  | [], before, item, t, h => ⟨t, item, rfl, by rwa [List.append_nil]⟩
  | next :: after, before, item, t, h => by
    obtain ⟨t₁, hstep, h₁⟩ := shiftRow_holds h
    rw [List.append_cons] at h₁
    obtain ⟨t', last, hloop, h'⟩ := shift_holds after (before ++ [next]) next h₁
    rw [List.length_append, List.length_singleton] at hloop
    refine ⟨t', last, ?_, ?_⟩
    · rw [List.length_cons, List.range'_succ, List.foldlM_cons, hstep]
      exact hloop
    · rwa [List.append_cons before next after]

theorem Holds.front {last : ContextItem} (h : t.Holds (items ++ [last])) : { t with count := t.count - 1 }.Holds items := by
  have hcount := h.count
  have hroom := h.room
  have hkeys := h.keys
  have hvalues := h.values
  rw [List.length_append, List.length_singleton] at hcount hroom
  rw [List.map_append, List.map_singleton] at hkeys hvalues
  refine ⟨?_, by omega, h.keys_len, h.values_len, hkeys.front, hvalues.front⟩
  change t.count - 1 = _
  omega

theorem remove_holds {ctx : Context} (h : t.Holds ctx.items) (key : Option CStr) : ∃ t',
    t.hxClogContextRemove key = some t' ∧ t'.Holds (ctx.hxClogContextRemove key).items := by
  cases key with
  | none => exact ⟨t, rfl, h⟩
  | some k =>
    unfold hxClogContextRemove Context.hxClogContextRemove
    simp only [Option.bind_some]
    by_cases hk : k.bytes = []
    · have hnone : t.contextKeyIndex k = none := if_pos hk
      rw [hnone, if_pos hk]
      exact ⟨t, rfl, h⟩
    · rw [keyIndex_eq h hk, if_neg hk]
      cases hfind : Context.keyIndex ctx.items k with
      | none => exact ⟨t, rfl, h⟩
      | some i =>
        obtain ⟨before, item, after, hitems, rfl, -⟩ := keyIndex_split hfind
        have hlen : t.count - 1 - before.length = after.length := by
          rw [h.count, hitems, List.length_append, List.length_cons]
          omega
        have herase : ctx.items.eraseIdx before.length = before ++ after := by
          rw [hitems, List.eraseIdx_append_of_length_le (Nat.le_refl _), Nat.sub_self]
          rfl
        rw [hitems] at h
        obtain ⟨t', last, hloop, h'⟩ := shift_holds after before item h
        simp only [hlen, Option.bind_eq_bind, hloop, Option.bind_some, herase]
        exact ⟨_, rfl, h'.front⟩

/-- What a call returns, if it returns something. -/
def returned (ctx : Context) : ContextCall → Option Rc
  | .put key value => some (ctx.hxClogContextPut key value).2
  | .remove _ => none
  | .clear => none

/-- The table does what the list of pairs does. -/
theorem run_holds {ctx : Context} (h : t.Holds ctx.items) (call : ContextCall) : ∃ t',
    t.run call = some (t', returned ctx call) ∧ t'.Holds (call.run ctx).items := by
  cases call with
  | put key value =>
    obtain ⟨t', hput, h'⟩ := put_holds h key value
    refine ⟨t', ?_, h'⟩
    change (t.hxClogContextPut key value).map _ = _
    rw [hput]
    rfl
  | remove key =>
    obtain ⟨t', hremove, h'⟩ := remove_holds h key
    refine ⟨t', ?_, h'⟩
    change (t.hxClogContextRemove key).map _ = _
    rw [hremove]
    rfl
  | clear => exact ⟨cleared, rfl, cleared_holds⟩

/-! ## The map -/

/-- What the calls do to a map from keys cut to their rows to values cut to theirs. -/
def mapRun (m : OrderedMap CStr CStr contextMaxItems) : ContextCall → OrderedMap CStr CStr contextMaxItems × Option Rc
  | .put (some k) (some v) =>
    if k.bytes = [] then (m, some .invalidArgument)
    else
      match m.put (k.cut contextKeyMax) (v.cut contextValueMax) with
      | some m => (m, some .ok)
      | none => (m, some .invalidArgument)
  | .put _ _ => (m, some .invalidArgument)
  | .remove (some k) => (m.remove (k.cut contextKeyMax), none)
  | .remove none => (m, none)
  | .clear => (.empty _ _ _, none)

def pairOf (i : ContextItem) : CStr × CStr := (i.key, i.value)

/-- The list of pairs is the map, and no key is empty or too long for its row. -/
structure Mirrors (ctx : Context) (m : OrderedMap CStr CStr contextMaxItems) : Prop where
  entries : m.entries = ctx.items.map pairOf
  keys : ∀ i ∈ ctx.items, i.key.bytes ≠ [] ∧ i.key.bytes.length < contextKeyMax

theorem cut_key {k : CStr} (hk : k.bytes ≠ []) : (k.cut contextKeyMax).bytes ≠ [] ∧ (k.cut contextKeyMax).bytes.length < contextKeyMax := by
  constructor
  · intro hnil
    change k.bytes.take 63 = [] at hnil
    rw [List.take_eq_nil_iff] at hnil
    rcases hnil with h | h
    · cases h
    · exact hk h
  · change (cut contextKeyMax k.bytes).length < contextKeyMax
    rw [cut_length]
    have : contextKeyMax = 64 := rfl
    omega

/-- A stored key is found for every key that is cut to it. -/
theorem matches_iff {i : ContextItem} (hi : i.key.bytes.length < contextKeyMax) (k : CStr) :
    strncmpEq (contextKeyMax - 1) i.key.bytes k.bytes = true ↔ i.key = k.cut contextKeyMax := by
  rw [strncmpEq_take i.key.noNul k.noNul, List.take_of_length_le (by omega), CStr.eq_iff]
  rfl

variable {ctx : Context} {m : OrderedMap CStr CStr contextMaxItems}

theorem mirrors_keys (h : Mirrors ctx m) : m.entries.map Prod.fst = ctx.items.map ContextItem.key := by
  rw [h.entries, List.map_map]
  rfl

theorem keyIndex_none (h : Mirrors ctx m) {k : CStr} (hfind : Context.keyIndex ctx.items k = none) :
    k.cut contextKeyMax ∉ m.entries.map Prod.fst := by
  rw [mirrors_keys h]
  intro hmem
  obtain ⟨i, hi, hki⟩ := List.mem_map.mp hmem
  have hno := List.findIdx?_eq_none_iff.mp hfind i hi
  rw [(matches_iff (h.keys i hi).2 k).mpr hki] at hno
  cases hno

/-- Where a pair is found the map has its key, and nowhere else. -/
theorem found_split (h : Mirrors ctx m) {k : CStr} {i : Nat} (hfind : Context.keyIndex ctx.items k = some i) :
    ∃ before item after, ctx.items = before ++ item :: after ∧ before.length = i ∧ item.key = k.cut contextKeyMax ∧
      m.entries = before.map pairOf ++ (k.cut contextKeyMax, item.value) :: after.map pairOf := by
  obtain ⟨before, item, after, hitems, hi, hmatch⟩ := keyIndex_split hfind
  have hmem : item ∈ ctx.items := hitems ▸ List.mem_append_right _ List.mem_cons_self
  have hkey := (matches_iff (h.keys item hmem).2 k).mp hmatch
  refine ⟨before, item, after, hitems, hi, hkey, ?_⟩
  rw [h.entries, hitems, List.map_append, List.map_cons, pairOf, hkey]

theorem put_mirrors (h : Mirrors ctx m) (key value : Option CStr) :
    (mapRun m (.put key value)).2 = some (ctx.hxClogContextPut key value).2 ∧
      Mirrors (ctx.hxClogContextPut key value).1 (mapRun m (.put key value)).1 := by
  cases key with
  | none => exact ⟨rfl, h⟩
  | some k =>
    cases value with
    | none => exact ⟨rfl, h⟩
    | some v =>
      unfold mapRun
      by_cases hk : k.bytes = []
      · have hput : ctx.hxClogContextPut (some k) (some v) = (ctx, .invalidArgument) := by
          unfold Context.hxClogContextPut
          simp only [if_pos hk]
        rw [hput]
        simp only [if_pos hk]
        exact ⟨trivial, h⟩
      · simp only [if_neg hk]
        have hput := put_items ctx hk v
        unfold Context.putItems at hput
        cases hfind : Context.keyIndex ctx.items k with
        | some i =>
          simp only [hfind] at hput
          obtain ⟨before, item, after, hitems, rfl, hkey, hentries⟩ := found_split h hfind
          obtain ⟨⟨⟩, -⟩ | ⟨items, ⟨rfl⟩, hstored, hrc⟩ := hput
          rw [hitems, modify_at] at hstored
          have hdistinct := m.distinct
          have hthere : k.cut contextKeyMax ∈ m.entries.map Prod.fst := by
            rw [hentries, List.map_append, List.map_cons]
            exact List.mem_append_right _ List.mem_cons_self
          obtain ⟨m', hm', hnew⟩ := m.put_there hthere (v.cut contextValueMax)
          rw [hentries] at hdistinct hnew
          rw [OrderedMap.replaced_at hdistinct] at hnew
          rw [hm', hrc]
          refine ⟨rfl, ?_, fun j hj => ?_⟩
          · rw [hstored, hnew, List.map_append, List.map_cons, pairOf, hkey]
          · rw [hstored, List.mem_append, List.mem_cons] at hj
            have hold : ∀ j, j ∈ before ∨ j = item ∨ j ∈ after → j.key.bytes ≠ [] ∧ j.key.bytes.length < contextKeyMax := by
              intro j hj
              refine h.keys j ?_
              rwa [hitems, List.mem_append, List.mem_cons]
            rcases hj with hj | rfl | hj
            · exact hold j (.inl hj)
            · exact hold item (.inr (.inl rfl))
            · exact hold j (.inr (.inr hj))
        | none =>
          simp only [hfind] at hput
          have habsent := keyIndex_none h hfind
          have hlen : m.entries.length = ctx.items.length := by rw [h.entries, List.length_map]
          by_cases hfull : contextMaxItems ≤ ctx.items.length
          · rw [if_pos hfull] at hput
            obtain ⟨-, hsame⟩ | ⟨items, ⟨⟩, -⟩ := hput
            rw [hsame, m.put_full habsent (hlen ▸ hfull)]
            exact ⟨rfl, h⟩
          · rw [if_neg hfull] at hput
            obtain ⟨⟨⟩, -⟩ | ⟨items, ⟨rfl⟩, hstored, hrc⟩ := hput
            obtain ⟨m', hm', hnew⟩ := m.put_new habsent (hlen ▸ Nat.lt_of_not_le hfull) (v.cut contextValueMax)
            rw [hm', hrc]
            refine ⟨rfl, ?_, fun j hj => ?_⟩
            · rw [hstored, hnew, List.map_append, h.entries]
              rfl
            · rw [hstored, List.mem_append, List.mem_singleton] at hj
              rcases hj with hj | rfl
              · exact h.keys j hj
              · exact cut_key hk

theorem remove_mirrors (h : Mirrors ctx m) (key : Option CStr) :
    Mirrors (ctx.hxClogContextRemove key) (mapRun m (.remove key)).1 := by
  cases key with
  | none => exact h
  | some k =>
    unfold mapRun Context.hxClogContextRemove
    simp only
    by_cases hk : k.bytes = []
    · have habsent : k.cut contextKeyMax ∉ m.entries.map Prod.fst := by
        rw [mirrors_keys h]
        intro hmem
        obtain ⟨i, hi, hki⟩ := List.mem_map.mp hmem
        refine (h.keys i hi).1 ?_
        rw [hki]
        change k.bytes.take _ = []
        rw [hk, List.take_nil]
      rw [if_pos hk]
      exact ⟨(OrderedMap.removed_absent habsent).trans h.entries, h.keys⟩
    · rw [if_neg hk]
      cases hfind : Context.keyIndex ctx.items k with
      | none => exact ⟨(OrderedMap.removed_absent (keyIndex_none h hfind)).trans h.entries, h.keys⟩
      | some i =>
        obtain ⟨before, item, after, hitems, rfl, -, hentries⟩ := found_split h hfind
        have hdistinct := m.distinct
        rw [hentries] at hdistinct
        have herase : ctx.items.eraseIdx before.length = before ++ after := by
          rw [hitems, List.eraseIdx_append_of_length_le (Nat.le_refl _), Nat.sub_self]
          rfl
        refine ⟨?_, fun j hj => h.keys j (List.eraseIdx_subset hj)⟩
        change (m.entries.filter fun e => e.1 ≠ k.cut contextKeyMax) = (ctx.items.eraseIdx before.length).map pairOf
        rw [hentries, OrderedMap.removed_at hdistinct, herase, List.map_append]

theorem run_mirrors (h : Mirrors ctx m) (call : ContextCall) :
    (mapRun m call).2 = returned ctx call ∧ Mirrors (call.run ctx) (mapRun m call).1 := by
  cases call with
  | put key value => exact put_mirrors h key value
  | remove key =>
    refine ⟨?_, remove_mirrors h key⟩
    cases key with
    | none => rfl
    | some k => rfl
  | clear => exact ⟨rfl, rfl, fun i hi => by cases hi⟩

/-! ## Runs -/

/-- The table after the calls, and what they returned. -/
def runCalls (t : ContextTable) : List ContextCall → Option (ContextTable × List (Option Rc))
  | [] => some (t, [])
  | call :: calls => do
    let (t, rc) ← t.run call
    let (t, rcs) ← t.runCalls calls
    some (t, rc :: rcs)

def mapCalls (m : OrderedMap CStr CStr contextMaxItems) : List ContextCall → OrderedMap CStr CStr contextMaxItems × List (Option Rc)
  | [] => (m, [])
  | call :: calls => ((mapCalls (mapRun m call).1 calls).1, (mapRun m call).2 :: (mapCalls (mapRun m call).1 calls).2)

/-- The table holds the entries of the map, in their order, in its first rows. -/
structure Represents (t : ContextTable) (m : OrderedMap CStr CStr contextMaxItems) : Prop where
  count : t.count = m.entries.length
  keys : Rows t.keys (m.entries.map Prod.fst)
  values : Rows t.values (m.entries.map Prod.snd)

theorem Holds.represents (h : t.Holds ctx.items) (hm : Mirrors ctx m) : t.Represents m := by
  refine ⟨?_, ?_, ?_⟩
  · rw [h.count, hm.entries, List.length_map]
  · rw [mirrors_keys hm]
    exact h.keys
  · rw [hm.entries, List.map_map]
    exact h.values

theorem calls_held (calls : List ContextCall) {t : ContextTable} {ctx : Context} {m : OrderedMap CStr CStr contextMaxItems}
    (h : t.Holds ctx.items) (hm : Mirrors ctx m) : ∃ t' ctx', t.runCalls calls = some (t', (mapCalls m calls).2) ∧
      t'.Holds ctx'.items ∧ Mirrors ctx' (mapCalls m calls).1 := by
  induction calls generalizing t ctx m with
  | nil => exact ⟨t, ctx, rfl, h, hm⟩
  | cons call calls ih =>
    obtain ⟨t₁, hrun, h₁⟩ := run_holds h call
    obtain ⟨hrc, hm₁⟩ := run_mirrors hm call
    obtain ⟨t', ctx', hcalls, h', hm'⟩ := ih h₁ hm₁
    refine ⟨t', ctx', ?_, h', hm'⟩
    unfold runCalls
    simp only [Option.bind_eq_bind, hrun, hcalls, Option.bind_some]
    rw [mapCalls, hrc]

/-- The same from an empty context on. -/
theorem calls_held_cleared (calls : List ContextCall) :
    ∃ t ctx, cleared.runCalls calls = some (t, (mapCalls (.empty CStr CStr contextMaxItems) calls).2) ∧
      t.Holds ctx.items ∧ Mirrors ctx (mapCalls (.empty CStr CStr contextMaxItems) calls).1 := by
  have h : cleared.Holds Context.empty.items := cleared_holds
  have hm : Mirrors Context.empty (.empty CStr CStr contextMaxItems) := ⟨rfl, fun i hi => by cases hi⟩
  exact calls_held calls h hm

/-- Every sequence of calls does to the table of a thread what it does to the map, and returns the same. -/
theorem context_refines (calls : List ContextCall) :
    ∃ t, cleared.runCalls calls = some (t, (mapCalls (.empty CStr CStr contextMaxItems) calls).2) ∧
      t.Represents (mapCalls (.empty CStr CStr contextMaxItems) calls).1 := by
  obtain ⟨t, ctx, hrun, h, hm⟩ := calls_held_cleared calls
  exact ⟨t, hrun, h.represents hm⟩

end ContextTable

end HxClog
