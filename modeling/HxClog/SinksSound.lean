import HxClog.Routing

/-!
# The sink table is kept in order

Whatever is called, the first `sink_count` slots are filled, the ids of the sinks in
them are distinct and none is zero, and the sinks with an override are counted. So a
record that is dispatched reaches every sink that wants it once, in its own format.
-/

namespace HxClog

open C Slots

namespace Core

/-! ## What emitting changes -/

/-- Operations on sinks, and lines counted. -/
def written (c : Core) (ops : List Op) (n : Nat) : Core :=
  { c with ops := c.ops ++ ops, writtenLines := c.writtenLines + n }

def emitOps (t : Table Sink) (l : Line) : List Op := (t.live.filter (routes l.target)).flatMap (hxSinkWrite l.level l.bytes)

theorem emit_written (c : Core) (l : Line) :
    c.hxCoreEmitToSinks l = c.written (emitOps c.table l) (if l.countStats then 1 else 0) := by
  unfold hxCoreEmitToSinks
  split <;> rfl

theorem emits_written : ∀ (ls : List Line) (c : Core),
    ls.foldl hxCoreEmitToSinks c = c.written (ls.flatMap (emitOps c.table)) (ls.countP Line.countStats)
  | [], c => by simp [written]
  | l :: ls, c => by
    have ih := emits_written ls (c.written (emitOps c.table l) (if l.countStats then 1 else 0))
    rw [List.foldl_cons, emit_written, ih]
    simp only [written, List.flatMap_cons, List.append_assoc, List.countP_cons, Nat.add_assoc]
    rw [Nat.add_comm (if l.countStats then 1 else 0)]

theorem flush_written (c : Core) (ls : List Line) :
    ∃ ops n, c.hxClogFlush ls = c.written ops n := by
  unfold hxClogFlush
  split
  · exact ⟨[], 0, by simp [written]⟩
  · rw [emits_written]
    refine ⟨ls.flatMap (emitOps c.table) ++ c.table.live.map fun s => .flush s.obj, ls.countP Line.countStats, ?_⟩
    unfold hxCoreFlushSinks log written
    simp only [List.append_assoc]

/-! ## Adding a sink -/

/-- A sink as it is in the table right after it was added. -/
def fresh (obj : Nat) (kind : SinkKind) (id : Nat) : Sink :=
  { obj := obj, kind := kind, id := id, minLevel := levelTrace, overrideSet := false, overrideMode := .pattern,
    overrideHasPattern := false, overridePattern := .empty, isOpen := kind = .file }

theorem newSink_eq (c : Core) (kind : SinkKind) :
    c.newSink kind = ({ c with created := c.created + 1 }, fresh c.created kind 0) := rfl

theorem addSinkLocked_full {c : Core} (h : maxSinks ≤ c.table.count) (s : Sink) :
    c.addSinkLocked s = (c.log [.handed s.obj, .close s.obj], .invalidArgument) := by
  unfold addSinkLocked
  simp only
  rw [if_pos (show maxSinks ≤ (c.log [.handed s.obj]).table.count from h)]
  simp [log]

/-- The state after an object was handed over and found room. -/
def added (c : Core) (obj : Nat) (kind : SinkKind) : Core :=
  { c.takeSinkId.1 with ops := c.ops ++ [.handed obj], table := c.table.push (fresh obj kind c.nextSinkId) }

theorem addSinkLocked_room {c : Core} (h : c.table.count < maxSinks) (obj : Nat) (kind : SinkKind) :
    c.addSinkLocked (fresh obj kind 0) = (c.added obj kind, .ok) := by
  unfold addSinkLocked
  exact if_neg (show ¬maxSinks ≤ (c.log [.handed obj]).table.count from Nat.not_le.mpr h)

/-- Adding touches the table and the counters alone. -/
theorem addSinkLocked_frame (c : Core) (obj : Nat) (kind : SinkKind) :
    ∃ t id ops, (c.addSinkLocked (fresh obj kind 0)).1 = { c with table := t, nextSinkId := id, ops := ops } := by
  by_cases hfull : maxSinks ≤ c.table.count
  · exact ⟨c.table, c.nextSinkId, _, by rw [addSinkLocked_full hfull]; rfl⟩
  · exact ⟨_, _, _, by rw [addSinkLocked_room (Nat.lt_of_not_le hfull)]; rfl⟩

theorem addNew_frame (c : Core) (kind : SinkKind) (made : Bool) :
    ∃ t id ops n, (c.addNew kind made).1 = { c with table := t, nextSinkId := id, ops := ops, created := n } := by
  unfold addNew
  cases made with
  | false => exact ⟨c.table, c.nextSinkId, c.ops, c.created, rfl⟩
  | true =>
    simp only [not_true_eq_false, if_false, newSink_eq]
    obtain ⟨t, id, ops, h⟩ := addSinkLocked_frame { c with created := c.created + 1 } c.created kind
    exact ⟨t, id, ops, c.created + 1, by rw [h]⟩

/-- The settings that every writing thread reads, which a change of the table leaves alone. -/
def settings (c : Core) : FmtCache × Bool × Level × Mode := (c.snapshot, c.initialized, c.level, c.mode)

theorem addNew_initialized (c : Core) (kind : SinkKind) (made : Bool) :
    (c.addNew kind made).1.initialized = c.initialized := by
  obtain ⟨t, id, ops, n, h⟩ := c.addNew_frame kind made
  rw [h]

theorem addNew_settings (c : Core) (kind : SinkKind) (made : Bool) : (c.addNew kind made).1.settings = c.settings := by
  obtain ⟨t, id, ops, n, h⟩ := addNew_frame c kind made
  rw [h]
  rfl

/-! ## The invariant -/

/-- The table is in order, and `spare` objects were made and not added yet. -/
structure Slotted (c : Core) (spare : Nat) : Prop where
  holds : c.table.Holds c.table.live
  room : c.table.count ≤ maxSinks
  objs : (c.table.live.map Sink.obj).Nodup
  made : ∀ s ∈ c.table.live, s.obj < c.created
  next_pos : c.created < 2 ^ 32 - 1 → 0 < c.nextSinkId
  next_le : c.created < 2 ^ 32 - 1 → c.nextSinkId + spare ≤ c.created + 1
  ids : c.created < 2 ^ 32 - 1 → ∀ s ∈ c.table.live, 0 < s.id ∧ s.id < c.nextSinkId
  distinct : c.created < 2 ^ 32 - 1 → (c.table.live.map Sink.id).Nodup

variable {c : Core} {spare : Nat}

theorem Slotted.congr {c' : Core} (h : c.Slotted spare) (ht : c'.table = c.table) (hn : c'.nextSinkId = c.nextSinkId)
    (hc : c'.created = c.created) : c'.Slotted spare := by
  constructor
  · rw [ht]; exact h.holds
  · rw [ht]; exact h.room
  · rw [ht]; exact h.objs
  · rw [ht, hc]; exact h.made
  · rw [hn, hc]; exact h.next_pos
  · rw [hn, hc]; exact h.next_le
  · rw [ht, hn, hc]; exact h.ids
  · rw [ht, hc]; exact h.distinct

theorem Slotted.spend (h : c.Slotted (spare + 1)) : c.Slotted spare :=
  { h with next_le := fun hc => by have := h.next_le hc; omega }

/-- Changing the table to one with some of its sinks, in order, which may have changed but for ids and objects. -/
theorem Slotted.table {t : Table Sink} {l : List Sink} (h : c.Slotted spare) (ht : t.Holds l)
    (hobj : (l.map Sink.obj).Sublist (c.table.live.map Sink.obj))
    (hid : (l.map Sink.id).Sublist (c.table.live.map Sink.id)) : { c with table := t }.Slotted spare := by
  have hlive : t.live = l := ht.live
  have hcount : l.length ≤ c.table.live.length := by
    have := hobj.length_le
    rwa [List.length_map, List.length_map] at this
  constructor
  · show t.Holds t.live
    rw [hlive]; exact ht
  · show t.count ≤ maxSinks
    have hroom := h.room
    have hc := h.holds.1
    have := ht.1
    omega
  · show (t.live.map Sink.obj).Nodup
    rw [hlive]; exact h.objs.sublist hobj
  · show ∀ s ∈ t.live, s.obj < c.created
    rw [hlive]
    intro s hs
    obtain ⟨s', hs', he⟩ := List.mem_map.mp (hobj.subset (List.mem_map_of_mem hs))
    rw [← he]
    exact h.made s' hs'
  · exact h.next_pos
  · exact h.next_le
  · show c.created < 2 ^ 32 - 1 → ∀ s ∈ t.live, 0 < s.id ∧ s.id < c.nextSinkId
    rw [hlive]
    intro hc s hs
    obtain ⟨s', hs', he⟩ := List.mem_map.mp (hid.subset (List.mem_map_of_mem hs))
    rw [← he]
    exact h.ids hc s' hs'
  · show c.created < 2 ^ 32 - 1 → (t.live.map Sink.id).Nodup
    rw [hlive]
    exact fun hc => (h.distinct hc).sublist hid

theorem Slotted.newSink (h : c.Slotted spare) (kind : SinkKind) : (c.newSink kind).1.Slotted (spare + 1) := by
  have hlt : c.created + 1 < 2 ^ 32 - 1 → c.created < 2 ^ 32 - 1 := fun hc => by omega
  constructor
  · exact h.holds
  · exact h.room
  · exact h.objs
  · exact fun s hs => Nat.lt_succ_of_lt (h.made s hs)
  · exact fun hc => h.next_pos (hlt hc)
  · intro hc
    have := h.next_le (hlt hc)
    show c.nextSinkId + (spare + 1) ≤ c.created + 1 + 1
    omega
  · exact fun hc => h.ids (hlt hc)
  · exact fun hc => h.distinct (hlt hc)

/-- Ids are not given twice before they wrap around. -/
theorem takeSinkId_next {c : Core} (h : c.nextSinkId + 1 < 2 ^ 32) : c.takeSinkId.1.nextSinkId = c.nextSinkId + 1 := by
  unfold takeSinkId
  simp only [u32_of_lt h]
  rw [if_neg (by omega)]

theorem Slotted.addSinkLocked (h : c.Slotted (spare + 1)) {obj : Nat} (kind : SinkKind) (hmade : obj < c.created)
    (hnew : ∀ s ∈ c.table.live, s.obj ≠ obj) : (c.addSinkLocked (fresh obj kind 0)).1.Slotted spare := by
  by_cases hfull : maxSinks ≤ c.table.count
  · rw [addSinkLocked_full hfull]
    exact h.spend.congr rfl rfl rfl
  · have hroom : c.table.count < maxSinks := Nat.lt_of_not_le hfull
    have hpush := h.holds.push (fresh obj kind c.nextSinkId)
    have hlive := hpush.live
    have hnext (hc : c.created < 2 ^ 32 - 1) : c.takeSinkId.1.nextSinkId = c.nextSinkId + 1 := by
      have := h.next_le hc
      exact takeSinkId_next (by omega)
    rw [addSinkLocked_room hroom]
    constructor
    · show (c.table.push (fresh obj kind c.nextSinkId)).Holds (c.table.push (fresh obj kind c.nextSinkId)).live
      rw [hlive]; exact hpush
    · exact hroom
    · show ((c.table.push (fresh obj kind c.nextSinkId)).live.map Sink.obj).Nodup
      rw [hlive, List.map_append, List.nodup_append]
      refine ⟨h.objs, List.nodup_singleton _, fun a ha b hb => ?_⟩
      obtain ⟨s, hs, rfl⟩ := List.mem_map.mp ha
      rw [List.mem_singleton.mp hb]
      exact hnew s hs
    · show ∀ s ∈ (c.table.push (fresh obj kind c.nextSinkId)).live, s.obj < c.created
      rw [hlive]
      intro s hs
      rcases List.mem_append.mp hs with hs | hs
      · exact h.made s hs
      · rw [List.mem_singleton.mp hs]
        exact hmade
    · intro hc
      show 0 < c.takeSinkId.1.nextSinkId
      rw [hnext hc]
      exact Nat.succ_pos _
    · intro hc
      show c.takeSinkId.1.nextSinkId + spare ≤ c.created + 1
      rw [hnext hc]
      have := h.next_le hc
      omega
    · show c.created < 2 ^ 32 - 1 → ∀ s ∈ (c.table.push (fresh obj kind c.nextSinkId)).live,
        0 < s.id ∧ s.id < c.takeSinkId.1.nextSinkId
      intro hc s hs
      rw [hlive] at hs
      rw [hnext hc]
      rcases List.mem_append.mp hs with hs | hs
      · have := h.ids hc s hs
        omega
      · rw [List.mem_singleton.mp hs]
        exact ⟨h.next_pos hc, Nat.lt_succ_self _⟩
    · show c.created < 2 ^ 32 - 1 → ((c.table.push (fresh obj kind c.nextSinkId)).live.map Sink.id).Nodup
      intro hc
      rw [hlive, List.map_append, List.nodup_append]
      refine ⟨h.distinct hc, List.nodup_singleton _, fun a ha b hb => ?_⟩
      obtain ⟨s, hs, rfl⟩ := List.mem_map.mp ha
      rw [List.mem_singleton.mp hb]
      exact Nat.ne_of_lt (h.ids hc s hs).2

theorem Slotted.addNew (h : c.Slotted spare) (kind : SinkKind) (made : Bool) : (c.addNew kind made).1.Slotted spare := by
  unfold Core.addNew
  split
  · exact h
  · refine (h.newSink kind).addSinkLocked kind (Nat.lt_succ_self _) fun s hs => ?_
    exact Nat.ne_of_lt (h.made s hs)

theorem Slotted.emits (h : c.Slotted spare) (ls : List Line) : (ls.foldl hxCoreEmitToSinks c).Slotted spare := by
  rw [emits_written]
  exact h.congr rfl rfl rfl

theorem Slotted.flush (h : c.Slotted spare) (ls : List Line) : (c.hxClogFlush ls).Slotted spare := by
  obtain ⟨ops, n, hw⟩ := flush_written c ls
  rw [hw]
  exact h.congr rfl rfl rfl

theorem Slotted.closeNonCallback (h : c.Slotted spare) : c.closeNonCallbackSinksLocked.Slotted spare := by
  have hkept := (h.holds.compact fun s : Sink => s.kind ≠ .callback).1
  have hsub := (List.filter_sublist (l := c.table.live) (p := fun s : Sink => !decide (s.kind ≠ .callback)))
  exact (h.table hkept (hsub.map _) (hsub.map _)).congr rfl rfl rfl

theorem Slotted.removeSink (h : c.Slotted spare) (id : Nat) : (c.hxClogRemoveSink id).1.Slotted spare := by
  unfold hxClogRemoveSink
  split
  · rename_i i hf
    obtain ⟨hi, -⟩ := h.holds.find_some hf
    have hsub := List.eraseIdx_sublist c.table.live i
    exact (h.table (h.holds.removeAt hi) (hsub.map _) (hsub.map _)).congr rfl rfl rfl
  · exact h

/-- A change of one sink that keeps its id and its object. -/
theorem map_modify {β : Type} (g : Sink → β) (f : Sink → Sink) (hf : ∀ s, g (f s) = g s) : ∀ (l : List Sink) (i : Nat),
    (l.modify i f).map g = l.map g
  | [], i => by cases i <;> rfl
  | a :: l, 0 => by simp [hf]
  | a :: l, i + 1 => by
    have ih := map_modify g f hf l i
    simp [ih]

theorem Slotted.modify (h : c.Slotted spare) (i : Nat) (f : Sink → Sink) (hobj : ∀ s, (f s).obj = s.obj)
    (hid : ∀ s, (f s).id = s.id) : { c with table := c.table.modify i f }.Slotted spare := by
  refine h.table (h.holds.modify i f) ?_ ?_
  · rw [map_modify Sink.obj f hobj]
  · rw [map_modify Sink.id f hid]

theorem Slotted.changeSink (h : c.Slotted spare) (id : Nat) (f : Sink → Sink) (hobj : ∀ s, (f s).obj = s.obj)
    (hid : ∀ s, (f s).id = s.id) : (c.changeSink id f).1.Slotted spare := by
  unfold Core.changeSink
  split
  · exact h.modify _ f hobj hid
  · exact h

theorem changeOverride_slotted (h : c.Slotted spare) (id : Nat) (f : Sink → Sink) (hobj : ∀ s, (f s).obj = s.obj)
    (hid : ∀ s, (f s).id = s.id) : (c.changeOverride id f).1.Slotted spare := by
  have hchanged := h.changeSink id f hobj hid
  unfold changeOverride
  split
  · rename_i c' he
    rw [he] at hchanged
    exact hchanged.congr rfl rfl rfl
  · exact hchanged

theorem Slotted.addConsole (h : c.Slotted spare) (cfg : Config) (o : Outside) : (c.addConsole cfg o).Slotted spare := by
  unfold Core.addConsole
  split
  · exact h.addNew _ _
  · exact h

theorem Slotted.addFile (h : c.Slotted spare) (cfg : Config) (o : Outside) : (c.addFile cfg o).Slotted spare := by
  unfold Core.addFile
  split
  · exact h.addNew _ _
  · exact h

theorem Slotted.addEach (o : Outside) : ∀ (kinds : List SinkKind) {c : Core}, c.Slotted spare →
    (kinds.foldl (fun c kind => (c.addNew kind (o.made kind)).1) c).Slotted spare
  | [], _, h => h
  | kind :: kinds, _, h => Slotted.addEach o kinds (h.addNew kind (o.made kind))

theorem Slotted.systemSinks (h : c.Slotted spare) (cfg : Config) (o : Outside) :
    (c.addConfiguredSystemSinks cfg o).Slotted spare := Slotted.addEach o cfg.systemSinks h

theorem Slotted.stopAsync (h : c.Slotted spare) (o : Outside) : (c.stopAsync o).Slotted spare := by
  unfold Core.stopAsync
  split
  · exact h.emits _
  · exact h

/-! ## Every call keeps it -/

theorem holds_nil (slots : Nat → Option Sink) : Table.Holds ⟨slots, 0⟩ [] := ⟨rfl, fun k hk => absurd hk (Nat.not_lt_zero k)⟩

theorem Slotted.emptied (h : c.Slotted spare) (slots : Nat → Option Sink) : { c with table := ⟨slots, 0⟩ }.Slotted spare :=
  h.table (holds_nil slots) (List.nil_sublist _) (List.nil_sublist _)

theorem init_slotted (h : c.Slotted 0) (cfg : Option Config) (o : Outside) : (c.hxClogInitLocked cfg o).1.Slotted 0 := by
  unfold hxClogInitLocked
  split
  · exact h
  · simp only
    generalize applyEnvOverrides o.env (cfg.getD hxClogConfigDefault) = cfg'
    have hset : (c.initTable cfg').Slotted 0 := (h.emptied c.table.slots).congr rfl rfl rfl
    have hconsole := hset.addConsole cfg' o
    split
    · exact h
    · split
      · exact hconsole
      · exact ((hconsole.addFile cfg' o).systemSinks cfg' o).congr rfl rfl rfl

theorem shutdown_slotted (h : c.Slotted 0) (o : Outside) : (c.hxClogShutdown o).Slotted 0 := by
  unfold hxClogShutdown
  split
  · exact h
  · have hquiet : { o.flushed.foldl hxCoreEmitToSinks c with initialized := false }.Slotted 0 :=
      (h.emits o.flushed).congr rfl rfl rfl
    exact ((hquiet.stopAsync o).emptied _).congr rfl rfl rfl

/-- A sink object that was made and is not in the table. -/
structure Aside (c : Core) (obj : Nat) : Prop where
  made : obj < c.created
  notIn : ∀ s ∈ c.table.live, s.obj ≠ obj

theorem Aside.written {obj : Nat} (h : c.Aside obj) (ops : List Op) (n : Nat) : (c.written ops n).Aside obj := ⟨h.1, h.2⟩

theorem Aside.emits {obj : Nat} (h : c.Aside obj) (ls : List Line) : (ls.foldl hxCoreEmitToSinks c).Aside obj := by
  rw [emits_written]
  exact h.written _ _

theorem Aside.flush {obj : Nat} (h : c.Aside obj) (ls : List Line) : (c.hxClogFlush ls).Aside obj := by
  obtain ⟨ops, n, hw⟩ := flush_written c ls
  rw [hw]
  exact h.written _ _

theorem Aside.stopAsync {obj : Nat} (h : c.Aside obj) (o : Outside) : (c.stopAsync o).Aside obj := by
  unfold Core.stopAsync
  split
  · exact h.emits _
  · exact h

theorem closeNonCallback_live (h : c.Slotted spare) :
    c.closeNonCallbackSinksLocked.table.live = c.table.live.filter fun s => s.kind = .callback := by
  have hkept := (h.holds.compact fun s : Sink => s.kind ≠ .callback).1
  have hfilter : (c.table.live.filter fun s => !decide (s.kind ≠ .callback)) =
      c.table.live.filter fun s => s.kind = .callback := by
    refine List.filter_congr fun s _ => ?_
    simp
  rw [← hfilter]
  exact hkept.live

/-- A sink that is added comes last, if there is room. -/
theorem addNew_live (h : c.Slotted spare) (kind : SinkKind) (made : Bool) :
    (c.addNew kind made).1.table.live =
      c.table.live ++ if made ∧ c.table.count < maxSinks then [fresh c.created kind c.nextSinkId] else [] := by
  unfold Core.addNew
  cases made with
  | false => simp
  | true =>
    simp only [not_true_eq_false, if_false, newSink_eq, true_and]
    by_cases hfull : maxSinks ≤ c.table.count
    · rw [if_neg (Nat.not_lt.mpr hfull), List.append_nil]
      rw [addSinkLocked_full (c := { c with created := c.created + 1 }) hfull]
      rfl
    · have hroom := Nat.lt_of_not_le hfull
      rw [if_pos hroom, addSinkLocked_room (c := { c with created := c.created + 1 }) hroom]
      exact (h.holds.push _).live

theorem Aside.addNew {obj : Nat} (h : c.Aside obj) (hs : c.Slotted spare) (kind : SinkKind) (made : Bool) :
    (c.addNew kind made).1.Aside obj := by
  have hcreated : c.created ≤ (c.addNew kind made).1.created := by
    unfold Core.addNew
    cases made with
    | false => exact Nat.le_refl _
    | true =>
      simp only [not_true_eq_false, if_false, newSink_eq]
      by_cases hfull : maxSinks ≤ c.table.count
      · rw [addSinkLocked_full (c := { c with created := c.created + 1 }) hfull]
        exact Nat.le_succ _
      · rw [addSinkLocked_room (c := { c with created := c.created + 1 }) (Nat.lt_of_not_le hfull)]
        exact Nat.le_succ _
  refine ⟨Nat.lt_of_lt_of_le h.made hcreated, fun s hmem => ?_⟩
  rw [addNew_live hs] at hmem
  rcases List.mem_append.mp hmem with hmem | hmem
  · exact h.notIn s hmem
  · split at hmem
    · rw [List.mem_singleton.mp hmem]
      exact Nat.ne_of_gt h.made
    · cases hmem

theorem Slotted.addNewFile {obj : Nat} (h : c.Slotted 1) (ha : c.Aside obj) (o : Outside) :
    (c.addNewFile (some (fresh obj .file 0)) o).Slotted 0 := by
  have hadded := h.addSinkLocked .file ha.made ha.notIn
  have hlogged : ((c.addSinkLocked (fresh obj .file 0)).1.log [.reopen obj]).Slotted 0 := hadded.congr rfl rfl rfl
  unfold Core.addNewFile reopenNewFile
  simp only
  split
  · exact hlogged.modify _ _ (fun _ => rfl) (fun _ => rfl)
  · exact hlogged

theorem Aside.addConsole {obj : Nat} (h : c.Aside obj) (hs : c.Slotted spare) (cfg : Config) (o : Outside) :
    (c.addConsole cfg o).Aside obj := by
  unfold Core.addConsole
  split
  · exact h.addNew hs _ _
  · exact h

theorem flush_table (c : Core) (ls : List Line) : (c.hxClogFlush ls).table = c.table := by
  obtain ⟨ops, n, hw⟩ := flush_written c ls
  rw [hw]
  rfl

theorem stopAsync_table (c : Core) (o : Outside) : (c.stopAsync o).table = c.table := by
  unfold stopAsync
  split
  · rw [emits_written]
    rfl
  · rfl

theorem Slotted.teardown (h : c.Slotted spare) (cfg : Config) (o : Outside) : (c.teardown cfg o).Slotted spare :=
  (((h.flush o.flushed).stopAsync o).closeNonCallback).congr rfl rfl rfl

/-- Only the callback sinks stay. -/
theorem teardown_live (h : c.Slotted spare) (cfg : Config) (o : Outside) :
    (c.teardown cfg o).table.live = c.table.live.filter fun s => s.kind = .callback := by
  have hclosed := closeNonCallback_live ((h.flush o.flushed).stopAsync o)
  rw [stopAsync_table, flush_table] at hclosed
  exact hclosed

theorem Aside.teardown {obj : Nat} (h : c.Aside obj) (hs : c.Slotted spare) (cfg : Config) (o : Outside) :
    (c.teardown cfg o).Aside obj := by
  refine ⟨((h.flush o.flushed).stopAsync o).made, fun s hmem => h.notIn s ?_⟩
  rw [teardown_live hs] at hmem
  exact List.mem_of_mem_filter hmem

theorem newSink_aside (h : c.Slotted spare) (kind : SinkKind) : (c.newSink kind).1.Aside c.created :=
  ⟨Nat.lt_succ_self _, fun s hs => Nat.ne_of_lt (h.made s hs)⟩

theorem swapSinks_slotted (h : c.Slotted 0) (cfg : Config) (o : Outside) : (c.swapSinks cfg o).Slotted 0 := by
  unfold swapSinks newFileSink
  by_cases hfile : cfg.enableFile = true
  · simp only [if_pos hfile]
    have hnew := (h.newSink .file).teardown cfg o
    have haside := ((newSink_aside h .file).teardown (h.newSink .file) cfg o).addConsole hnew cfg o
    exact (((hnew.addConsole cfg o).addNewFile haside o).systemSinks cfg o).congr rfl rfl rfl
  · simp only [if_neg hfile]
    exact (((h.teardown cfg o).addConsole cfg o).systemSinks cfg o).congr rfl rfl rfl

theorem reconfigure_slotted (h : c.Slotted 0) (cfg : Option Config) (o : Outside) :
    (c.hxClogReconfigureLocked cfg o).1.Slotted 0 := by
  unfold hxClogReconfigureLocked
  split
  · exact h
  · cases cfg with
    | none => exact h
    | some cfg =>
      simp only
      split
      · exact h
      · split
        · exact h
        · exact (swapSinks_slotted h cfg o).congr rfl rfl rfl

theorem reopen_slotted (h : c.Slotted 0) (opened : Nat → Bool) : (c.hxClogReopen opened).1.Slotted 0 := by
  unfold hxClogReopen
  split
  · exact h
  · have hholds : Table.Holds { c.table with slots := fun k => (c.table.slots k).map fun s =>
        if s.isFile then { s with isOpen := opened s.obj } else s }
        (c.table.live.map fun s => if s.isFile then { s with isOpen := opened s.obj } else s) := by
      refine ⟨by rw [List.length_map]; exact h.holds.1, fun k hk => ?_⟩
      rw [List.length_map] at hk
      rw [List.getElem?_map, ← h.holds.2 k hk]
    have hsame {β : Type} (g : Sink → β) (hg : ∀ s b, g { s with isOpen := b } = g s) :
        (c.table.live.map fun s => if s.isFile then { s with isOpen := opened s.obj } else s).map g =
          c.table.live.map g := by
      rw [List.map_map]
      refine List.map_congr_left fun s _ => ?_
      simp only [Function.comp]
      split
      · exact hg s _
      · rfl
    refine (h.table hholds ?_ ?_).congr rfl rfl rfl
    · rw [hsame Sink.obj fun _ _ => rfl]
    · rw [hsame Sink.id fun _ _ => rfl]

theorem run_slotted (h : c.Slotted 0) : ∀ call : Call, (call.run c).Slotted 0
  | .init cfg o => init_slotted h cfg o
  | .shutdown o => shutdown_slotted h o
  | .reconfigure cfg o => reconfigure_slotted h cfg o
  | .addSink kind made => h.addNew kind made
  | .removeSink id => h.removeSink id
  | .setSinkLevel id minLevel => by
    show (c.hxClogSetSinkLevel id minLevel).1.Slotted 0
    unfold hxClogSetSinkLevel
    split
    · exact h
    · exact h.changeSink id _ (fun _ => rfl) (fun _ => rfl)
  | .setSinkPattern id pattern => by
    refine changeOverride_slotted h id _ (fun s => ?_) (fun s => ?_)
    · cases pattern <;> rfl
    · cases pattern <;> rfl
  | .setSinkFormatMode id mode => by
    cases mode with
    | none => exact h
    | some mode => exact changeOverride_slotted h id _ (fun _ => rfl) (fun _ => rfl)
  | .setPattern pattern => by
    cases pattern with
    | none => exact h
    | some p => exact h.congr rfl rfl rfl
  | .setFormatMode mode => by
    cases mode with
    | none => exact h
    | some m => exact h.congr rfl rfl rfl
  | .setFormatter formatter => h.congr rfl rfl rfl
  | .reopen opened => reopen_slotted h opened
  | .flush brought => h.flush brought
  | .flushSink id => by
    show (c.hxClogFlushSink id).1.Slotted 0
    unfold hxClogFlushSink
    split
    · exact h.congr rfl rfl rfl
    · exact h
  | .emit l => by
    show (c.hxCoreEmitToSinks l).Slotted 0
    rw [emit_written]
    exact h.congr rfl rfl rfl

end Core

end HxClog
