import HxClog.ReconfigureSound
import HxClog.Lib.Lifetime

/-!
# The life of a sink object

Every object that is handed to `add_sink_locked` is either in the table and open or
has been closed, unless an init forgets the table it finds or a reconfigure has no
room for its file.
-/

namespace HxClog

open C Slots Lifetime

/-! ## Operations as events -/

def Op.obj : Op → Nat
  | .handed obj => obj
  | .write obj _ _ => obj
  | .flush obj => obj
  | .reopen obj => obj
  | .close obj => obj

def Op.act : Op → Lifetime.Act
  | .handed _ => .acquire
  | .write _ _ _ => .use
  | .flush _ => .use
  | .reopen _ => .use
  | .close _ => .release

def Op.event (op : Op) : Lifetime.Event Nat := ⟨op.obj, op.act⟩

namespace Core

variable {c c' : Core} {spare : Nat}

/-- Where a sink object stands. -/
def standing (c : Core) (obj : Nat) : Phase := phase (c.ops.map Op.event) obj

theorem standing_append (ops : List Op) (h : c'.ops = c.ops ++ ops) (obj : Nat) :
    c'.standing obj = phaseFrom (c.standing obj) obj (ops.map Op.event) := by
  unfold standing
  rw [h, List.map_append, phase_append]

/-- The sinks in the table are open, the others were closed or are yet to be handed over. -/
structure Kept (c : Core) : Prop where
  inTable : ∀ s ∈ c.table.live, c.standing s.obj = .live
  gone : ∀ obj, (∀ s ∈ c.table.live, s.obj ≠ obj) → c.standing obj = .unborn ∨ c.standing obj = .ended
  unborn : ∀ obj, c.created ≤ obj → c.standing obj = .unborn

/-- Only the objects of the table matter. -/
theorem Kept.sameObjs (h : c.Kept) (hm : c'.table.live.map Sink.obj = c.table.live.map Sink.obj) (ho : c'.ops = c.ops)
    (hc : c'.created = c.created) : c'.Kept := by
  have hst : c'.standing = c.standing := by
    unfold standing
    rw [ho]
  constructor
  · intro s hs
    obtain ⟨s', hs', he⟩ := List.mem_map.mp (hm ▸ List.mem_map_of_mem hs)
    rw [hst, ← he]
    exact h.inTable s' hs'
  · intro obj hobj
    rw [hst]
    refine h.gone obj fun s hs => ?_
    obtain ⟨s', hs', he⟩ := List.mem_map.mp (hm ▸ List.mem_map_of_mem (f := Sink.obj) hs)
    rw [← he]
    exact hobj s' hs'
  · rw [hc, hst]
    exact h.unborn

theorem Kept.congr (h : c.Kept) (ht : c'.table = c.table) (ho : c'.ops = c.ops) (hc : c'.created = c.created) : c'.Kept :=
  h.sameObjs (by rw [ht]) ho hc

/-- Operations that only use sinks of the table. -/
def Uses (t : Table Sink) (ops : List Op) : Prop := ∀ op ∈ ops, op.act = .use ∧ ∃ s ∈ t.live, s.obj = op.obj

theorem uses_others {ops : List Op} (h : Uses c.table ops) {obj : Nat} (hn : ∀ s ∈ c.table.live, s.obj ≠ obj) (p : Phase) :
    phaseFrom p obj (ops.map Op.event) = p := by
  refine phaseFrom_others p fun e he => ?_
  obtain ⟨op, hop, rfl⟩ := List.mem_map.mp he
  obtain ⟨-, s, hs, hobj⟩ := h op hop
  exact fun hh => hn s hs (hobj.trans hh)

theorem uses_same {ops : List Op} (h : Uses c.table ops) (hk : c.Kept) (ho : c'.ops = c.ops ++ ops) :
    c'.standing = c.standing := by
  funext obj
  rw [standing_append ops ho]
  by_cases hin : ∃ s ∈ c.table.live, s.obj = obj
  · obtain ⟨s, hs, rfl⟩ := hin
    rw [hk.inTable s hs]
    refine phaseFrom_uses fun e he => ?_
    obtain ⟨op, hop, rfl⟩ := List.mem_map.mp he
    exact (h op hop).1
  · exact uses_others h (fun s hs he => hin ⟨s, hs, he⟩) _

theorem Kept.uses (ops : List Op) (hk : c.Kept) (h : Uses c.table ops) (ht : c'.table = c.table)
    (ho : c'.ops = c.ops ++ ops) (hc : c'.created = c.created) : c'.Kept := by
  have hst := uses_same h hk ho
  constructor
  · rw [ht, hst]
    exact hk.inTable
  · rw [ht, hst]
    exact hk.gone
  · rw [hc, hst]
    exact hk.unborn

/-! ## Using sinks -/

theorem emitOps_uses (t : Table Sink) (l : Line) : Uses t (emitOps t l) := by
  intro op hop
  obtain ⟨s, hs, hop⟩ := List.mem_flatMap.mp hop
  have hlive := List.mem_of_mem_filter hs
  unfold hxSinkWrite at hop
  split at hop
  · cases hop
  · rw [List.mem_singleton.mp hop]
    exact ⟨rfl, s, hlive, rfl⟩

theorem Kept.emits (h : c.Kept) (ls : List Line) : (ls.foldl hxCoreEmitToSinks c).Kept := by
  rw [emits_written]
  refine h.uses (ls.flatMap (emitOps c.table)) (fun op hop => ?_) rfl rfl rfl
  obtain ⟨l, -, hop⟩ := List.mem_flatMap.mp hop
  exact emitOps_uses c.table l op hop

theorem flushSinks_uses (t : Table Sink) : Uses t (t.live.map fun s => .flush s.obj) := by
  intro op hop
  obtain ⟨s, hs, rfl⟩ := List.mem_map.mp hop
  exact ⟨rfl, s, hs, rfl⟩

theorem Kept.flush (h : c.Kept) (ls : List Line) : (c.hxClogFlush ls).Kept := by
  unfold hxClogFlush
  split
  · exact h
  · have hemitted := h.emits ls
    exact hemitted.uses _ (flushSinks_uses _) rfl rfl rfl

theorem Kept.stopAsync (h : c.Kept) (o : Outside) : (c.stopAsync o).Kept := by
  unfold Core.stopAsync
  split
  · exact h.emits _
  · exact h

/-! ## Adding sinks -/

/-- An object that is to be added: made, not handed over yet. -/
def Waits (c : Core) (obj : Nat) : Prop := c.Aside obj ∧ c.standing obj = .unborn

theorem Kept.addSinkLocked (hk : c.Kept) (hs : c.Slotted (spare + 1)) {obj : Nat} (kind : SinkKind) (hw : c.Waits obj) :
    (c.addSinkLocked (fresh obj kind 0)).1.Kept := by
  obtain ⟨haside, hunborn⟩ := hw
  by_cases hfull : maxSinks ≤ c.table.count
  · -- handed over and closed
    rw [addSinkLocked_full hfull]
    have hst (i : Nat) : (c.log [.handed obj, .close obj]).standing i =
        phaseFrom (c.standing i) i [⟨obj, .acquire⟩, ⟨obj, .release⟩] :=
      standing_append [.handed obj, .close obj] rfl i
    have hother {i : Nat} (hi : obj ≠ i) : (c.log [.handed obj, .close obj]).standing i = c.standing i := by
      rw [hst, phaseFrom_others _ (by simpa using hi)]
    show (c.log [.handed obj, .close obj]).Kept
    constructor
    · intro s hmem
      rw [hother (haside.notIn s hmem).symm]
      exact hk.inTable s hmem
    · intro i hi
      by_cases he : obj = i
      · subst he
        rw [hst, hunborn]
        exact .inr (by simp [phaseFrom, Phase.after])
      · rw [hother he]
        exact hk.gone i hi
    · intro i hi
      have hlt : obj < c.created := haside.made
      have hi : c.created ≤ i := hi
      rw [hother (by omega)]
      exact hk.unborn i hi
  · have hroom := Nat.lt_of_not_le hfull
    have hlive : (c.added obj kind).table.live = c.table.live ++ [fresh obj kind c.nextSinkId] :=
      (hs.holds.push (fresh obj kind c.nextSinkId)).live
    have hst (i : Nat) : (c.added obj kind).standing i = phaseFrom (c.standing i) i [⟨obj, .acquire⟩] :=
      standing_append [.handed obj] rfl i
    have hother {i : Nat} (hi : obj ≠ i) : (c.added obj kind).standing i = c.standing i := by
      rw [hst, phaseFrom_others _ (by simpa using hi)]
    rw [addSinkLocked_room hroom]
    constructor
    · intro s hmem
      have hmem : s ∈ (c.added obj kind).table.live := hmem
      rw [hlive] at hmem
      rcases List.mem_append.mp hmem with hmem | hmem
      · rw [hother (haside.notIn s hmem).symm]
        exact hk.inTable s hmem
      · rw [List.mem_singleton.mp hmem]
        show (c.added obj kind).standing obj = .live
        rw [hst, hunborn]
        simp [phaseFrom, Phase.after]
    · intro i hi
      have hi : ∀ s ∈ (c.added obj kind).table.live, s.obj ≠ i := hi
      rw [hlive] at hi
      have he : obj ≠ i := hi (fresh obj kind c.nextSinkId) (by simp)
      rw [hother he]
      exact hk.gone i fun s hmem => hi s (List.mem_append_left _ hmem)
    · intro i hi
      have hlt : obj < c.created := haside.made
      have hi : c.created ≤ i := hi
      rw [hother (by omega)]
      exact hk.unborn i hi

theorem Kept.newSink (h : c.Kept) (kind : SinkKind) : (c.newSink kind).1.Kept where
  inTable := h.inTable
  gone := h.gone
  unborn := fun obj hobj => h.unborn obj (Nat.le_of_succ_le hobj)

theorem newSink_waits (h : c.Kept) (hs : c.Slotted spare) (kind : SinkKind) : (c.newSink kind).1.Waits c.created :=
  ⟨newSink_aside hs kind, h.unborn c.created (Nat.le_refl _)⟩

theorem Kept.addNew (h : c.Kept) (hs : c.Slotted spare) (kind : SinkKind) (made : Bool) : (c.addNew kind made).1.Kept := by
  unfold Core.addNew
  split
  · exact h
  · exact (h.newSink kind).addSinkLocked (hs.newSink kind) kind (newSink_waits h hs kind)

theorem Kept.addConsole (h : c.Kept) (hs : c.Slotted spare) (cfg : Config) (o : Outside) : (c.addConsole cfg o).Kept := by
  unfold Core.addConsole
  split
  · exact h.addNew hs _ _
  · exact h

theorem Kept.addFile (h : c.Kept) (hs : c.Slotted spare) (cfg : Config) (o : Outside) : (c.addFile cfg o).Kept := by
  unfold Core.addFile
  split
  · exact h.addNew hs _ _
  · exact h

theorem Kept.addEach (o : Outside) : ∀ (kinds : List SinkKind) {c : Core}, c.Kept → c.Slotted spare →
    (kinds.foldl (fun c kind => (c.addNew kind (o.made kind)).1) c).Kept
  | [], _, h, _ => h
  | kind :: kinds, _, h, hs => Kept.addEach o kinds (h.addNew hs kind (o.made kind)) (hs.addNew kind (o.made kind))

/-! ## Closing sinks -/

theorem closing_others {l : List Sink} {obj : Nat} (h : ∀ s ∈ l, s.obj ≠ obj) (p : Phase) :
    phaseFrom p obj ((l.flatMap Sink.flushClose).map Op.event) = p := by
  refine phaseFrom_others p fun e he => ?_
  obtain ⟨op, hop, rfl⟩ := List.mem_map.mp he
  obtain ⟨s, hs, hop⟩ := List.mem_flatMap.mp hop
  have hobj : op.obj = s.obj := by
    unfold Sink.flushClose at hop
    rcases List.mem_cons.mp hop with rfl | hop
    · rfl
    · rw [List.mem_singleton.mp hop]
      rfl
  exact fun he => h s hs (hobj.symm.trans he)

/-- Flushing and closing sinks one after the other ends each of them. -/
theorem closing_ends : ∀ {l : List Sink}, (l.map Sink.obj).Nodup → ∀ s ∈ l,
    phaseFrom .live s.obj ((l.flatMap Sink.flushClose).map Op.event) = .ended
  | a :: l, hnd, s, hs => by
    rw [List.map_cons, List.nodup_cons] at hnd
    rw [List.flatMap_cons, List.map_append, phaseFrom_append]
    rcases List.mem_cons.mp hs with rfl | hmem
    · have hhead : phaseFrom .live s.obj (s.flushClose.map Op.event) = .ended := by
        simp [Sink.flushClose, Op.event, Op.obj, Op.act, phaseFrom, Phase.after]
      rw [hhead]
      have hrest : ∀ s' ∈ l, s'.obj ≠ s.obj := fun s' hs' he => hnd.1 (he ▸ List.mem_map_of_mem hs')
      exact closing_others hrest _
    · have hne : a.obj ≠ s.obj := fun he => hnd.1 (he ▸ List.mem_map_of_mem hmem)
      have hhead : phaseFrom .live s.obj (a.flushClose.map Op.event) = .live := by
        simp [Sink.flushClose, Op.event, Op.obj, Op.act, phaseFrom, hne]
      rw [hhead]
      exact closing_ends hnd.2 s hmem

/-- Some sinks stay, the others are flushed and closed. -/
theorem Kept.closing (h : c.Kept) (hs : c.Slotted spare) (removed : List Sink)
    (hperm : (removed ++ c'.table.live).Perm c.table.live) (ho : c'.ops = c.ops ++ removed.flatMap Sink.flushClose)
    (hc : c'.created = c.created) : c'.Kept := by
  have hnd : ((removed ++ c'.table.live).map Sink.obj).Nodup := (hperm.map Sink.obj).nodup_iff.mpr hs.objs
  rw [List.map_append, List.nodup_append] at hnd
  obtain ⟨hremoved, -, hdisjoint⟩ := hnd
  have hst := standing_append (removed.flatMap Sink.flushClose) ho
  have hkept {obj : Nat} (hn : ∀ s ∈ removed, s.obj ≠ obj) : c'.standing obj = c.standing obj := by
    rw [hst, closing_others hn]
  constructor
  · intro s hmem
    have hn : ∀ s' ∈ removed, s'.obj ≠ s.obj := fun s' hs' =>
      hdisjoint s'.obj (List.mem_map_of_mem hs') s.obj (List.mem_map_of_mem hmem)
    rw [hkept hn]
    exact h.inTable s (hperm.subset (List.mem_append_right _ hmem))
  · intro obj hobj
    by_cases hin : ∃ s ∈ removed, s.obj = obj
    · obtain ⟨s, hmem, rfl⟩ := hin
      have hlive := h.inTable s (hperm.subset (List.mem_append_left _ hmem))
      rw [hst, hlive]
      exact .inr (closing_ends hremoved s hmem)
    · have hn : ∀ s ∈ removed, s.obj ≠ obj := fun s hs he => hin ⟨s, hs, he⟩
      rw [hkept hn]
      refine h.gone obj fun s hmem => ?_
      rcases List.mem_append.mp (hperm.symm.subset hmem) with hmem | hmem
      · exact hn s hmem
      · exact hobj s hmem
  · intro obj hobj
    rw [hc] at hobj
    have hn : ∀ s ∈ removed, s.obj ≠ obj := fun s hmem => by
      have := hs.made s (hperm.subset (List.mem_append_left _ hmem))
      omega
    rw [hkept hn]
    exact h.unborn obj hobj

theorem Kept.closeNonCallback (h : c.Kept) (hs : c.Slotted spare) : c.closeNonCallbackSinksLocked.Kept := by
  have hremoved := (hs.holds.compact fun s : Sink => s.kind ≠ .callback).2
  refine h.closing hs (c.table.live.filter fun s => s.kind ≠ .callback) ?_ ?_ rfl
  · rw [closeNonCallback_live hs]
    have hsplit := List.filter_append_perm (fun s : Sink => decide (s.kind ≠ .callback)) c.table.live
    simpa using hsplit
  · show c.ops ++ (c.table.compact _).2.flatMap Sink.flushClose = _
    rw [hremoved]

theorem Kept.removeSink (h : c.Kept) (hs : c.Slotted spare) (id : Nat) : (c.hxClogRemoveSink id).1.Kept := by
  unfold hxClogRemoveSink
  split
  · rename_i i hf
    obtain ⟨hi, -⟩ := hs.holds.find_some hf
    have hslot : c.table.slots i = some c.table.live[i] := by
      rw [hs.holds.2 i hi, List.getElem?_eq_getElem hi]
    refine h.closing hs [c.table.live[i]] ?_ ?_ rfl
    · show ([c.table.live[i]] ++ (c.table.removeAt i).live).Perm c.table.live
      rw [(hs.holds.removeAt hi).live]
      exact List.getElem_cons_eraseIdx_perm hi
    · rw [hslot]
      rfl
  · exact h

theorem Kept.teardown (h : c.Kept) (hs : c.Slotted spare) (cfg : Config) (o : Outside) : (c.teardown cfg o).Kept := by
  have hquiet := (h.flush o.flushed).stopAsync o
  exact (hquiet.closeNonCallback ((hs.flush o.flushed).stopAsync o)).congr rfl rfl rfl

/-! ## An object that waits -/

theorem Waits.uses {obj : Nat} (ops : List Op) (hw : c.Waits obj) (h : Uses c.table ops) (ht : c'.table = c.table)
    (ho : c'.ops = c.ops ++ ops) (hc : c'.created = c.created) : c'.Waits obj := by
  refine ⟨⟨by rw [hc]; exact hw.1.made, by rw [ht]; exact hw.1.notIn⟩, ?_⟩
  rw [standing_append ops ho, uses_others h hw.1.notIn]
  exact hw.2

theorem Waits.emits {obj : Nat} (hw : c.Waits obj) (ls : List Line) : (ls.foldl hxCoreEmitToSinks c).Waits obj := by
  rw [emits_written]
  refine hw.uses (ls.flatMap (emitOps c.table)) (fun op hop => ?_) rfl rfl rfl
  obtain ⟨l, -, hop⟩ := List.mem_flatMap.mp hop
  exact emitOps_uses c.table l op hop

theorem Waits.flush {obj : Nat} (hw : c.Waits obj) (ls : List Line) : (c.hxClogFlush ls).Waits obj := by
  unfold hxClogFlush
  split
  · exact hw
  · exact (hw.emits ls).uses _ (flushSinks_uses _) rfl rfl rfl

theorem Waits.stopAsync {obj : Nat} (hw : c.Waits obj) (o : Outside) : (c.stopAsync o).Waits obj := by
  unfold Core.stopAsync
  split
  · exact hw.emits _
  · exact hw

theorem Waits.teardown {obj : Nat} (hw : c.Waits obj) (hs : c.Slotted spare) (cfg : Config) (o : Outside) :
    (c.teardown cfg o).Waits obj := by
  have hquiet := (hw.flush o.flushed).stopAsync o
  have hslotted := (hs.flush o.flushed).stopAsync o
  refine ⟨hw.1.teardown hs cfg o, ?_⟩
  have hremoved := (hslotted.holds.compact fun s : Sink => s.kind ≠ .callback).2
  have hops : (c.teardown cfg o).ops = ((c.hxClogFlush o.flushed).stopAsync o).ops ++
      (((c.hxClogFlush o.flushed).stopAsync o).table.live.filter fun s => s.kind ≠ .callback).flatMap Sink.flushClose := by
    rw [← hremoved]
    rfl
  rw [standing_append _ hops, closing_others fun s hmem => hquiet.1.notIn s (List.mem_of_mem_filter hmem)]
  exact hquiet.2

/-- A sink that is added is another object. -/
theorem Waits.addNew {obj : Nat} (hw : c.Waits obj) (hs : c.Slotted spare) (kind : SinkKind) (made : Bool) :
    (c.addNew kind made).1.Waits obj := by
  refine ⟨hw.1.addNew hs kind made, ?_⟩
  have hne : c.created ≠ obj := Nat.ne_of_gt hw.1.made
  cases made with
  | false => exact hw.2
  | true =>
    show ((c.newSink kind).1.addSinkLocked (fresh c.created kind 0)).1.standing obj = _
    by_cases hfull : maxSinks ≤ c.table.count
    · rw [addSinkLocked_full (c := (c.newSink kind).1) hfull]
      refine (standing_append (c := c) [.handed c.created, .close c.created] rfl obj).trans ?_
      rw [phaseFrom_others _ (by simpa [Op.event, Op.obj] using hne)]
      exact hw.2
    · rw [addSinkLocked_room (c := (c.newSink kind).1) (Nat.lt_of_not_le hfull)]
      refine (standing_append (c := c) [.handed c.created] rfl obj).trans ?_
      rw [phaseFrom_others _ (by simpa [Op.event, Op.obj] using hne)]
      exact hw.2

theorem Waits.addConsole {obj : Nat} (hw : c.Waits obj) (hs : c.Slotted spare) (cfg : Config) (o : Outside) :
    (c.addConsole cfg o).Waits obj := by
  unfold Core.addConsole
  split
  · exact hw.addNew hs _ _
  · exact hw

/-- A file sink that found room is opened again while it is in the table. -/
theorem Kept.addNewFile {obj : Nat} (h : c.Kept) (hs : c.Slotted 1) (hw : c.Waits obj) (hroom : c.table.count < maxSinks)
    (o : Outside) : (c.addNewFile (some (fresh obj .file 0)) o).Kept := by
  have hadded := h.addSinkLocked hs .file hw
  have hslotted := hs.addSinkLocked .file hw.1.made hw.1.notIn
  rw [addSinkLocked_room hroom] at hadded hslotted
  have hlive : (c.added obj .file).table.live = c.table.live ++ [fresh obj .file c.nextSinkId] :=
    (hs.holds.push (fresh obj .file c.nextSinkId)).live
  have hreopen : ((c.added obj .file).log [.reopen obj]).Kept := by
    refine hadded.uses [.reopen obj] (fun op hop => ?_) rfl rfl rfl
    rw [List.mem_singleton.mp hop]
    refine ⟨rfl, fresh obj .file c.nextSinkId, ?_, rfl⟩
    show _ ∈ (c.added obj .file).table.live
    rw [hlive]
    simp
  show ((c.addSinkLocked (fresh obj .file 0)).1.reopenNewFile obj o.reopened).Kept
  rw [addSinkLocked_room hroom]
  show ((c.added obj .file).reopenNewFile obj o.reopened).Kept
  unfold reopenNewFile
  simp only
  split
  · rename_i i _
    refine hreopen.sameObjs ?_ rfl rfl
    have hsame := (hslotted.holds.modify i fun s => { s with isOpen := o.reopened }).live
    refine Eq.trans (congrArg (List.map Sink.obj) hsame) ?_
    exact map_modify Sink.obj (fun s : Sink => { s with isOpen := o.reopened }) (fun _ => rfl) _ i
  · exact hreopen

/-! ## Every call that is fine -/

/-- When a call keeps the lives of the sinks in order: an init that gets as far as the
table finds it empty, a reconfigure that makes a file has room for it, and a shutdown
that does nothing has nothing to close. -/
def Fine (c : Core) : Call → Prop
  | .init cfg o => c.initialized = false →
      fileNameIsPlain (applyEnvOverrides o.env (cfg.getD hxClogConfigDefault)).file = true → c.table.live = []
  | .reconfigure cfg o => ∀ cfg', cfg = some cfg' → c.Acts cfg' o → cfg'.enableFile = true →
      c.callbacks.length + consoles cfg' o < maxSinks
  | .shutdown _ => c.initialized = false → c.table.live = []
  | _ => True

theorem init_kept (h : c.Kept) (hs : c.Slotted 0) (cfg : Option Config) (o : Outside) (hf : c.Fine (.init cfg o)) :
    (c.hxClogInitLocked cfg o).1.Kept := by
  unfold hxClogInitLocked
  split
  · exact h
  · rename_i hi
    simp only
    have hf := hf (Bool.eq_false_of_not_eq_true hi)
    revert hf
    generalize applyEnvOverrides o.env (cfg.getD hxClogConfigDefault) = cfg'
    intro hf
    split
    · exact h
    · rename_i hplain
      have hempty := hf (of_not_not hplain)
      have hset : (c.initTable cfg').Slotted 0 := (hs.emptied c.table.slots).congr rfl rfl rfl
      have hkept : (c.initTable cfg').Kept := by
        refine h.sameObjs ?_ rfl rfl
        rw [hempty]
        rfl
      have hconsole := hkept.addConsole hset cfg' o
      have hslotted := hset.addConsole cfg' o
      split
      · exact hconsole
      · exact (Kept.addEach o cfg'.systemSinks (hconsole.addFile hslotted cfg' o) (hslotted.addFile cfg' o)).congr
          rfl rfl rfl

theorem shutdown_kept (h : c.Kept) (hs : c.Slotted 0) (o : Outside) : (c.hxClogShutdown o).Kept := by
  unfold hxClogShutdown
  split
  · exact h
  · simp only
    have hquiet : { o.flushed.foldl hxCoreEmitToSinks c with initialized := false }.Kept :=
      (h.emits o.flushed).congr rfl rfl rfl
    have hslotted : { o.flushed.foldl hxCoreEmitToSinks c with initialized := false }.Slotted 0 :=
      (hs.emits o.flushed).congr rfl rfl rfl
    have hkept := hquiet.stopAsync o
    have hok := hslotted.stopAsync o
    revert hkept hok
    generalize ({ o.flushed.foldl hxCoreEmitToSinks c with initialized := false } : Core).stopAsync o = c₁
    intro hkept hok
    refine hkept.closing hok c₁.table.live ?_ rfl rfl
    exact List.Perm.of_eq (List.append_nil _)

theorem shutdown_empty (hf : c.Fine (.shutdown o)) : (c.hxClogShutdown o).table.live = [] := by
  unfold hxClogShutdown
  split
  · rename_i hi
    exact hf (Bool.eq_false_of_not_eq_true hi)
  · rfl

theorem reconfigure_kept (h : c.Kept) (hs : c.Slotted 0) (cfg : Option Config) (o : Outside)
    (hf : c.Fine (.reconfigure cfg o)) : (c.hxClogReconfigureLocked cfg o).1.Kept := by
  by_cases hacts : ∃ cfg', cfg = some cfg' ∧ c.Acts cfg' o
  · obtain ⟨cfg', rfl, ha⟩ := hacts
    rw [reconfigure_acts ha]
    refine Kept.congr (c := c.swapSinks cfg' o) ?_ rfl rfl rfl
    unfold swapSinks newFileSink
    by_cases hfile : cfg'.enableFile = true
    · simp only [if_pos hfile]
      have hroom := hf cfg' rfl ha hfile
      have hmade := hs.newSink .file
      have hdown := hmade.teardown cfg' o
      have hkept := ((h.newSink .file).teardown hmade cfg' o).addConsole hdown cfg' o
      have hwaits := ((newSink_waits h hs .file).teardown hmade cfg' o).addConsole hdown cfg' o
      have hslotted := hdown.addConsole cfg' o
      have hcount : (((c.newSink .file).1.teardown cfg' o).addConsole cfg' o).table.count < maxSinks := by
        obtain ⟨console, hlive, hkinds⟩ := console_added hdown cfg' o
        have hlen := congrArg List.length hkinds
        rw [List.length_map, apply_ite List.length, List.length_replicate, List.length_nil] at hlen
        rw [hslotted.holds.1, hlive, List.length_append, teardown_live hmade]
        have hroom : ((c.newSink .file).1.table.live.filter fun s => s.kind = .callback).length + consoles cfg' o <
            maxSinks := hroom
        split at hlen <;> omega
      exact (Kept.addEach o cfg'.systemSinks (hkept.addNewFile hslotted hwaits hcount o)
        (hslotted.addNewFile hwaits.1 o)).congr rfl rfl rfl
    · simp only [if_neg hfile]
      have hdown := hs.teardown cfg' o
      have hkept := (h.teardown hs cfg' o).addConsole hdown cfg' o
      exact (Kept.addEach o cfg'.systemSinks hkept (hdown.addConsole cfg' o)).congr rfl rfl rfl
  · obtain ⟨rc, -, heq⟩ := reconfigure_refused fun cfg' he ha => hacts ⟨cfg', he, ha⟩
    rw [heq]
    exact h

theorem changeSink_kept (h : c.Kept) (hs : c.Slotted 0) (id : Nat) (f : Sink → Sink) (hobj : ∀ s, (f s).obj = s.obj) :
    (c.changeSink id f).1.Kept := by
  unfold changeSink
  split
  · rename_i i _
    refine h.sameObjs ?_ rfl rfl
    refine Eq.trans (congrArg (List.map Sink.obj) (hs.holds.modify i f).live) ?_
    exact map_modify Sink.obj f hobj _ i
  · exact h

theorem changeOverride_kept (h : c.Kept) (hs : c.Slotted 0) (id : Nat) (f : Sink → Sink) (hobj : ∀ s, (f s).obj = s.obj) :
    (c.changeOverride id f).1.Kept := by
  have hchanged := changeSink_kept h hs id f hobj
  unfold changeOverride
  split
  · rename_i c' he
    rw [he] at hchanged
    exact hchanged.congr rfl rfl rfl
  · exact hchanged

theorem reopen_kept (h : c.Kept) (hs : c.Slotted 0) (opened : Nat → Bool) : (c.hxClogReopen opened).1.Kept := by
  by_cases hi : c.initialized = true
  · have hlive := reopen_live hs hi opened
    have hops : (c.hxClogReopen opened).1.ops = c.ops ++ (c.table.live.filter Sink.isFile).map fun s => .reopen s.obj := by
      unfold hxClogReopen
      rw [if_neg (not_not_intro hi)]
      rfl
    have hcreated : (c.hxClogReopen opened).1.created = c.created := by
      unfold hxClogReopen
      rw [if_neg (not_not_intro hi)]
      rfl
    have hlogged : (c.log ((c.table.live.filter Sink.isFile).map fun s => .reopen s.obj)).Kept := by
      refine h.uses ((c.table.live.filter Sink.isFile).map fun s => .reopen s.obj) (fun op hop => ?_) rfl rfl rfl
      obtain ⟨s, hmem, rfl⟩ := List.mem_map.mp hop
      exact ⟨rfl, s, List.mem_of_mem_filter hmem, rfl⟩
    refine hlogged.sameObjs ?_ hops hcreated
    rw [hlive, List.map_map]
    refine List.map_congr_left fun s _ => ?_
    simp only [Function.comp]
    split <;> rfl
  · unfold hxClogReopen
    rw [if_pos hi]
    exact h

theorem flushSink_kept (h : c.Kept) (hs : c.Slotted 0) (id : Nat) : (c.hxClogFlushSink id).1.Kept := by
  unfold hxClogFlushSink
  split
  · rename_i i hf
    obtain ⟨hi, -⟩ := hs.holds.find_some hf
    have hslot : c.table.slots i = some c.table.live[i] := by
      rw [hs.holds.2 i hi, List.getElem?_eq_getElem hi]
    refine h.uses [.flush c.table.live[i].obj] (fun op hop => ?_) rfl ?_ rfl
    · rw [List.mem_singleton.mp hop]
      exact ⟨rfl, c.table.live[i], List.getElem_mem hi, rfl⟩
    · rw [hslot]
      rfl
  · exact h

theorem run_kept (h : c.Kept) (hs : c.Slotted 0) : ∀ call : Call, c.Fine call → (call.run c).Kept
  | .init cfg o, hf => init_kept h hs cfg o hf
  | .shutdown o, _ => shutdown_kept h hs o
  | .reconfigure cfg o, hf => reconfigure_kept h hs cfg o hf
  | .addSink kind made, _ => h.addNew hs kind made
  | .removeSink id, _ => h.removeSink hs id
  | .setSinkLevel id minLevel, _ => by
    show (c.hxClogSetSinkLevel id minLevel).1.Kept
    unfold hxClogSetSinkLevel
    split
    · exact h
    · exact changeSink_kept h hs id _ (fun _ => rfl)
  | .setSinkPattern id pattern, _ => by
    refine changeOverride_kept h hs id _ (fun s => ?_)
    cases pattern <;> rfl
  | .setSinkFormatMode id mode, _ => by
    cases mode with
    | none => exact h
    | some mode => exact changeOverride_kept h hs id _ (fun _ => rfl)
  | .setPattern pattern, _ => by
    cases pattern with
    | none => exact h
    | some p => exact h.congr rfl rfl rfl
  | .setFormatMode mode, _ => by
    cases mode with
    | none => exact h
    | some m => exact h.congr rfl rfl rfl
  | .setFormatter formatter, _ => h.congr rfl rfl rfl
  | .reopen opened, _ => reopen_kept h hs opened
  | .flush brought, _ => h.flush brought
  | .flushSink id, _ => flushSink_kept h hs id
  | .emit l, _ => by
    show (c.hxCoreEmitToSinks l).Kept
    have hone := h.emits [l]
    exact hone

/-- Every call is fine in the state it finds. -/
def AllFine : Core → List Call → Prop
  | _, [] => True
  | c, call :: calls => c.Fine call ∧ AllFine (call.run c) calls

theorem runCalls_kept : ∀ (calls : List Call) {c : Core}, c.Kept → c.Slotted 0 → AllFine c calls →
    (runCalls c calls).Kept
  | [], _, h, _, _ => h
  | call :: calls, _, h, hs, hf => runCalls_kept calls (run_kept h hs call hf.1) (run_slotted hs call) hf.2

theorem start_kept : coreOnceInit.Kept where
  inTable := fun s hs => by cases hs
  gone := fun _ _ => .inl rfl
  unborn := fun _ _ => rfl

end Core

/-! ## The life of every sink -/

/-- Nothing is done with a sink object after it was closed. -/
def NoUseAfterClose (ops : List Op) : Prop :=
  ∀ before op after, ops = before ++ op :: after → .close op.obj ∉ before

/-- Every object handed to `add_sink_locked` was closed, once. -/
def ClosedOnce (ops : List Op) : Prop := ∀ obj, .handed obj ∈ ops → ops.count (.close obj) = 1

/-- The lives of the sinks in a run: nothing is touched after its close, and when
shutdown has returned all are closed. -/
def LivesInOrder (calls : List Call) : Prop :=
  NoUseAfterClose (runCalls coreOnceInit calls).ops ∧
    ∀ before o, calls = before ++ [.shutdown o] → ClosedOnce (runCalls coreOnceInit calls).ops

theorem Core.Kept.not_misused {c : Core} (h : c.Kept) (obj : Nat) : c.standing obj ≠ .misused := by
  by_cases hin : ∃ s ∈ c.table.live, s.obj = obj
  · obtain ⟨s, hs, rfl⟩ := hin
    rw [h.inTable s hs]
    decide
  · rcases h.gone obj fun s hs he => hin ⟨s, hs, he⟩ with hu | he
    · rw [hu]
      decide
    · rw [he]
      decide

theorem Core.Kept.noUse {c : Core} (h : c.Kept) : NoUseAfterClose c.ops := by
  intro before op after hops hclosed
  have hmis := h.not_misused op.obj
  obtain ⟨b₁, b₂, rfl⟩ := List.append_of_mem hclosed
  unfold Core.standing at hmis
  rw [hops] at hmis
  simp only [List.append_assoc, List.cons_append, List.map_append, List.map_cons] at hmis
  refine untouched_after_release hmis op.event ?_ rfl
  simp

theorem event_release (obj : Nat) (op : Op) : op.event = ⟨obj, .release⟩ ↔ op = .close obj := by
  cases op <;> simp [Op.event, Op.obj, Op.act]

theorem close_count (ops : List Op) (obj : Nat) : (ops.map Op.event).count ⟨obj, .release⟩ = ops.count (.close obj) := by
  rw [List.count_eq_countP, List.count_eq_countP, List.countP_map]
  refine List.countP_congr fun op _ => ?_
  simp only [Function.comp, beq_iff_eq]
  exact event_release obj op

theorem Core.Kept.closedOnce {c : Core} (h : c.Kept) (hempty : c.table.live = []) : ClosedOnce c.ops := by
  intro obj hhanded
  have hgone := h.gone obj fun s hs => by rw [hempty] at hs; cases hs
  rcases hgone with hunborn | hended
  · refine absurd rfl (unborn_untouched hunborn (Op.event (.handed obj)) ?_)
    exact List.mem_map_of_mem hhanded
  · rw [← close_count]
    exact ended_count hended (by decide)

theorem Core.allFine_append : ∀ {calls calls' : List Call} {c : Core}, c.AllFine (calls ++ calls') →
    c.AllFine calls ∧ (runCalls c calls).AllFine calls'
  | [], _, _, h => ⟨trivial, h⟩
  | _ :: _, _, _, h => ⟨⟨h.1, (Core.allFine_append h.2).1⟩, (Core.allFine_append h.2).2⟩

/-- In a run of calls that are fine the lives of the sinks are in order. -/
theorem lives_in_order (calls : List Call) (h : coreOnceInit.AllFine calls) : LivesInOrder calls := by
  have hkept := Core.runCalls_kept calls Core.start_kept Core.start_slotted h
  refine ⟨hkept.noUse, fun before o hcalls => hkept.closedOnce ?_⟩
  subst hcalls
  have hlast := (Core.allFine_append h).2.1
  rw [runCalls_append]
  exact Core.shutdown_empty hlast

/-- A sink that is added after init, and a shutdown. -/
theorem lives_in_order_added : LivesInOrder [.init (some bareConfig) {}, .addSink .callback true, .shutdown {}] := by
  refine lives_in_order _ ⟨fun _ _ => rfl, trivial, fun hi => ?_, trivial⟩
  cases hi

/-- A sink that is added before init is forgotten by it and never closed. -/
theorem early_sink_never_closed : ¬LivesInOrder [.addSink .callback true, .init (some bareConfig) {}, .shutdown {}] := by
  rintro ⟨-, hclosed⟩
  have hone := hclosed [.addSink .callback true, .init (some bareConfig) {}] {} rfl 0 (by decide)
  exact absurd hone (by decide)

end HxClog
