import HxClog.SinksSound

/-!
# A record reaches every sink once

The count of overrides is right in every state, so the lines of a record divide the
sinks among them. The thread's copy of the format is the format in force.
-/

namespace HxClog

open C Slots

namespace Core

variable {c c' : Core} {spare : Nat}

/-! ## The count of overrides -/

def Counted (c : Core) : Prop := c.overrideCount = c.table.live.countP Sink.overrideSet

theorem recompute_counted (c : Core) : c.recomputeOverrideCountLocked.Counted :=
  (List.countP_eq_length_filter (p := Sink.overrideSet) (l := c.table.live)).symm

theorem Counted.congr (h : c.Counted) (ht : c'.table = c.table) (ho : c'.overrideCount = c.overrideCount) :
    c'.Counted := by
  unfold Counted
  rw [ht, ho]
  exact h

/-- Sinks that changed, but for whether they have an override. -/
theorem Counted.live (h : c.Counted) (ho : c'.overrideCount = c.overrideCount)
    (hm : c'.table.live.map Sink.overrideSet = c.table.live.map Sink.overrideSet) : c'.Counted := by
  have hcount (l : List Sink) : l.countP Sink.overrideSet = (l.map Sink.overrideSet).countP id := by
    rw [List.countP_map]
    rfl
  unfold Counted
  rw [ho, hcount, hm, ← hcount]
  exact h

theorem addNew_overrideCount (c : Core) (kind : SinkKind) (made : Bool) :
    (c.addNew kind made).1.overrideCount = c.overrideCount := by
  obtain ⟨t, id, ops, n, h⟩ := addNew_frame c kind made
  rw [h]

theorem Counted.addNew (h : c.Counted) (hs : c.Slotted spare) (kind : SinkKind) (made : Bool) :
    (c.addNew kind made).1.Counted := by
  unfold Counted
  rw [addNew_overrideCount, addNew_live hs, List.countP_append, h]
  split <;> rfl

theorem Counted.addConsole (h : c.Counted) (hs : c.Slotted spare) (cfg : Config) (o : Outside) :
    (c.addConsole cfg o).Counted := by
  unfold Core.addConsole
  split
  · exact h.addNew hs _ _
  · exact h

theorem Counted.addFile (h : c.Counted) (hs : c.Slotted spare) (cfg : Config) (o : Outside) :
    (c.addFile cfg o).Counted := by
  unfold Core.addFile
  split
  · exact h.addNew hs _ _
  · exact h

theorem Counted.addEach (o : Outside) : ∀ (kinds : List SinkKind) {c : Core}, c.Counted → c.Slotted spare →
    (kinds.foldl (fun c kind => (c.addNew kind (o.made kind)).1) c).Counted
  | [], _, h, _ => h
  | kind :: kinds, _, h, hs => Counted.addEach o kinds (h.addNew hs kind (o.made kind)) (hs.addNew kind (o.made kind))

theorem init_counted (h : c.Counted) (hs : c.Slotted 0) (cfg : Option Config) (o : Outside) :
    (c.hxClogInitLocked cfg o).1.Counted := by
  unfold hxClogInitLocked
  split
  · exact h
  · simp only
    generalize applyEnvOverrides o.env (cfg.getD hxClogConfigDefault) = cfg'
    have hset : (c.initTable cfg').Slotted 0 := (hs.emptied c.table.slots).congr rfl rfl rfl
    have hnone : (c.initTable cfg').Counted := rfl
    have hconsole := hnone.addConsole hset cfg' o
    have hslotted := hset.addConsole cfg' o
    split
    · exact h
    · split
      · exact hconsole
      · exact (Counted.addEach o cfg'.systemSinks (hconsole.addFile hslotted cfg' o)
          (hslotted.addFile cfg' o)).congr rfl rfl

theorem reconfigure_counted (h : c.Counted) (cfg : Option Config) (o : Outside) :
    (c.hxClogReconfigureLocked cfg o).1.Counted := by
  unfold hxClogReconfigureLocked
  split
  · exact h
  · cases cfg with
    | none => exact h
    | some cfg =>
      simp only
      split
      · exact h
      · split
        · exact h
        · exact (recompute_counted _).congr rfl rfl

theorem shutdown_counted (h : c.Counted) (o : Outside) : (c.hxClogShutdown o).Counted := by
  unfold hxClogShutdown
  split
  · exact h
  · rfl

theorem removeSink_counted (h : c.Counted) (id : Nat) : (c.hxClogRemoveSink id).1.Counted := by
  unfold hxClogRemoveSink
  split
  · exact recompute_counted _
  · exact h

theorem changeOverride_counted (h : c.Counted) (id : Nat) (f : Sink → Sink) : (c.changeOverride id f).1.Counted := by
  unfold changeOverride changeSink
  split
  · rename_i c' he
    exact recompute_counted c'
  · rename_i hfailed
    split
    · rename_i i hf
      rw [hf] at hfailed
      exact absurd rfl (hfailed _)
    · exact h

theorem setSinkLevel_counted (h : c.Counted) (hs : c.Slotted 0) (id : Nat) (minLevel : Level) :
    (c.hxClogSetSinkLevel id minLevel).1.Counted := by
  unfold hxClogSetSinkLevel
  split
  · exact h
  · unfold changeSink
    split
    · rename_i i _
      refine h.live rfl ?_
      have hlive := (hs.holds.modify i fun s => { s with minLevel := minLevel }).live
      show (c.table.modify i fun s => { s with minLevel := minLevel }).live.map Sink.overrideSet = _
      rw [hlive]
      exact map_modify Sink.overrideSet (fun s : Sink => { s with minLevel := minLevel }) (fun _ => rfl) _ _
    · exact h

/-- Opening files again changes nothing but whether they are open. -/
theorem reopen_live (hs : c.Slotted 0) (hi : c.initialized = true) (opened : Nat → Bool) :
    (c.hxClogReopen opened).1.table.live =
      c.table.live.map fun s => if s.isFile then { s with isOpen := opened s.obj } else s := by
  have hholds : Table.Holds (c.hxClogReopen opened).1.table
      (c.table.live.map fun s => if s.isFile then { s with isOpen := opened s.obj } else s) := by
    unfold hxClogReopen
    rw [if_neg (not_not_intro hi)]
    refine ⟨by rw [List.length_map]; exact hs.holds.1, fun k hk => ?_⟩
    rw [List.length_map] at hk
    rw [List.getElem?_map, ← hs.holds.2 k hk]
    rfl
  exact hholds.live

theorem reopen_counted (h : c.Counted) (hs : c.Slotted 0) (opened : Nat → Bool) : (c.hxClogReopen opened).1.Counted := by
  by_cases hi : c.initialized = true
  · refine h.live ?_ ?_
    · unfold hxClogReopen
      rw [if_neg (not_not_intro hi)]
      rfl
    · rw [reopen_live hs hi, List.map_map]
      refine List.map_congr_left fun s _ => ?_
      simp only [Function.comp]
      split <;> rfl
  · unfold hxClogReopen
    rw [if_pos hi]
    exact h

theorem run_counted (h : c.Counted) (hs : c.Slotted 0) : ∀ call : Call, (call.run c).Counted
  | .init cfg o => init_counted h hs cfg o
  | .shutdown o => shutdown_counted h o
  | .reconfigure cfg o => reconfigure_counted h cfg o
  | .addSink kind made => h.addNew hs kind made
  | .removeSink id => removeSink_counted h id
  | .setSinkLevel id minLevel => setSinkLevel_counted h hs id minLevel
  | .setSinkPattern id pattern => changeOverride_counted h id _
  | .setSinkFormatMode id mode => by
    cases mode with
    | none => exact h
    | some mode => exact changeOverride_counted h id _
  | .setPattern pattern => by
    cases pattern with
    | none => exact h
    | some p => exact h.congr rfl rfl
  | .setFormatMode mode => by
    cases mode with
    | none => exact h
    | some m => exact h.congr rfl rfl
  | .setFormatter formatter => h.congr rfl rfl
  | .reopen opened => reopen_counted h hs opened
  | .flush brought => by
    show (c.hxClogFlush brought).Counted
    obtain ⟨ops, n, hw⟩ := flush_written c brought
    rw [hw]
    exact h.congr rfl rfl
  | .flushSink id => by
    show (c.hxClogFlushSink id).1.Counted
    unfold hxClogFlushSink
    split
    · exact h.congr rfl rfl
    · exact h
  | .emit l => by
    show (c.hxCoreEmitToSinks l).Counted
    rw [emit_written]
    exact h.congr rfl rfl

/-- What holds of the table in every state. -/
theorem reachable_sound : ∀ (calls : List Call) {c : Core}, c.Slotted 0 → c.Counted →
    (runCalls c calls).Slotted 0 ∧ (runCalls c calls).Counted
  | [], _, hs, hc => ⟨hs, hc⟩
  | call :: calls, _, hs, hc => reachable_sound calls (run_slotted hs call) (run_counted hc hs call)

theorem start_slotted : coreOnceInit.Slotted 0 where
  holds := holds_nil _
  room := Nat.zero_le _
  objs := List.nodup_nil
  made := fun s hs => by cases hs
  next_pos := fun _ => Nat.one_pos
  next_le := fun _ => Nat.le_refl _
  ids := fun _ s hs => by cases hs
  distinct := fun _ => List.nodup_nil

/-! ## The format in force -/

/-- A change of the format settings has a new generation. -/
def FormatStep (c c' : Core) : Prop :=
  c.formatGen < c'.formatGen ∨ c'.snapshot = c.snapshot

theorem FormatStep.trans {c₁ c₂ c₃ : Core} (h : FormatStep c₁ c₂) (h' : FormatStep c₂ c₃) : FormatStep c₁ c₃ := by
  rcases h with hlt | heq
  · rcases h' with hlt' | heq'
    · exact .inl (Nat.lt_trans hlt hlt')
    · have hgen : c₃.formatGen = c₂.formatGen := congrArg FmtCache.gen heq'
      exact .inl (hgen ▸ hlt)
  · have hgen : c₂.formatGen = c₁.formatGen := congrArg FmtCache.gen heq
    rcases h' with hlt' | heq'
    · exact .inl (hgen ▸ hlt')
    · exact .inr (heq'.trans heq)

theorem addConsole_settings (c : Core) (cfg : Config) (o : Outside) : (c.addConsole cfg o).settings = c.settings := by
  unfold addConsole
  split
  · exact addNew_settings _ _ _
  · rfl

theorem addFile_settings (c : Core) (cfg : Config) (o : Outside) : (c.addFile cfg o).settings = c.settings := by
  unfold addFile
  split
  · exact addNew_settings _ _ _
  · rfl

theorem addEach_settings (o : Outside) : ∀ (kinds : List SinkKind) (c : Core),
    (kinds.foldl (fun c kind => (c.addNew kind (o.made kind)).1) c).settings = c.settings
  | [], _ => rfl
  | kind :: kinds, c => (addEach_settings o kinds _).trans (addNew_settings c kind _)

theorem flush_settings (c : Core) (ls : List Line) : (c.hxClogFlush ls).settings = c.settings := by
  obtain ⟨ops, n, hw⟩ := flush_written c ls
  rw [hw]
  rfl

theorem stopAsync_settings (c : Core) (o : Outside) : (c.stopAsync o).settings = c.settings := by
  unfold stopAsync
  split
  · rw [emits_written]
    rfl
  · rfl

theorem addSinkLocked_settings (c : Core) (obj : Nat) (kind : SinkKind) :
    (c.addSinkLocked (fresh obj kind 0)).1.settings = c.settings := by
  obtain ⟨t, id, ops, h⟩ := addSinkLocked_frame c obj kind
  rw [h]
  rfl

theorem addNewFile_settings (c : Core) (obj : Nat) (o : Outside) :
    (c.addNewFile (some (fresh obj .file 0)) o).settings = c.settings := by
  refine Eq.trans ?_ (addSinkLocked_settings c obj .file)
  unfold addNewFile reopenNewFile
  simp only
  split <;> rfl

/-- A state whose settings are those applied to `c` has a new generation. -/
theorem FormatStep.applied (cfg : Config) (h : c'.snapshot = (c.applyFormat cfg).snapshot) : FormatStep c c' := by
  refine .inl ?_
  have hgen : c'.formatGen = c.formatGen + 1 := congrArg FmtCache.gen h
  omega

theorem FormatStep.kept (h : c'.settings = c.settings) : FormatStep c c' := .inr (congrArg Prod.fst h)

theorem initTable_settings (c : Core) (cfg : Config) :
    (c.initTable cfg).settings = ((c.applyFormat cfg).snapshot, c.initialized, cfg.level, cfg.mode) := rfl

/-- The settings once the sinks of an init are made. -/
theorem initSinks_settings (c : Core) (cfg : Config) (o : Outside) :
    ((((c.initTable cfg).addConsole cfg o).addFile cfg o).addConfiguredSystemSinks cfg o).settings =
      ((c.applyFormat cfg).snapshot, c.initialized, cfg.level, cfg.mode) :=
  ((addEach_settings o cfg.systemSinks _).trans (addFile_settings _ _ _)).trans (addConsole_settings _ _ _)

theorem init_format (c : Core) (cfg : Option Config) (o : Outside) : FormatStep c (c.hxClogInitLocked cfg o).1 := by
  unfold hxClogInitLocked
  split
  · exact .inr rfl
  · simp only
    generalize applyEnvOverrides o.env (cfg.getD hxClogConfigDefault) = cfg'
    split
    · exact .inr rfl
    · split
      · exact .applied cfg' (congrArg Prod.fst (addConsole_settings (c.initTable cfg') cfg' o))
      · exact .applied cfg' (congrArg Prod.fst (initSinks_settings c cfg' o))

theorem teardown_settings (c : Core) (cfg : Config) (o : Outside) :
    (c.teardown cfg o).settings = (c.applyFormat cfg).settings := by
  have hquiet := (stopAsync_settings (c.hxClogFlush o.flushed) o).trans (flush_settings _ _)
  have hgen : ((c.hxClogFlush o.flushed).stopAsync o).closeNonCallbackSinksLocked.formatGen = c.formatGen :=
    congrArg (fun f => f.1.gen) hquiet
  have hinit : ((c.hxClogFlush o.flushed).stopAsync o).closeNonCallbackSinksLocked.initialized = c.initialized :=
    congrArg (fun f => f.2.1) hquiet
  have hmode : ((c.hxClogFlush o.flushed).stopAsync o).closeNonCallbackSinksLocked.mode = c.mode :=
    congrArg (fun f => f.2.2.2) hquiet
  unfold teardown applyFormat settings snapshot
  simp only [hgen, hinit, hmode]

theorem swapSinks_settings (c : Core) (cfg : Config) (o : Outside) :
    (c.swapSinks cfg o).settings = (c.applyFormat cfg).settings := by
  unfold swapSinks newFileSink
  by_cases hfile : cfg.enableFile = true
  · simp only [if_pos hfile]
    refine (addEach_settings o cfg.systemSinks _).trans ((addNewFile_settings _ _ _).trans ?_)
    exact (addConsole_settings _ cfg o).trans (teardown_settings _ cfg o)
  · simp only [if_neg hfile]
    refine (addEach_settings o cfg.systemSinks _).trans ?_
    exact (addConsole_settings _ cfg o).trans (teardown_settings _ cfg o)

theorem reconfigure_format (c : Core) (cfg : Option Config) (o : Outside) :
    FormatStep c (c.hxClogReconfigureLocked cfg o).1 := by
  unfold hxClogReconfigureLocked
  split
  · exact .inr rfl
  · cases cfg with
    | none => exact .inr rfl
    | some cfg =>
      simp only
      split
      · exact .inr rfl
      · split
        · exact .inr rfl
        · exact FormatStep.applied cfg (congrArg Prod.fst (swapSinks_settings c cfg o))

theorem shutdown_format (c : Core) (o : Outside) : FormatStep c (c.hxClogShutdown o) := by
  unfold hxClogShutdown
  split
  · exact .inr rfl
  · refine .inr ((congrArg Prod.fst (stopAsync_settings _ o)).trans ?_)
    rw [emits_written]
    rfl

theorem changeSink_settings (c : Core) (id : Nat) (f : Sink → Sink) : (c.changeSink id f).1.settings = c.settings := by
  unfold changeSink
  split <;> rfl

theorem changeOverride_settings (c : Core) (id : Nat) (f : Sink → Sink) :
    (c.changeOverride id f).1.settings = c.settings := by
  have h := changeSink_settings c id f
  unfold changeOverride
  split
  · rename_i c' he
    rw [he] at h
    exact h
  · exact h

/-- The calls that begin or end a life, or set the format for all sinks. -/
def setsFormat : Call → Bool
  | .init _ _ | .shutdown _ | .reconfigure _ _ | .setPattern _ | .setFormatMode _ | .setFormatter _ => true
  | _ => false

theorem setSinkLevel_settings (c : Core) (id : Nat) (minLevel : Level) :
    (c.hxClogSetSinkLevel id minLevel).1.settings = c.settings := by
  unfold hxClogSetSinkLevel
  split
  · rfl
  · exact changeSink_settings _ _ _

theorem removeSink_settings (c : Core) (id : Nat) : (c.hxClogRemoveSink id).1.settings = c.settings := by
  unfold hxClogRemoveSink
  split <;> rfl

theorem reopen_settings (c : Core) (opened : Nat → Bool) : (c.hxClogReopen opened).1.settings = c.settings := by
  unfold hxClogReopen
  split <;> rfl

theorem flushSink_settings (c : Core) (id : Nat) : (c.hxClogFlushSink id).1.settings = c.settings := by
  unfold hxClogFlushSink
  split <;> rfl

theorem emit_settings (c : Core) (l : Line) : (c.hxCoreEmitToSinks l).settings = c.settings := by
  rw [emit_written]
  rfl

/-- The other calls leave the settings alone. -/
theorem run_settings (c : Core) {call : Call} (h : setsFormat call = false) : (call.run c).settings = c.settings := by
  cases call with
  | addSink kind made => exact addNew_settings c kind made
  | removeSink id => exact removeSink_settings c id
  | setSinkLevel id minLevel => exact setSinkLevel_settings c id minLevel
  | setSinkPattern id pattern => exact changeOverride_settings _ _ _
  | setSinkFormatMode id mode =>
    cases mode with
    | none => rfl
    | some mode => exact changeOverride_settings _ _ _
  | reopen opened => exact reopen_settings c opened
  | flush brought => exact flush_settings c brought
  | flushSink id => exact flushSink_settings c id
  | emit l => exact emit_settings c l
  | _ => cases h

theorem run_format (c : Core) (call : Call) : FormatStep c (call.run c) := by
  cases call with
  | init cfg o => exact init_format c cfg o
  | shutdown o => exact shutdown_format c o
  | reconfigure cfg o => exact reconfigure_format c cfg o
  | setPattern pattern =>
    cases pattern with
    | none => exact .inr rfl
    | some p => exact .inl (Nat.lt_succ_self _)
  | setFormatMode mode =>
    cases mode with
    | none => exact .inr rfl
    | some m => exact .inl (Nat.lt_succ_self _)
  | setFormatter formatter => exact .inl (Nat.lt_succ_self _)
  | _ => exact .kept (run_settings c rfl)

theorem runCalls_format : ∀ (calls : List Call) (c : Core), FormatStep c (runCalls c calls)
  | [], _ => .inr rfl
  | call :: calls, c => (run_format c call).trans (runCalls_format calls (call.run c))

/-- A refreshed copy is the format in force. -/
theorem refresh_current {calls : List Call} {th : FmtCache} (h : SeenBy calls th) :
    fmtCacheRefresh (runCalls coreOnceInit calls) th = (runCalls coreOnceInit calls).snapshot := by
  unfold fmtCacheRefresh
  split
  · rename_i hgen
    rcases h with hnever | ⟨before, after, rfl, rfl⟩
    · -- no state has generation 0
      rcases runCalls_format calls coreOnceInit with hlt | heq
      · omega
      · have hone : (runCalls coreOnceInit calls).formatGen = 1 := congrArg FmtCache.gen heq
        omega
    · have hsplit : runCalls coreOnceInit (before ++ after) = runCalls (runCalls coreOnceInit before) after :=
        List.foldl_append
      rw [hsplit] at hgen ⊢
      rcases runCalls_format after (runCalls coreOnceInit before) with hlt | heq
      · exact absurd hgen (Nat.ne_of_gt hlt)
      · exact heq.symm
  · rfl

/-! ## One line for every sink -/

/-- The format of a sink: its own, with the global pattern if it has none, or the global one. -/
def sinkFormat (c : Core) (s : Sink) : Format :=
  if s.overrideSet then ⟨some (if s.overrideHasPattern then s.overridePattern else c.pattern), s.overrideMode, none⟩
  else ⟨some c.pattern, c.formatMode, c.formatter⟩

theorem collectLocked_eq (hs : c.Slotted spare) :
    c.collectLocked.1 = (c.table.live.filter Sink.overrideSet).map Sink.override ∧
      (c.collectLocked.2 = false → ∀ s ∈ c.table.live, s.overrideSet = true) := by
  have hlen : c.table.live.length ≤ maxSinks := hs.holds.1 ▸ hs.room
  have htake : (c.table.live.filter Sink.overrideSet).take maxSinks = c.table.live.filter Sink.overrideSet :=
    List.take_of_length_le (Nat.le_trans (List.length_filter_le _ _) hlen)
  unfold collectLocked
  rw [htake]
  refine ⟨rfl, fun hnone s hmem => ?_⟩
  simp only [decide_eq_false_iff_not, Nat.not_lt, Nat.le_zero, List.length_eq_zero_iff, List.filter_eq_nil_iff] at hnone
  simpa using hnone s hmem

/-- Without a counted override there is none. -/
theorem Counted.none (hc : c.Counted) (h : ¬0 < c.overrideCount) : c.table.live.filter Sink.overrideSet = [] := by
  have hzero : c.table.live.countP Sink.overrideSet = 0 := hc ▸ Nat.eq_zero_of_not_pos h
  rw [List.filter_eq_nil_iff]
  exact List.countP_eq_zero.mp hzero

theorem collectOverrides_eq (hs : c.Slotted spare) (hc : c.Counted) :
    c.collectOverrides.1 = (c.table.live.filter Sink.overrideSet).map Sink.override ∧
      (c.collectOverrides.2 = false → ∀ s ∈ c.table.live, s.overrideSet = true) := by
  rw [collectOverrides_locked]
  by_cases hpos : 0 < c.overrideCount
  · rw [if_pos hpos]
    exact collectLocked_eq hs
  · rw [if_neg hpos, hc.none hpos]
    refine ⟨rfl, fun hfalse => ?_⟩
    cases hfalse

/-- Of the lines of the overrides the one for a sink with this id. -/
theorem overrideLines_for (g : Nat → OverrideSnap → Line) (hg : ∀ k o, (g k o).target = o.id) :
    ∀ (l : List Sink), (l.map Sink.id).Nodup → ∀ s ∈ l, ∀ (n : Nat), ∃ k,
      (((l.map Sink.override).mapIdx fun i => g (i + n)).filter fun x => x.target = s.id) = [g k s.override]
  | [], _, s, hs, _ => by cases hs
  | a :: l, hnd, s, hs, n => by
    rw [List.map_cons, List.nodup_cons] at hnd
    rw [List.map_cons, List.mapIdx_cons]
    have hshift : ((l.map Sink.override).mapIdx fun i => g (i + 1 + n)) =
        (l.map Sink.override).mapIdx fun i => g (i + (n + 1)) := by
      refine congrArg (fun f => List.mapIdx f (l.map Sink.override)) (funext fun i => ?_)
      rw [Nat.add_assoc, Nat.add_comm 1 n]
    rw [hshift]
    rcases List.mem_cons.mp hs with rfl | hmem
    · have hrest : (((l.map Sink.override).mapIdx fun i => g (i + (n + 1))).filter fun x => x.target = s.id) = [] := by
        rw [List.filter_eq_nil_iff]
        intro x hx ht
        obtain ⟨i, hi, rfl⟩ := List.mem_mapIdx.mp hx
        simp only [hg, decide_eq_true_eq] at ht
        refine hnd.1 (ht ▸ ?_)
        rw [List.getElem_map]
        exact List.mem_map_of_mem (List.getElem_mem _)
      refine ⟨0 + n, ?_⟩
      rw [List.filter_cons_of_pos (by simp only [hg]; exact decide_eq_true rfl), hrest]
    · have hne : ¬a.id = s.id := fun he => hnd.1 (he ▸ List.mem_map_of_mem hmem)
      obtain ⟨k, hk⟩ := overrideLines_for g hg l hnd.2 s hmem (n + 1)
      refine ⟨k, ?_⟩
      rw [List.filter_cons_of_neg (by simp only [hg, decide_eq_true_eq]; exact hne)]
      exact hk

theorem overrideLines_target (g : Nat → OverrideSnap → Line) (hg : ∀ k o, (g k o).target = o.id) {l : List Sink} {x : Line}
    (hx : x ∈ (l.map Sink.override).mapIdx g) : ∃ s ∈ l, x.target = s.id := by
  obtain ⟨i, hi, rfl⟩ := List.mem_mapIdx.mp hx
  rw [hg, List.getElem_map]
  exact ⟨_, List.getElem_mem _, rfl⟩

theorem routes_id {target : Nat} (h : 0 < target) (s : Sink) : routes target s = decide (s.id = target) :=
  if_neg (Nat.ne_of_gt h)

/-- A record that is routed with all overrides of the table has one line for each sink, in the sink's format. -/
theorem lines_routed (hids : ∀ s ∈ c.table.live, 0 < s.id) (hdistinct : (c.table.live.map Sink.id).Nodup)
    {ovs : List OverrideSnap} {b : Bool} (hovs : ovs = (c.table.live.filter Sink.overrideSet).map Sink.override)
    (hdefault : b = false → ∀ s ∈ c.table.live, s.overrideSet = true) (th : FmtCache) (e : Renderer) (rec : Record)
    {s : Sink} (hmem : s ∈ c.table.live) :
    ∃ k l, ((dispatchLines th e rec ovs b).filter fun l => routes l.target s) = [l] ∧
      l.bytes = e.line k (if s.overrideSet then s.override.format th else th.format) rec := by
  have hsub : ((c.table.live.filter Sink.overrideSet).map Sink.id).Nodup :=
    hdistinct.sublist (List.filter_sublist.map _)
  unfold dispatchLines
  rw [hovs]
  simp only [List.filter_append]
  generalize hcounted : (b || ((c.table.live.filter Sink.overrideSet).map Sink.override).isEmpty) = counted
  have htarget : ∀ k o, (overrideLine th e rec counted k o).target = o.id := fun _ _ => rfl
  by_cases hset : s.overrideSet = true
  · -- the default line passes it by, and of the others one has its id
    have hfirst : ((if counted = true then [⟨rec.level, e.line 0 th.format rec, 0, true⟩] else []).filter
        fun l : Line => routes l.target s) = [] := by
      rw [List.filter_eq_nil_iff]
      intro l hl
      split at hl
      · rw [List.mem_singleton.mp hl]
        simp [routes, hset]
      · cases hl
    have hin : s ∈ c.table.live.filter Sink.overrideSet := List.mem_filter.mpr ⟨hmem, hset⟩
    obtain ⟨k, hk⟩ := overrideLines_for _ htarget _ hsub s hin 0
    have hsame : (((c.table.live.filter Sink.overrideSet).map Sink.override).mapIdx
          (overrideLine th e rec counted)).filter (fun l => routes l.target s) =
        (((c.table.live.filter Sink.overrideSet).map Sink.override).mapIdx
          (overrideLine th e rec counted)).filter fun l => l.target = s.id := by
      refine List.filter_congr fun l hl => ?_
      obtain ⟨s', hs', ht⟩ := overrideLines_target _ htarget hl
      have hpos := hids s' (List.mem_of_mem_filter hs')
      rw [ht, routes_id hpos]
      exact decide_eq_decide.mpr eq_comm
    rw [hfirst, hsame, if_pos hset]
    exact ⟨k + 1, overrideLine th e rec counted k s.override, hk, rfl⟩
  · -- the default line is for it, and none of the others has its id
    have hcount : counted = true := by
      rw [← hcounted]
      cases hdef : b with
      | true => rfl
      | false => exact absurd (hdefault hdef s hmem) hset
    have hrest : (((c.table.live.filter Sink.overrideSet).map Sink.override).mapIdx
        (overrideLine th e rec counted)).filter (fun l => routes l.target s) = [] := by
      rw [List.filter_eq_nil_iff]
      intro l hl
      have hother : ∀ s' ∈ c.table.live.filter Sink.overrideSet, s'.id ≠ s.id := by
        intro s' hs' he
        obtain ⟨hlive, hover⟩ := List.mem_filter.mp hs'
        have heq := List.inj_on_of_nodup_map hdistinct hlive hmem he
        exact hset (heq ▸ hover)
      obtain ⟨s', hs', ht⟩ := overrideLines_target _ htarget hl
      have hpos := hids s' (List.mem_of_mem_filter hs')
      rw [ht, routes_id hpos, decide_eq_true_eq]
      exact fun he => hother s' hs' he.symm
    rw [hrest, hcount, if_pos rfl, if_neg hset]
    refine ⟨0, ⟨rec.level, e.line 0 th.format rec, 0, true⟩, ?_, rfl⟩
    simp [routes, hset]

/-- The lines of a record that go to a sink: one, in the sink's format. -/
theorem lines_for_sink (hs : c.Slotted spare) (hc : c.Counted) (hcreated : c.created < 2 ^ 32 - 1) (e : Renderer)
    (rec : Record) {s : Sink} (hmem : s ∈ c.table.live) :
    ∃ k l, ((dispatchLines c.snapshot e rec c.collectOverrides.1 c.collectOverrides.2).filter
        fun l => routes l.target s) = [l] ∧ l.bytes = e.line k (c.sinkFormat s) rec := by
  obtain ⟨hovs, hdefault⟩ := collectOverrides_eq hs hc
  have hids := hs.ids hcreated
  exact lines_routed (fun s hs => (hids s hs).1) (hs.distinct hcreated) hovs hdefault c.snapshot e rec hmem

/-- One line of a record is counted. -/
theorem lines_counted (th : FmtCache) (e : Renderer) (rec : Record) (ovs : List OverrideSnap) (b : Bool) :
    (dispatchLines th e rec ovs b).countP Line.countStats = 1 := by
  have hrest (counted : Bool) (l : List OverrideSnap) :
      (l.mapIdx fun i => overrideLine th e rec counted (i + 1)).countP Line.countStats = 0 := by
    rw [List.countP_eq_zero]
    intro x hx
    obtain ⟨i, hi, rfl⟩ := List.mem_mapIdx.mp hx
    simp [overrideLine]
  unfold dispatchLines
  cases ovs with
  | nil => simp
  | cons o ovs =>
    cases b with
    | true =>
      simp only [Bool.true_or, if_true, List.mapIdx_cons, List.countP_append, List.countP_cons, hrest]
      simp [overrideLine]
    | false =>
      simp only [List.isEmpty_cons, Bool.false_or, Bool.false_eq_true, if_false, List.mapIdx_cons, List.countP_append,
        List.countP_cons, hrest]
      simp [overrideLine]

/-! ## What is written -/

/-- What was written to a sink object. -/
def writesTo (obj : Nat) (ops : List Op) : List (Level × Bytes) :=
  ops.filterMap fun
    | .write obj' level line => if obj' = obj then some (level, line) else none
    | _ => none

theorem writesTo_append (obj : Nat) (ops ops' : List Op) : writesTo obj (ops ++ ops') = writesTo obj ops ++ writesTo obj ops' :=
  List.filterMap_append

theorem writesTo_flush (obj : Nat) (l : List Sink) : writesTo obj (l.map fun s => .flush s.obj) = [] := by
  unfold writesTo
  rw [List.filterMap_eq_nil_iff]
  intro op hop
  obtain ⟨s, -, rfl⟩ := List.mem_map.mp hop
  rfl

theorem writesTo_write (obj : Nat) (level : Level) (line : Bytes) (s : Sink) :
    writesTo obj (hxSinkWrite level line s) = if s.obj = obj ∧ s.minLevel ≤ level then [(level, line)] else [] := by
  unfold hxSinkWrite
  by_cases hlt : level < s.minLevel
  · rw [if_pos hlt, if_neg fun h => absurd h.2 (Int.not_le.mpr hlt)]
    rfl
  · rw [if_neg hlt]
    by_cases hobj : s.obj = obj
    · rw [if_pos ⟨hobj, Int.not_lt.mp hlt⟩]
      simp [writesTo, hobj]
    · rw [if_neg fun h => hobj h.1]
      simp [writesTo, hobj]

/-- A line reaches a sink once, if it goes to it and the level passes. -/
theorem writesTo_line (r : Sink → Bool) (level : Level) (line : Bytes) : ∀ (l : List Sink), (l.map Sink.obj).Nodup →
    ∀ s ∈ l, writesTo s.obj ((l.filter r).flatMap (hxSinkWrite level line)) =
      if r s = true ∧ s.minLevel ≤ level then [(level, line)] else []
  | [], _, s, hs => by cases hs
  | a :: l, hnd, s, hs => by
    rw [List.map_cons, List.nodup_cons] at hnd
    have hcons : writesTo s.obj (((a :: l).filter r).flatMap (hxSinkWrite level line)) =
        (if r a = true then writesTo s.obj (hxSinkWrite level line a) else []) ++
          writesTo s.obj ((l.filter r).flatMap (hxSinkWrite level line)) := by
      by_cases hr : r a = true
      · rw [List.filter_cons_of_pos hr, List.flatMap_cons, writesTo_append, if_pos hr]
      · rw [List.filter_cons_of_neg hr, if_neg hr, List.nil_append]
    rw [hcons]
    rcases List.mem_cons.mp hs with rfl | hmem
    · have hrest : writesTo s.obj ((l.filter r).flatMap (hxSinkWrite level line)) = [] := by
        unfold writesTo
        rw [List.filterMap_eq_nil_iff]
        intro op hop
        obtain ⟨s', hs', hop⟩ := List.mem_flatMap.mp hop
        have hne : s'.obj ≠ s.obj := fun he => hnd.1 (he ▸ List.mem_map_of_mem (List.mem_of_mem_filter hs'))
        unfold hxSinkWrite at hop
        split at hop
        · cases hop
        · rw [List.mem_singleton.mp hop]
          exact if_neg hne
      rw [hrest, List.append_nil, writesTo_write]
      by_cases hr : r s = true <;> simp [hr]
    · have hne : ¬a.obj = s.obj := fun he => hnd.1 (he ▸ List.mem_map_of_mem hmem)
      have ih := writesTo_line r level line l hnd.2 s hmem
      have hnone : writesTo s.obj (hxSinkWrite level line a) = [] := by
        rw [writesTo_write]
        exact if_neg fun h => hne h.1
      rw [ih, hnone, ite_self, List.nil_append]

theorem writesTo_lines {obj : Nat} {s : Sink} {t : Table Sink} (hobj : s.obj = obj) (hnd : (t.live.map Sink.obj).Nodup)
    (hmem : s ∈ t.live) (level : Level) : ∀ ls : List Line, (∀ l ∈ ls, l.level = level) →
    writesTo obj (ls.flatMap (emitOps t)) =
      if s.minLevel ≤ level then (ls.filter fun l => routes l.target s).map fun l => (level, l.bytes) else []
  | [], _ => by simp [writesTo]
  | l :: ls, hl => by
    have ih := writesTo_lines hobj hnd hmem level ls fun l' hl' => hl l' (List.mem_cons_of_mem _ hl')
    have hlevel : l.level = level := hl l List.mem_cons_self
    have hline := writesTo_line (routes l.target) l.level l.bytes t.live hnd s hmem
    subst hobj
    rw [List.flatMap_cons, writesTo_append, ih]
    unfold emitOps
    rw [hline, hlevel]
    by_cases hp : s.minLevel ≤ level
    · by_cases hr : routes l.target s = true
      · simp [hp, hr]
      · simp [hp, hr]
    · simp [hp]

theorem dispatchLines_level (th : FmtCache) (e : Renderer) (rec : Record) (ovs : List OverrideSnap) (b : Bool) :
    ∀ l ∈ dispatchLines th e rec ovs b, l.level = rec.level := by
  intro l hl
  unfold dispatchLines at hl
  rcases List.mem_append.mp hl with hl | hl
  · split at hl
    · rw [List.mem_singleton.mp hl]
    · cases hl
  · obtain ⟨i, hi, rfl⟩ := List.mem_mapIdx.mp hl
    rfl

/-- In synchronous mode the lines are emitted at once. -/
theorem dispatch_sync (enqueue : Core → Line → Core) : ∀ (ls : List Line) {c : Core}, c.mode = .sync →
    ls.foldl (coreDispatchLine enqueue) c = ls.foldl hxCoreEmitToSinks c
  | [], _, _ => rfl
  | l :: ls, c, h => by
    have hline : coreDispatchLine enqueue c l = c.hxCoreEmitToSinks l := by
      unfold coreDispatchLine
      rw [h]
    have hmode : (c.hxCoreEmitToSinks l).mode = .sync := by
      rw [emit_written]
      exact h
    rw [List.foldl_cons, List.foldl_cons, hline]
    exact dispatch_sync enqueue ls hmode

/-- The order of the table. -/
structure InOrder (c : Core) : Prop where
  filled : c.table.Filled
  ids : ∀ s ∈ c.table.live, s.id ≠ 0
  distinct : (c.table.live.map Sink.id).Nodup
  overrides : c.overrideCount = c.table.live.countP Sink.overrideSet

/-- Every sink gets the record once, in its format, if its level passes, and one line is counted. -/
def DeliversOnce (c c' : Core) (e : Renderer) (rec : Record) : Prop :=
  c'.writtenLines = c.writtenLines + 1 ∧
    ∃ ops, c'.ops = c.ops ++ ops ∧ ∀ s ∈ c.table.live, ∃ k,
      writesTo s.obj ops = if s.minLevel ≤ rec.level then [(rec.level, e.line k (c.sinkFormat s) rec)] else []

theorem dispatch_delivers (hs : c.Slotted spare) (hc : c.Counted) (hcreated : c.created < 2 ^ 32 - 1)
    (hmode : c.mode = .sync) {th : FmtCache} (hth : fmtCacheRefresh c th = c.snapshot) (enqueue : Core → Line → Core)
    (e : Renderer) (rec : Record) : DeliversOnce c (c.dispatchRecord enqueue th e rec).1 e rec := by
  have hlines := emits_written (dispatchLines c.snapshot e rec c.collectOverrides.1 c.collectOverrides.2) c
  rw [lines_counted] at hlines
  have hsent (s : Sink) (hmem : s ∈ c.table.live) : ∃ k,
      writesTo s.obj ((dispatchLines c.snapshot e rec c.collectOverrides.1 c.collectOverrides.2).flatMap
        (emitOps c.table)) =
      if s.minLevel ≤ rec.level then [(rec.level, e.line k (c.sinkFormat s) rec)] else [] := by
    obtain ⟨k, l, hl, hbytes⟩ := lines_for_sink hs hc hcreated e rec hmem
    refine ⟨k, ?_⟩
    rw [writesTo_lines rfl hs.objs hmem rec.level _ (dispatchLines_level _ _ _ _ _), hl, ← hbytes]
    rfl
  unfold dispatchRecord
  simp only [hth]
  rw [dispatch_sync enqueue _ hmode, hlines]
  split
  · -- a FATAL record is followed by a flush of the sinks
    unfold hxClogFlush
    split
    · exact ⟨rfl, _, rfl, hsent⟩
    · refine ⟨rfl, _, List.append_assoc _ _ _, fun s hmem => ?_⟩
      obtain ⟨k, hk⟩ := hsent s hmem
      refine ⟨k, ?_⟩
      rw [writesTo_append, hk]
      exact (congrArg (_ ++ ·) (writesTo_flush s.obj c.table.live)).trans (List.append_nil _)
  · exact ⟨rfl, _, rfl, hsent⟩

end Core

/-- After any calls the table is in order, and in synchronous mode a record that is
dispatched is written once to every sink that it concerns. -/
theorem table_in_order (calls : List Call) (h : (runCalls coreOnceInit calls).created < 2 ^ 32 - 1) :
    (runCalls coreOnceInit calls).InOrder ∧
      ((runCalls coreOnceInit calls).mode = .sync →
        ∀ (th : FmtCache) (enqueue : Core → Line → Core) (e : Renderer) (rec : Record), SeenBy calls th →
          Core.DeliversOnce (runCalls coreOnceInit calls)
            ((runCalls coreOnceInit calls).dispatchRecord enqueue th e rec).1 e rec) := by
  obtain ⟨hs, hc⟩ := Core.reachable_sound calls Core.start_slotted (show coreOnceInit.Counted from rfl)
  refine ⟨⟨hs.holds.filled, fun s hmem => Nat.ne_of_gt (hs.ids h s hmem).1, hs.distinct h, hc⟩, ?_⟩
  intro hmode th enqueue e rec hth
  exact Core.dispatch_delivers hs hc h hmode (Core.refresh_current hth) enqueue e rec

/-- No sinks but those that are added. -/
def bareConfig : Config := { hxClogConfigDefault with enableConsole := false, enableFile := false }

/-- Two callback sinks, one of them with a format of its own. -/
def twoCallbacks : List Call :=
  [.init (some bareConfig) {}, .addSink .callback true, .addSink .callback true, .setSinkFormatMode 2 (some .json)]

theorem table_in_order_two : (runCalls coreOnceInit twoCallbacks).InOrder ∧
    ((runCalls coreOnceInit twoCallbacks).mode = .sync →
      ∀ (th : FmtCache) (enqueue : Core → Line → Core) (e : Renderer) (rec : Record), SeenBy twoCallbacks th →
        Core.DeliversOnce (runCalls coreOnceInit twoCallbacks)
          ((runCalls coreOnceInit twoCallbacks).dispatchRecord enqueue th e rec).1 e rec) :=
  table_in_order twoCallbacks (by decide)

end HxClog
