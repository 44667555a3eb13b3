import HxClog.CrashRing
import HxClog.DupFolding
import HxClog.JsonLines
import HxClog.RoutingSound

/-!
# From a call to the sinks

A thread in synchronous mode that logs and flushes: its calls pass the level filter and
the suppression of duplicates, and every record is rendered, pushed into the crash ring
and written to the sinks. What a sink gets is what folding the calls says, each record in
the sink's format.
-/

namespace HxClog

open C

/-! ## One thread -/

theorem loggerName_fits (name : CStr) : (name.cut 128).bytes.length < 128 := by
  show (cut 128 name.bytes).length < 128
  rw [cut_length]
  omega

/-- What a thread works on. `rendered` counts its records. -/
structure LogThread where
  core : Core
  dup : DupState
  cache : FmtCache
  ring : CrashRing
  rendered : Nat

namespace LogThread

variable (enqueue : Core → Line → Core) (env : Nat → Renderer) (lineCap : Option UInt32)

/-- What `core_writev` reads. -/
def writer (t : LogThread) : Writer where
  initialized := t.core.initialized
  level := t.core.level
  lineCap := lineCap
  loggerName := (fmtCacheRefresh t.core t.cache).loggerName.cut 128
  loggerName_fits := loggerName_fits _
  dup := t.dup

/-- `core_dispatch_record` with the crash ring. -/
def dispatch (t : LogThread) (rec : Record) : Option LogThread := do
  let e := env t.rendered
  let ring ← t.ring.hxRingPush (e.line 0 (fmtCacheRefresh t.core t.cache).format rec)
  let r := t.core.dispatchRecord enqueue t.cache e rec
  some { t with core := r.1, cache := r.2, ring := ring, rendered := t.rendered + 1 }

/-- The records of an event go out one after the other; a flush goes on to the sinks. -/
def handle (t : LogThread) (ev : Event) : Option LogThread := do
  let r := ev.run (t.writer lineCap)
  let t ← r.2.foldlM (dispatch enqueue env) { t with dup := r.1.dup }
  match ev with
  | .write _ => some t
  | .flush _ => some { t with core := t.core.hxClogFlush [] }

def run (t : LogThread) (evs : List Event) : Option LogThread := evs.foldlM (handle enqueue env lineCap) t

end LogThread

/-! ## What the events give -/

namespace Writer

variable {w : Writer}

/-- The record of a call that is not turned away, when nothing is folded. -/
def acceptedRecord (w : Writer) : Event → Option Record
  | .write c => (w.accepted c).map (w.record c)
  | .flush _ => none

/-- The records of some events, by folding the calls if duplicates are suppressed. -/
def expected (w : Writer) (evs : List Event) : List Record :=
  if w.dup.enabled then (w.runsOf evs).flatMap fun r => r.output.map w.render else evs.filterMap w.acceptedRecord

/-- At the start of a session nothing is remembered; and names and messages are kept whole where they are compared. -/
structure Starts (w : Writer) (evs : List Event) : Prop where
  initialized : w.initialized = true
  haveLast : w.dup.haveLast = false
  repeats : w.dup.repeats = 0
  short : w.dup.enabled = true → ∀ c text, .write c ∈ evs → w.accepted c = some text → (w.key c text).Short

theorem event_keeps (w : Writer) (ev : Event) : ∃ d, (ev.run w).1 = w.withDup d := by
  by_cases hi : w.initialized = true
  · cases ev with
    | flush m => exact ⟨_, congrArg Prod.fst (hxClogFlush_spec hi m)⟩
    | write c =>
      show ∃ d, (coreWritev w c).1 = w.withDup d
      cases ha : w.accepted c with
      | none =>
        rw [coreWritev_turned_away ha]
        exact ⟨w.dup, rfl⟩
      | some text =>
        by_cases he : w.dup.enabled = true
        · rw [coreWritev_spec hi he ha]
          split
          · exact ⟨_, rfl⟩
          · exact ⟨_, rfl⟩
        · obtain ⟨hp, htext⟩ := Writer.accepted_eq ha
          have hgo : ¬(¬w.initialized = true ∨ ¬w.passes c = true) := by simp [hi, hp]
          unfold coreWritev
          simp only [if_neg hgo, htext, if_neg he]
          unfold coreDispatchRecord
          split
          · rw [hxClogFlush_spec hi]
            exact ⟨_, rfl⟩
          · exact ⟨w.dup, rfl⟩
  · cases ev with
    | flush m => exact ⟨w.dup, congrArg Prod.fst (hxClogFlush_off hi m)⟩
    | write c => exact ⟨w.dup, congrArg Prod.fst (coreWritev_off hi c)⟩

/-- Without suppression every accepted call is a record. -/
theorem events_plain (hi : w.initialized = true) (he : ¬w.dup.enabled = true) (hr : w.dup.repeats = 0) :
    ∀ evs : List Event, runEvents w evs = (w, evs.filterMap w.acceptedRecord)
  | [] => rfl
  | ev :: evs => by
    have ih := events_plain hi he hr evs
    have hev : ev.run w = (w, (w.acceptedRecord ev).toList) := by
      cases ev with
      | flush m => exact hxClogFlush_idle hr m flushDepth
      | write c =>
        show coreWritev w c = (w, ((w.accepted c).map (w.record c)).toList)
        cases ha : w.accepted c with
        | none => exact coreWritev_turned_away ha
        | some text =>
          obtain ⟨hp, htext⟩ := Writer.accepted_eq ha
          have hgo : ¬(¬w.initialized = true ∨ ¬w.passes c = true) := by simp [hi, hp]
          unfold coreWritev
          simp only [if_neg hgo, htext, if_neg he]
          exact coreDispatchRecord_idle hr _ _ _
    unfold runEvents
    simp only [hev, ih]
    rw [List.filterMap_cons]
    cases w.acceptedRecord ev <;> rfl

theorem events_expected {evs : List Event} (h : w.Starts evs) : (runEvents w evs).2 = w.expected evs := by
  unfold expected
  by_cases he : w.dup.enabled = true
  · obtain ⟨d, hdone, -⟩ := events_folding h.initialized evs he (s := none) ⟨h.haveLast, h.repeats⟩ (h.short he)
    have hdone : runEvents w evs = _ := hdone
    rw [if_pos he, hdone, Folding.run_idle, List.map_flatMap]
    rfl
  · rw [if_neg he, events_plain h.initialized he h.repeats]

end Writer

/-! ## The text of a line -/

/-- The text of a record in a format without a custom formatter. -/
def Format.text (localtime : Int → Tm) (fmt : Format) (rec : Record) : Bytes :=
  match fmt.mode with
  | .json => jsonText rec (localtime rec.timestampSec)
  | .pattern => patternText localtime fmt.pattern rec

/-- The stack buffer is there, and memory when it is asked for. -/
structure Renderer.Supplied (localtime : Int → Tm) (lineCap : Option UInt32) (e : Renderer) : Prop where
  localtime_eq : e.localtime = localtime
  lineCap_eq : e.lineCap = lineCap
  stack : ∀ k, lineStackSize ≤ (e.stack k).length
  heap : ∀ k n, ((e.heap k).malloc n).isSome

section
variable {localtime : Int → Tm} {lineCap : Option UInt32} {e : Renderer} {fmt : Format} {rec : Record}

theorem line_text (h : e.Supplied localtime lineCap) (hf : fmt.formatter = none)
    (hfit : LineFits lineCap lineStackSize (fmt.text localtime rec).length) (k : Nat) :
    e.line k fmt rec = fmt.text localtime rec := by
  have hs : Fits (e.stack k) lineStackSize := ⟨by decide, h.stack k, by decide⟩
  obtain ⟨pattern, mode, formatter⟩ := fmt
  obtain rfl : formatter = none := hf
  unfold Renderer.line
  rw [h.localtime_eq, h.lineCap_eq]
  cases mode with
  | json =>
    exact formatWithRetry_whole hs (fun _ _ _ hm => hxFormatJsonRecord_spec localtime rec hm) (.inr (h.heap k _)) hfit
  | pattern =>
    exact formatWithRetry_whole hs (fun _ _ _ hm => hxFormatRecord_spec localtime pattern rec hm) (.inr (h.heap k _)) hfit

end

namespace Core

/-- The format of the line that goes to the sinks without an override, and to the crash ring. -/
def defaultFormat (c : Core) : Format := ⟨some c.pattern, c.formatMode, c.formatter⟩

/-- What a sink gets of some records. -/
def sent (localtime : Int → Tm) (c : Core) (s : Sink) (recs : List Record) : List (Level × Bytes) :=
  (recs.filter fun rec => s.minLevel ≤ rec.level).map fun rec => (rec.level, (c.sinkFormat s).text localtime rec)

theorem sent_append (localtime : Int → Tm) (c : Core) (s : Sink) (recs more : List Record) :
    c.sent localtime s (recs ++ more) = c.sent localtime s recs ++ c.sent localtime s more := by
  unfold sent
  rw [List.filter_append, List.map_append]

/-- Every line of the record fits. -/
def LinesFit (localtime : Int → Tm) (lineCap : Option UInt32) (c : Core) (rec : Record) : Prop :=
  LineFits lineCap lineStackSize (c.defaultFormat.text localtime rec).length ∧
    ∀ s ∈ c.table.live, LineFits lineCap lineStackSize ((c.sinkFormat s).text localtime rec).length

/-! ## Dispatching changes nothing else -/

section
variable {c : Core} {spare : Nat}

theorem written_written (c : Core) (ops ops' : List Op) (n n' : Nat) :
    (c.written ops n).written ops' n' = c.written (ops ++ ops') (n + n') := by
  unfold written
  rw [List.append_assoc, Nat.add_assoc]

theorem dispatch_written (enqueue : Core → Line → Core) (hmode : c.mode = .sync) (th : FmtCache) (e : Renderer)
    (rec : Record) : ∃ ops n, c.dispatchRecord enqueue th e rec = (c.written ops n, fmtCacheRefresh c th) := by
  unfold dispatchRecord
  simp only [dispatch_sync enqueue _ hmode, emits_written]
  split
  · generalize dispatchLines (fmtCacheRefresh c th) e rec c.collectOverrides.1 c.collectOverrides.2 = lines
    obtain ⟨ops, n, hflush⟩ := flush_written (c.written (lines.flatMap (emitOps c.table)) (lines.countP Line.countStats)) []
    rw [hflush, written_written]
    exact ⟨_, _, rfl⟩
  · exact ⟨_, _, rfl⟩

/-- A record that is dispatched is written to the sinks, and nothing else of `g_core` changes. -/
theorem dispatch_sent (hs : c.Slotted spare) (hc : c.Counted) (hcreated : c.created < 2 ^ 32 - 1) (hmode : c.mode = .sync)
    (hf : c.formatter = none) {th : FmtCache} (hth : fmtCacheRefresh c th = c.snapshot) (enqueue : Core → Line → Core)
    {localtime : Int → Tm} {lineCap : Option UInt32} {e : Renderer} (he : e.Supplied localtime lineCap) {rec : Record}
    (hfit : c.LinesFit localtime lineCap rec) :
    ∃ ops, c.dispatchRecord enqueue th e rec = (c.written ops 1, c.snapshot) ∧
      ∀ s ∈ c.table.live, writesTo s.obj ops = c.sent localtime s [rec] := by
  obtain ⟨ops', n, hframe⟩ := dispatch_written enqueue hmode th e rec
  obtain ⟨hlines, ops, hops, hsent⟩ := dispatch_delivers hs hc hcreated hmode hth enqueue e rec
  rw [hframe] at hlines hops
  have hn : n = 1 := Nat.add_left_cancel hlines
  have hsame : ops' = ops := List.append_cancel_left hops
  refine ⟨ops, ?_, fun s hmem => ?_⟩
  · rw [hframe, hn, hsame, hth]
  · obtain ⟨k, hk⟩ := hsent s hmem
    have hformatter : (c.sinkFormat s).formatter = none := by
      unfold sinkFormat
      split
      · rfl
      · exact hf
    rw [hk, line_text he hformatter (hfit.2 s hmem)]
    unfold sent
    by_cases hlevel : s.minLevel ≤ rec.level
    · rw [if_pos hlevel, List.filter_cons_of_pos (by simpa using hlevel)]
      rfl
    · rw [if_neg hlevel, List.filter_cons_of_neg (by simpa using hlevel)]
      rfl

end

end Core

/-! ## Every run -/

namespace LogThread

/-- The thread can log, and `lines` have been pushed into the ring. -/
structure Ready (t : LogThread) (lines : List Bytes) : Prop where
  slotted : t.core.Slotted 0
  counted : t.core.Counted
  created : t.core.created < 2 ^ 32 - 1
  mode : t.core.mode = .sync
  formatter : t.core.formatter = none
  cache : fmtCacheRefresh t.core t.cache = t.core.snapshot
  ring : ∃ ring first, t.ring.Holding ring first lines

/-- Since `t` these records have been logged. -/
structure Logged (localtime : Int → Tm) (t : LogThread) (lines : List Bytes) (recs : List Record) (t' : LogThread) :
    Prop where
  ready : t'.Ready (lines ++ recs.map (t.core.defaultFormat.text localtime))
  sent : ∃ ops, t'.core = t.core.written ops recs.length ∧
    ∀ s ∈ t.core.table.live, Core.writesTo s.obj ops = t.core.sent localtime s recs

section
variable {enqueue : Core → Line → Core} {env : Nat → Renderer} {localtime : Int → Tm} {lineCap : Option UInt32}
  {t t' t'' : LogThread} {lines : List Bytes} {recs more : List Record}

theorem Ready.written (h : t.Ready lines) (ops : List Op) (n : Nat) (dup : DupState) (rendered : Nat) :
    Ready ⟨t.core.written ops n, dup, t.core.snapshot, t.ring, rendered⟩ lines where
  slotted := h.slotted.congr rfl rfl rfl
  counted := h.counted.congr rfl rfl
  created := h.created
  mode := h.mode
  formatter := h.formatter
  cache := if_pos rfl
  ring := h.ring

theorem Logged.trans (h : Logged localtime t lines recs t')
    (h' : Logged localtime t' (lines ++ recs.map (t.core.defaultFormat.text localtime)) more t'') :
    Logged localtime t lines (recs ++ more) t'' := by
  obtain ⟨ops, hcore, hsent⟩ := h.sent
  obtain ⟨ops', hcore', hsent'⟩ := h'.sent
  rw [hcore] at hcore' hsent'
  constructor
  · have hready := h'.ready
    rw [hcore, List.append_assoc] at hready
    rw [List.map_append]
    exact hready
  · refine ⟨ops ++ ops', ?_, fun s hmem => ?_⟩
    · rw [hcore', Core.written_written, List.length_append]
    · rw [Core.writesTo_append, hsent s hmem, hsent' s hmem, Core.sent_append]
      rfl

theorem Ready.dispatch (h : t.Ready lines) (henv : ∀ n, (env n).Supplied localtime lineCap) {rec : Record}
    (hfit : t.core.LinesFit localtime lineCap rec) : ∃ t', t.dispatch enqueue env rec = some t' ∧ t'.dup = t.dup ∧
      Logged localtime t lines [rec] t' := by
  obtain ⟨ring, first, hholds⟩ := h.ring
  obtain ⟨ops, hdispatch, hsent⟩ := Core.dispatch_sent h.slotted h.counted h.created h.mode h.formatter h.cache enqueue
    (henv t.rendered) hfit
  have htext : (env t.rendered).line 0 (fmtCacheRefresh t.core t.cache).format rec =
      t.core.defaultFormat.text localtime rec := by
    rw [h.cache]
    exact line_text (henv t.rendered) h.formatter hfit.1 0
  obtain ⟨ring', e, first', hpush, hholds'⟩ := CrashRing.push_holding hholds (t.core.defaultFormat.text localtime rec)
  refine ⟨⟨t.core.written ops 1, t.dup, t.core.snapshot, ring', t.rendered + 1⟩, ?_, rfl, ?_, ops, rfl, hsent⟩
  · unfold LogThread.dispatch
    simp only [htext, hpush, hdispatch, Option.bind_eq_bind, Option.bind_some]
  · have hready := h.written ops 1 t.dup (t.rendered + 1)
    exact ⟨hready.slotted, hready.counted, hready.created, hready.mode, hready.formatter, hready.cache, _, _, hholds'⟩

theorem Ready.dispatches (enqueue : Core → Line → Core) (henv : ∀ n, (env n).Supplied localtime lineCap)
    (recs : List Record) (h : t.Ready lines) (hfit : ∀ rec ∈ recs, t.core.LinesFit localtime lineCap rec) :
    ∃ t', recs.foldlM (LogThread.dispatch enqueue env) t = some t' ∧ t'.dup = t.dup ∧
      Logged localtime t lines recs t' := by
  induction recs generalizing t lines with
  | nil =>
    refine ⟨t, rfl, rfl, ?_, [], ?_, fun s _ => rfl⟩
    · rw [List.map_nil, List.append_nil]
      exact h
    · simp [Core.written]
  | cons rec recs ih =>
    obtain ⟨t₁, hfirst, hdup, hlogged⟩ := Ready.dispatch h henv (hfit rec List.mem_cons_self)
    obtain ⟨ops, hcore, -⟩ := hlogged.sent
    have hfit' : ∀ rec ∈ recs, t₁.core.LinesFit localtime lineCap rec := by
      intro r hr
      rw [hcore]
      exact hfit r (List.mem_cons_of_mem _ hr)
    obtain ⟨t', hrest, hdup', hlogged'⟩ := ih hlogged.ready hfit'
    refine ⟨t', ?_, hdup'.trans hdup, hlogged.trans hlogged'⟩
    rw [List.foldlM_cons, hfirst]
    exact hrest

/-- A flush writes nothing more to the sinks. -/
theorem flush_sent (c : Core) :
    ∃ ops, c.hxClogFlush [] = c.written ops 0 ∧ ∀ s : Sink, Core.writesTo s.obj ops = [] := by
  unfold Core.hxClogFlush
  split
  · exact ⟨[], by simp [Core.written], fun s => rfl⟩
  · exact ⟨_, rfl, fun s => Core.writesTo_flush s.obj c.table.live⟩

theorem Ready.writer_eq (h : t.Ready lines) (lineCap : Option UInt32) : t.writer lineCap =
    ⟨t.core.initialized, t.core.level, lineCap, t.core.loggerName.cut 128, loggerName_fits _, t.dup⟩ := by
  unfold LogThread.writer
  simp only [h.cache]
  rfl

/-- What the records of an event leave of the thread, and what they make of it. -/
theorem Logged.writer_eq (hr : t.Ready lines) (h : Logged localtime t lines recs t') {d : DupState} (hd : t'.dup = d) :
    t'.writer lineCap = (t.writer lineCap).withDup d := by
  obtain ⟨ops, hcore, -⟩ := h.sent
  rw [h.ready.writer_eq, hr.writer_eq]
  simp only [hcore, hd]
  rfl

theorem Ready.handle (h : t.Ready lines) (henv : ∀ n, (env n).Supplied localtime lineCap) (ev : Event)
    (hfit : ∀ rec ∈ (ev.run (t.writer lineCap)).2, t.core.LinesFit localtime lineCap rec) :
    ∃ t', t.handle enqueue env lineCap ev = some t' ∧ t'.writer lineCap = (ev.run (t.writer lineCap)).1 ∧
      Logged localtime t lines (ev.run (t.writer lineCap)).2 t' := by
  obtain ⟨d, hd⟩ := (t.writer lineCap).event_keeps ev
  have hstart : Ready { t with dup := (ev.run (t.writer lineCap)).1.dup } lines :=
    ⟨h.slotted, h.counted, h.created, h.mode, h.formatter, h.cache, h.ring⟩
  obtain ⟨t₁, hrun, hdup, hrecs⟩ := Ready.dispatches enqueue henv (ev.run (t.writer lineCap)).2 hstart hfit
  have hlogged : Logged localtime t lines (ev.run (t.writer lineCap)).2 t₁ := ⟨hrecs.ready, hrecs.sent⟩
  have hd₁ : t₁.dup = d := by
    rw [hdup, hd]
    rfl
  cases ev with
  | write c =>
    refine ⟨t₁, ?_, ?_, hlogged⟩
    · unfold LogThread.handle
      simp only [Option.bind_eq_bind, hrun, Option.bind_some]
    · rw [hd]
      exact hlogged.writer_eq h hd₁
  | flush m =>
    obtain ⟨ops, hflush, hnone⟩ := flush_sent t₁.core
    have hquiet : Logged localtime t₁
        (lines ++ ((Event.flush m).run (t.writer lineCap)).2.map (t.core.defaultFormat.text localtime)) []
        { t₁ with core := t₁.core.hxClogFlush [] } := by
      have hready := hlogged.ready
      constructor
      · rw [List.map_nil, List.append_nil, hflush]
        exact ⟨hready.slotted.congr rfl rfl rfl, hready.counted.congr rfl rfl, hready.created, hready.mode,
          hready.formatter, hready.cache, hready.ring⟩
      · exact ⟨ops, hflush, fun s _ => hnone s⟩
    have hall := hlogged.trans hquiet
    rw [List.append_nil] at hall
    refine ⟨_, ?_, ?_, hall⟩
    · unfold LogThread.handle
      simp only [Option.bind_eq_bind, hrun, Option.bind_some]
    · rw [hd]
      exact hall.writer_eq h hd₁

theorem Ready.run (henv : ∀ n, (env n).Supplied localtime lineCap) (evs : List Event) (h : t.Ready lines)
    (hfit : ∀ rec ∈ (runEvents (t.writer lineCap) evs).2, t.core.LinesFit localtime lineCap rec) :
    ∃ t', t.run enqueue env lineCap evs = some t' ∧
      Logged localtime t lines (runEvents (t.writer lineCap) evs).2 t' := by
  induction evs generalizing t lines with
  | nil =>
    refine ⟨t, rfl, ?_, [], ?_, fun s _ => rfl⟩
    · show t.Ready (lines ++ [])
      rw [List.append_nil]
      exact h
    · show t.core = t.core.written [] 0
      simp [Core.written]
  | cons ev evs ih =>
    unfold runEvents at hfit ⊢
    obtain ⟨t₁, hfirst, hwriter, hlogged⟩ := Ready.handle h henv ev
      fun rec hrec => hfit rec (List.mem_append_left _ hrec)
    obtain ⟨ops, hcore, -⟩ := hlogged.sent
    have hfit' : ∀ rec ∈ (runEvents (t₁.writer lineCap) evs).2, t₁.core.LinesFit localtime lineCap rec := by
      intro rec hrec
      rw [hwriter] at hrec
      rw [hcore]
      exact hfit rec (List.mem_append_right _ hrec)
    obtain ⟨t', hrest, hlogged'⟩ := ih hlogged.ready hfit'
    rw [hwriter] at hlogged'
    refine ⟨t', ?_, hlogged.trans hlogged'⟩
    unfold LogThread.run
    rw [List.foldlM_cons, hfirst]
    exact hrest

end

/-- A thread of a library in synchronous mode on which these calls have been made, without a custom formatter; into its crash
ring `lines` have been pushed. -/
structure Begins (calls : List Call) (t : LogThread) (lines : List Bytes) : Prop where
  core : t.core = runCalls coreOnceInit calls
  created : t.core.created < 2 ^ 32 - 1
  mode : t.core.mode = .sync
  formatter : t.core.formatter = none
  cache : SeenBy calls t.cache
  ring : ∃ r : CrashRing, r.inited = false ∧ (r.hxRingInit true).pushAll lines = some t.ring

theorem Begins.ready {calls : List Call} {t : LogThread} {lines : List Bytes} (h : Begins calls t lines) :
    t.Ready lines := by
  obtain ⟨hs, hc⟩ := Core.reachable_sound calls Core.start_slotted (show coreOnceInit.Counted from rfl)
  obtain ⟨r, hr, hall⟩ := h.ring
  obtain ⟨r', ring, first, hpush, hholds⟩ := CrashRing.pushAll_holding lines (CrashRing.init_holding hr)
  rw [hall] at hpush
  cases hpush
  rw [List.nil_append] at hholds
  constructor
  · exact h.core ▸ hs
  · exact h.core ▸ hc
  · exact h.created
  · exact h.mode
  · exact h.formatter
  · rw [h.core]
    exact Core.refresh_current h.cache
  · exact ⟨ring, first, hholds⟩

/-- What a thread logs reaches the sinks: each gets the records of the folded calls whose level passes, in its format and in
order; one line of each is counted; and the crash ring keeps the last of them. -/
theorem log_reaches_sinks {enqueue : Core → Line → Core} {env : Nat → Renderer} {localtime : Int → Tm}
    {lineCap : Option UInt32} {calls : List Call} {t : LogThread} {lines : List Bytes} {evs : List Event}
    (h : Begins calls t lines) (henv : ∀ n, (env n).Supplied localtime lineCap) (hstart : (t.writer lineCap).Starts evs)
    (hfit : ∀ rec ∈ (t.writer lineCap).expected evs, t.core.LinesFit localtime lineCap rec) :
    ∃ t' ops, t.run enqueue env lineCap evs = some t' ∧
      t'.core = t.core.written ops ((t.writer lineCap).expected evs).length ∧
      (∀ s ∈ t.core.table.live, Core.writesTo s.obj ops = t.core.sent localtime s ((t.writer lineCap).expected evs)) ∧
      t'.ring.hxRingDumpFd = some (((lines ++ ((t.writer lineCap).expected evs).map
        (t.core.defaultFormat.text localtime)).rtake ringCapacity).map CrashRing.kept) := by
  rw [← Writer.events_expected hstart] at hfit ⊢
  obtain ⟨t', hrun, hlogged⟩ := Ready.run henv evs h.ready hfit
  obtain ⟨ops, hcore, hsent⟩ := hlogged.sent
  obtain ⟨ring, first, hholds⟩ := hlogged.ready.ring
  exact ⟨t', ops, hrun, hcore, hsent, hholds.dump⟩

/-- A thread that has logged nothing yet, and two sinks. -/
def fresh : LogThread :=
  ⟨runCalls coreOnceInit twoCallbacks, freshDup, { jsonCache with gen := 0 }, CrashRing.start.hxRingInit true, 0⟩

theorem fresh_begins : Begins twoCallbacks fresh [] := ⟨rfl, by decide, rfl, rfl, .inl rfl, CrashRing.start, rfl, rfl⟩

theorem fresh_starts : (fresh.writer (some 524288)).Starts upThrice := by
  refine ⟨rfl, rfl, rfl, fun _ c text hc ha => ?_⟩
  have hcall : ∃ sec, c = appCall (lit "up") sec := by
    simp only [upThrice, List.mem_cons, Event.write.injEq, List.not_mem_nil, or_false, reduceCtorEq] at hc
    rcases hc with rfl | rfl | rfl
    · exact ⟨5, rfl⟩
    · exact ⟨5, rfl⟩
    · exact ⟨6, rfl⟩
  obtain ⟨sec, rfl⟩ := hcall
  cases ha
  have hfile : (lit "app.c").length < 256 := by decide
  have hmsg : messageBody (some 524288) true (lit "up") = lit "up" := rfl
  refine ⟨loggerName_fits _, hfile, ?_, ?_⟩
  · exact (congrArg List.length hmsg).trans_le (by decide)
  · intro hmem
    have hup : 0 ∈ lit "up" := hmsg ▸ hmem
    exact absurd hup (by decide)

theorem fresh_fits : ∀ rec ∈ (fresh.writer (some 524288)).expected upThrice,
    fresh.core.LinesFit (fun _ => midnight) (some 524288) rec := by
  have hall : ((fresh.writer (some 524288)).expected upThrice).all (fun rec =>
      decide ((fresh.core.defaultFormat.text (fun _ => midnight) rec).length < lineStackSize) &&
        fresh.core.table.live.all fun s =>
          decide (((fresh.core.sinkFormat s).text (fun _ => midnight) rec).length < lineStackSize)) = true := by
    decide +kernel
  intro rec hrec
  have hone := List.all_eq_true.mp hall rec hrec
  rw [Bool.and_eq_true, decide_eq_true_iff, List.all_eq_true] at hone
  exact ⟨.inl hone.1, fun s hs => .inl (of_decide_eq_true (hone.2 s hs))⟩

theorem log_reaches_sinks_thrice : ∃ t' ops,
    fresh.run (fun c _ => c) (fun _ => plainRenderer) (some 524288) upThrice = some t' ∧
      t'.core = fresh.core.written ops ((fresh.writer (some 524288)).expected upThrice).length ∧
      (∀ s ∈ fresh.core.table.live, Core.writesTo s.obj ops =
        fresh.core.sent (fun _ => midnight) s ((fresh.writer (some 524288)).expected upThrice)) ∧
      t'.ring.hxRingDumpFd = some ((([] ++ ((fresh.writer (some 524288)).expected upThrice).map
        (fresh.core.defaultFormat.text fun _ => midnight)).rtake ringCapacity).map CrashRing.kept) :=
  log_reaches_sinks fresh_begins (fun _ => ⟨rfl, rfl, fun _ => Nat.le_of_eq List.length_replicate.symm, fun _ _ => rfl⟩)
    fresh_starts fresh_fits

end LogThread

end HxClog
