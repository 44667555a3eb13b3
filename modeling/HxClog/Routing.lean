import HxClog.Sinks

/-!
# Routing a record

`core_dispatch_record` renders a record once with the global format, from the
thread's copy of it, for all sinks without a format of their own, and once for each
sink that has one; every rendering becomes a line with a target.
-/

namespace HxClog

open C Slots

/-! ## The thread's copy of the format -/

/-- `tls_format_cache_t` -/
structure FmtCache where
  gen : Nat
  pattern : CStr
  loggerName : CStr
  mode : FormatMode
  formatter : Option Formatter

def Core.snapshot (c : Core) : FmtCache := ⟨c.formatGen, c.pattern, c.loggerName, c.formatMode, c.formatter⟩

def fmtCacheRefresh (c : Core) (th : FmtCache) : FmtCache := if c.formatGen = th.gen then th else c.snapshot

/-- What a thread can have: a copy that was never filled, or one that was taken after some of the calls. -/
def SeenBy (calls : List Call) (th : FmtCache) : Prop :=
  th.gen = 0 ∨ ∃ before after, calls = before ++ after ∧ th = (runCalls coreOnceInit before).snapshot

/-! ## Rendering -/

/-- What rendering depends on besides the record: `line_stack` as it is when it is
rendered into for the `k`-th time, and the allocator then. -/
structure Renderer where
  localtime : Int → Tm
  lineCap : Option UInt32
  heap : Nat → Heap
  stack : Nat → Bytes

def lineStackSize : Nat := 1024 + 256

def Renderer.line (e : Renderer) (k : Nat) (fmt : Format) (rec : Record) : Bytes :=
  (formatWithRetry e.localtime e.lineCap (e.heap k) fmt rec (e.stack k) lineStackSize).line

def FmtCache.format (th : FmtCache) : Format := ⟨some th.pattern, th.mode, th.formatter⟩

/-- `override_snap_t` -/
structure OverrideSnap where
  id : Nat
  mode : FormatMode
  hasPattern : Bool
  pattern : CStr

def Sink.override (s : Sink) : OverrideSnap := ⟨s.id, s.overrideMode, s.overrideHasPattern, s.overridePattern⟩

def OverrideSnap.format (o : OverrideSnap) (th : FmtCache) : Format :=
  ⟨some (if o.hasPattern then o.pattern else th.pattern), o.mode, none⟩

/-! ## Dispatching -/

/-- The overrides, and whether any sink wants the default line. -/
def Core.collectOverrides (c : Core) : List OverrideSnap × Bool :=
  if 0 < c.overrideCount then
    (((c.table.live.filter Sink.overrideSet).take maxSinks).map Sink.override,
      0 < (c.table.live.filter fun s => !s.overrideSet).length)
  else ([], true)

/-- The part of it that holds the sink lock. -/
def Core.collectLocked (c : Core) : List OverrideSnap × Bool :=
  (((c.table.live.filter Sink.overrideSet).take maxSinks).map Sink.override,
    0 < (c.table.live.filter fun s => !s.overrideSet).length)

theorem Core.collectOverrides_locked (c : Core) :
    c.collectOverrides = if 0 < c.overrideCount then c.collectLocked else ([], true) := rfl

/-- The line of the `k`-th override. -/
def overrideLine (th : FmtCache) (e : Renderer) (rec : Record) (counted : Bool) (k : Nat) (o : OverrideSnap) : Line :=
  ⟨rec.level, e.line (k + 1) (o.format th) rec, o.id, !(counted || 0 < k)⟩

def dispatchLines (th : FmtCache) (e : Renderer) (rec : Record) (ovs : List OverrideSnap) (haveDefaultTargets : Bool) :
    List Line :=
  let counted := haveDefaultTargets || ovs.isEmpty
  (if counted then [⟨rec.level, e.line 0 th.format rec, 0, true⟩] else []) ++
    ovs.mapIdx (overrideLine th e rec counted)

/-- `core_dispatch_line`, over what the queue does with a line. -/
def coreDispatchLine (enqueue : Core → Line → Core) (c : Core) (l : Line) : Core :=
  match c.mode with
  | .async => enqueue c l
  | .sync => c.hxCoreEmitToSinks l

/-- `core_dispatch_record`. The flush behind a FATAL record finds no pending summary:
the call that wrote the record has reported it, or started the run over. -/
def Core.dispatchRecord (enqueue : Core → Line → Core) (c : Core) (th : FmtCache) (e : Renderer) (rec : Record) :
    Core × FmtCache :=
  let th := fmtCacheRefresh c th
  let (ovs, haveDefaultTargets) := c.collectOverrides
  let c := (dispatchLines th e rec ovs haveDefaultTargets).foldl (coreDispatchLine enqueue) c
  (if levelFatal ≤ rec.level then c.hxClogFlush [] else c, th)

end HxClog
