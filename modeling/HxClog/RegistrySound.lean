import HxClog.Registry

/-!
# The registry is a map from names to levels

`Registry.map` reads the list of loggers as a map. Names and addresses are distinct
in every registry a run reaches, and with names that fit their buffer every call does
to the map what `LevelMap.Does` says.
-/

namespace HxClog

open C

namespace Registry

def map (g : Registry) : LevelMap where
  level := g.level
  entries := (g.loggerHead.map fun p => Sigma.mk p.name.bytes (LevelEntry.mk p.obj p.level)).toFinmap

structure Ok (g : Registry) : Prop where
  names : (g.loggerHead.map fun p => p.name.bytes).Nodup
  objs : (g.loggerHead.map fun p => p.obj).Nodup
  counted : g.loggerCount = g.loggerHead.length

/-! ## Reading the list -/

theorem lookup_entries : ∀ (ps : List Logger) (n : Bytes),
    (ps.map fun p => Sigma.mk (β := fun _ : Bytes => LevelEntry) p.name.bytes ⟨p.obj, p.level⟩).toFinmap.lookup n =
      (ps.find? fun p => p.name.bytes = n).map fun p => ⟨p.obj, p.level⟩
  | [], n => by simp
  | p :: ps, n => by
    have ih := lookup_entries ps n
    rw [List.map_cons, Finmap.toFinmap_cons]
    by_cases h : p.name.bytes = n
    · subst h
      rw [Finmap.lookup_insert, List.find?_cons_of_pos (by simp)]
      rfl
    · rw [Finmap.lookup_insert_of_ne _ (Ne.symm h), ih, List.find?_cons_of_neg (by simpa using h)]

theorem lookup_map (g : Registry) (n : Bytes) :
    g.map.entries.lookup n = (g.loggerFindLocked n).map fun p => ⟨p.obj, p.level⟩ :=
  lookup_entries g.loggerHead n

theorem levelOf_map (g : Registry) : g.map.levelOf = g.levelOf := by
  funext n
  unfold LevelMap.levelOf levelOf
  rw [lookup_map, Option.map_map]
  rfl

theorem find_name {g : Registry} {n : Bytes} {p : Logger} (h : g.loggerFindLocked n = some p) : p.name.bytes = n := by
  have := List.find?_some h
  simpa using this

theorem find_mem {g : Registry} {n : Bytes} {p : Logger} (h : g.loggerFindLocked n = some p) : p ∈ g.loggerHead :=
  List.mem_of_find?_eq_some h

theorem find_none {g : Registry} {n : Bytes} (h : g.loggerFindLocked n = none) : ∀ p ∈ g.loggerHead, p.name.bytes ≠ n := by
  intro p hp hn
  have := List.find?_eq_none.mp h p hp
  simp [hn] at this

/-- Looking up the name of an entry gives the entry. -/
theorem Ok.find {g : Registry} (h : g.Ok) {p : Logger} (hp : p ∈ g.loggerHead) :
    g.loggerFindLocked p.name.bytes = some p := by
  cases hf : g.loggerFindLocked p.name.bytes with
  | none => exact absurd rfl (find_none hf p hp)
  | some q =>
    have := List.inj_on_of_nodup_map h.names (find_mem hf) hp (find_name hf)
    rw [this]

theorem lookup_mem {g : Registry} {n : Bytes} {e : LevelEntry} (h : g.map.entries.lookup n = some e) :
    ∃ p ∈ g.loggerHead, p.name.bytes = n ∧ e = ⟨p.obj, p.level⟩ := by
  rw [lookup_map] at h
  obtain ⟨p, hp, rfl⟩ := Option.map_eq_some_iff.mp h
  exact ⟨p, find_mem hp, find_name hp, rfl⟩

/-- Entries of the map with one address have one name. -/
theorem Ok.obj_name {g : Registry} (h : g.Ok) {n q : Bytes} {e f : LevelEntry} (he : g.map.entries.lookup n = some e)
    (hf : g.map.entries.lookup q = some f) (ho : e.obj = f.obj) : n = q := by
  obtain ⟨p, hp, rfl, rfl⟩ := lookup_mem he
  obtain ⟨r, hr, rfl, rfl⟩ := lookup_mem hf
  rw [List.inj_on_of_nodup_map h.objs hp hr ho]

theorem keys_insert {m : Finmap fun _ : Bytes => LevelEntry} {n : Bytes} (e : LevelEntry) (h : n ∉ m) :
    (m.insert n e).keys.card = m.keys.card + 1 := by
  have hkeys : (m.insert n e).keys = insert n m.keys := by
    ext q
    rw [Finset.mem_insert, Finmap.mem_keys, Finmap.mem_insert, Finmap.mem_keys]
  rw [hkeys, Finset.card_insert_of_notMem (by rwa [Finmap.mem_keys])]

theorem keys_entries : ∀ ps : List Logger, (ps.map fun p => p.name.bytes).Nodup →
    (ps.map fun p => Sigma.mk (β := fun _ : Bytes => LevelEntry) p.name.bytes ⟨p.obj, p.level⟩).toFinmap.keys.card =
      ps.length
  | [], _ => by simp
  | p :: ps, h => by
    rw [List.map_cons, List.nodup_cons] at h
    have ih := keys_entries ps h.2
    rw [List.map_cons, Finmap.toFinmap_cons, keys_insert _ ?_, ih, List.length_cons]
    rw [Finmap.mem_list_toFinmap]
    rintro ⟨e, he⟩
    obtain ⟨q, hq, heq⟩ := List.mem_map.mp he
    refine h.1 (List.mem_map.mpr ⟨q, hq, ?_⟩)
    injection heq

theorem Ok.count {g : Registry} (h : g.Ok) : g.hxClogLoggerCount = g.map.entries.keys.card := by
  unfold hxClogLoggerCount map
  rw [keys_entries _ h.names, h.counted]

/-! ## Inherited levels -/

theorem storedName_bytes {name : CStr} (h : name.bytes.length < loggerNameMax) : (storedName name).bytes = name.bytes :=
  cut_of_lt h

theorem inherited (g : Registry) {name : CStr} (h : name.bytes.length < loggerNameMax) :
    g.map.Inherits name.bytes (g.loggerInheritedLevelLocked name) := by
  unfold loggerInheritedLevelLocked
  simp only [cut_of_lt h]
  cases hc : Dotted.climb (chr '.') g.levelOf name.bytes.length name.bytes with
  | some l =>
    obtain ⟨p, hp⟩ := Dotted.climb_some hc
    rw [← levelOf_map] at hp
    exact .ancestor hp
  | none =>
    refine .global fun p hp => ?_
    rw [levelOf_map]
    exact Dotted.climb_none (Nat.le_refl _) hc p hp

/-! ## What a prefix reaches -/

theorem within_iff {pre n : Bytes} (hpre : 0 ∉ pre) (hn : 0 ∉ n) :
    (strncmpEq pre.length n pre = true ∧ (n.getD pre.length 0 = 0 ∨ n.getD pre.length 0 = chr '.')) ↔
      Dotted.Within (chr '.') pre n := by
  rw [strncmpEq_take hn hpre, List.take_length]
  constructor
  · rintro ⟨htake, hnext⟩
    have hsplit : n = pre ++ n.drop pre.length := by
      have := List.take_append_drop pre.length n
      rw [htake] at this
      exact this.symm
    have hlook : n.getD pre.length 0 = (n.drop pre.length).headD 0 := by
      rw [List.getD_eq_getElem?_getD, List.headD_eq_head?_getD, List.head?_drop]
    rw [hlook] at hnext
    cases hd : n.drop pre.length with
    | nil => exact Or.inl (by rw [hsplit, hd, List.append_nil])
    | cons c r =>
      rw [hd, List.headD_cons] at hnext
      rw [hd] at hsplit
      rcases hnext with rfl | rfl
      · exact absurd (by rw [hsplit]; exact List.mem_append_right _ List.mem_cons_self) hn
      · exact Or.inr ⟨r, hsplit⟩
  · rintro (rfl | ⟨r, rfl⟩)
    · exact ⟨List.take_length, Or.inl (by simp)⟩
    · exact ⟨List.take_left, Or.inr (by simp)⟩

theorem prefixReaches_iff {pre : CStr} (h : pre.bytes ≠ []) (p : Logger) :
    prefixReaches pre.bytes p = true ↔ Dotted.Within (chr '.') pre.bytes p.name.bytes := by
  rw [← within_iff pre.noNul p.name.noNul]
  unfold prefixReaches
  have : pre.bytes.length ≠ 0 := fun h0 => h (List.length_eq_zero_iff.mp h0)
  simp [this]

/-! ## Storing levels -/

theorem storeLevels_fields (g : Registry) (hit : Logger → Bool) (l : Level) {α : Type} (f : Logger → α)
    (hf : ∀ p, f { p with level := l } = f p) :
    (g.storeLevels hit l).loggerHead.map f = g.loggerHead.map f := by
  unfold storeLevels
  rw [List.map_map]
  refine List.map_congr_left fun p _ => ?_
  show f (if hit p then { p with level := l } else p) = f p
  split
  · exact hf p
  · rfl

theorem Ok.storeLevels {g : Registry} (h : g.Ok) (hit : Logger → Bool) (l : Level) : (g.storeLevels hit l).Ok where
  names := by
    rw [storeLevels_fields g hit l _ fun _ => rfl]
    exact h.names
  objs := by
    rw [storeLevels_fields g hit l _ fun _ => rfl]
    exact h.objs
  counted := by
    unfold Registry.storeLevels
    rw [List.length_map]
    exact h.counted

theorem find_storeLevels (g : Registry) (hit : Logger → Bool) (l : Level) (n : Bytes) :
    (g.storeLevels hit l).loggerFindLocked n =
      (g.loggerFindLocked n).map fun p => if hit p then { p with level := l } else p := by
  unfold loggerFindLocked storeLevels
  rw [List.find?_map]
  congr 2
  funext p
  show decide ((if hit p then { p with level := l } else p).name.bytes = n) = _
  split <;> rfl

theorem storeLevels_sets (g : Registry) (hit : Logger → Bool) (hit' : Bytes → LevelEntry → Prop) (l : Level)
    (h : ∀ p, hit p = true ↔ hit' p.name.bytes ⟨p.obj, p.level⟩) : g.map.Sets hit' l (g.storeLevels hit l).map := by
  refine ⟨rfl, fun q e' => ?_⟩
  rw [lookup_map, lookup_map, find_storeLevels]
  cases hf : g.loggerFindLocked q with
  | none => simp
  | some p =>
    have hq := find_name hf
    subst hq
    simp only [Option.map_some, Option.some.injEq, exists_eq_left', ← h p]
    by_cases hp : hit p = true
    · simp [hp, eq_comm]
    · simp [hp, eq_comm]

/-! ## Looking up and creating -/

theorem Ok.cons {g : Registry} (h : g.Ok) {p : Logger} (hname : ∀ q ∈ g.loggerHead, q.name.bytes ≠ p.name.bytes)
    (hobj : ∀ q ∈ g.loggerHead, q.obj ≠ p.obj) :
    Registry.Ok { g with loggerHead := p :: g.loggerHead, loggerCount := g.loggerCount + 1 } where
  names := by
    rw [List.map_cons, List.nodup_cons]
    refine ⟨fun hm => ?_, h.names⟩
    obtain ⟨q, hq, heq⟩ := List.mem_map.mp hm
    exact hname q hq heq
  objs := by
    rw [List.map_cons, List.nodup_cons]
    refine ⟨fun hm => ?_, h.objs⟩
    obtain ⟨q, hq, heq⟩ := List.mem_map.mp hm
    exact hobj q hq heq
  counted := by
    rw [List.length_cons, ← h.counted]

theorem map_cons (g : Registry) (p : Logger) (count : Nat) :
    map { g with loggerHead := p :: g.loggerHead, loggerCount := count } =
      { g.map with entries := g.map.entries.insert p.name.bytes ⟨p.obj, p.level⟩ } := by
  unfold map
  simp only [List.map_cons, Finmap.toFinmap_cons]

/-- A block that `malloc` returns is none that is in use. -/
def Fresh (g : Registry) (mem : Option Nat) : Prop := ∃ obj, mem = some obj ∧ ∀ p ∈ g.loggerHead, p.obj ≠ obj

theorem get_spec {g : Registry} (h : g.Ok) {name : Option CStr} (hshort : (givenName name).bytes.length < loggerNameMax)
    {mem : Option Nat} (hmem : g.Fresh mem) :
    (g.hxClogLoggerGet name mem).1.Ok ∧ ∃ obj, (g.hxClogLoggerGet name mem).2 = some obj ∧
      g.map.Gets (givenName name).bytes (g.hxClogLoggerGet name mem).1.map obj := by
  obtain ⟨obj, rfl, hobj⟩ := hmem
  unfold hxClogLoggerGet
  simp only
  cases hf : g.loggerFindLocked (givenName name).bytes with
  | some lg => exact ⟨h, lg.obj, rfl, .known (e := ⟨lg.obj, lg.level⟩) (by rw [lookup_map, hf]; rfl)⟩
  | none =>
    have hname := find_none hf
    rw [← storedName_bytes hshort] at hname
    refine ⟨h.cons hname hobj, obj, rfl, ?_⟩
    rw [map_cons]
    simp only [storedName_bytes hshort]
    refine .new (by rw [lookup_map, hf]; rfl) (fun q e he => ?_) (inherited g hshort)
    obtain ⟨p, hp, _, rfl⟩ := lookup_mem he
    exact hobj p hp

end Registry

/-! ## A call -/

def LoggerCall.name : LoggerCall → Option CStr
  | .get name _ => name
  | .find name => name
  | .setLevelForPrefix pre _ _ => pre
  | _ => none

/-- The name passed fits the buffer. -/
def LoggerCall.short (c : LoggerCall) : Prop := ∀ n, c.name = some n → n.bytes.length < loggerNameMax

/-- `malloc` has a block for a new logger. -/
def LoggerCall.supplied (g : Registry) : LoggerCall → Prop
  | .get _ mem => g.Fresh mem
  | .setLevelForPrefix _ _ mem => g.Fresh mem
  | _ => True

theorem givenName_short {name : Option CStr} (h : ∀ n, name = some n → n.bytes.length < loggerNameMax) :
    (givenName name).bytes.length < loggerNameMax := by
  unfold givenName
  split
  · next n =>
    split
    · decide
    · exact h n rfl
  · decide

theorem givenName_of_ne {n : CStr} (h : n.bytes ≠ []) : givenName (some n) = n := if_neg h

namespace Registry

theorem setLevelForPrefix_does {g : Registry} (h : g.Ok) {pre : Option CStr} {l : Level} {mem : Option Nat}
    (hs : ∀ n, pre = some n → n.bytes.length < loggerNameMax) (hm : g.Fresh mem) :
    (g.hxClogSetLevelForPrefix pre l mem).1.Ok ∧
      g.map.Does (.setLevelForPrefix pre l mem) (g.hxClogSetLevelForPrefix pre l mem).1.map
        (.code (g.hxClogSetLevelForPrefix pre l mem).2) := by
  cases pre with
  | none => exact ⟨h, .prefixBad (Or.inl rfl)⟩
  | some pre =>
    unfold hxClogSetLevelForPrefix
    simp only
    by_cases hl : levelValid l
    · rw [if_neg (not_not_intro hl)]
      by_cases hp : pre.bytes = []
      · simp only [hp, if_true]
        refine ⟨h.storeLevels _ _, .all hl hp (storeLevels_sets g _ _ l fun p => ?_)⟩
        simp [prefixReaches]
      · simp only [hp, if_false]
        obtain ⟨hok, obj, _, hget⟩ := get_spec h (givenName_short hs) hm
        rw [givenName_of_ne hp] at hget
        exact ⟨hok.storeLevels _ _, .within hl hp hget (storeLevels_sets _ _ _ l fun p => prefixReaches_iff hp p)⟩
    · rw [if_pos hl]
      exact ⟨h, .prefixBad (Or.inr hl)⟩

theorem loggerSetLevel_does {g : Registry} (h : g.Ok) (logger : Option Handle) (l : Level) :
    (g.hxClogLoggerSetLevel logger l).1.Ok ∧
      g.map.Does (.loggerSetLevel logger l) (g.hxClogLoggerSetLevel logger l).1.map
        (.code (g.hxClogLoggerSetLevel logger l).2) := by
  cases logger with
  | none => exact ⟨h, .handleBad (Or.inl rfl)⟩
  | some handle =>
    unfold hxClogLoggerSetLevel
    simp only
    by_cases hl : levelValid l
    · rw [if_neg (not_not_intro hl)]
      cases handle with
      | default => exact ⟨⟨h.names, h.objs, h.counted⟩, .setDefault hl⟩
      | logger obj => exact ⟨h.storeLevels _ _, .setHandle hl (storeLevels_sets _ _ _ l fun p => by simp)⟩
    · rw [if_pos hl]
      exact ⟨h, .handleBad (Or.inr hl)⟩

theorem find_does {g : Registry} (name : Option CStr) :
    g.map.Does (.find name) g.map (.object (g.hxClogLoggerFind name)) := by
  cases name with
  | none => exact .findNull
  | some n =>
    have hobj : g.hxClogLoggerFind (some n) = (g.map.entries.lookup n.bytes).map (·.obj) := by
      rw [lookup_map, Option.map_map]
      rfl
    rw [hobj]
    exact .find n

/-- Every call keeps the list in order and does to the map what it is for. -/
theorem call_does {g : Registry} (h : g.Ok) {c : LoggerCall} (hs : c.short) (hm : c.supplied g) :
    (c.run g).1.Ok ∧ g.map.Does c (c.run g).1.map (c.run g).2 := by
  cases c with
  | get name mem =>
    have hshort : (givenName name).bytes.length < loggerNameMax := givenName_short hs
    obtain ⟨hok, obj, hobj, hget⟩ := get_spec h hshort hm
    refine ⟨hok, ?_⟩
    show g.map.Does _ _ (.object (g.hxClogLoggerGet name mem).2)
    rw [hobj]
    exact .get hget
  | find name => exact ⟨h, find_does name⟩
  | count =>
    refine ⟨h, ?_⟩
    show g.map.Does _ _ (.number g.hxClogLoggerCount)
    rw [h.count]
    exact .count
  | setLevelForPrefix pre l mem => exact setLevelForPrefix_does h hs hm
  | loggerSetLevel logger l => exact loggerSetLevel_does h logger l
  | setLevel l => exact ⟨⟨h.names, h.objs, h.counted⟩, .setLevel l⟩
  | dropAll => exact ⟨⟨List.nodup_nil, List.nodup_nil, rfl⟩, .dropAll⟩

end Registry

/-! ## Runs -/

def loggerAnswers (g : Registry) : List LoggerCall → List Answer
  | [] => []
  | c :: calls => (c.run g).2 :: loggerAnswers (c.run g).1 calls

def Supplied (g : Registry) : List LoggerCall → Prop
  | [] => True
  | c :: calls => c.supplied g ∧ Supplied (c.run g).1 calls

inductive LevelMap.Runs : LevelMap → List LoggerCall → List Answer → LevelMap → Prop where
  | nil (m : LevelMap) : Runs m [] [] m
  | cons {m m' m'' : LevelMap} {c : LoggerCall} {a : Answer} {calls : List LoggerCall} {answers : List Answer}
      (h : m.Does c m' a) (hs : Runs m' calls answers m'') : Runs m (c :: calls) (a :: answers) m''

theorem run_does : ∀ {calls : List LoggerCall} {g : Registry}, g.Ok → (∀ c ∈ calls, c.short) → Supplied g calls →
    (runLoggers g calls).Ok ∧ g.map.Runs calls (loggerAnswers g calls) (runLoggers g calls).map
  | [], g, h, _, _ => ⟨h, .nil _⟩
  | c :: calls, g, h, hs, hm => by
    obtain ⟨hok, hdoes⟩ := Registry.call_does h (hs c List.mem_cons_self) hm.1
    obtain ⟨hend, hruns⟩ := run_does hok (fun c' hc => hs c' (List.mem_cons_of_mem _ hc)) hm.2
    exact ⟨hend, .cons hdoes hruns⟩

theorem start_ok (l : Level) : (loggersAtStart l).Ok := ⟨List.nodup_nil, List.nodup_nil, rfl⟩

/-- Any run with names that fit does to the map from names to levels what its calls say. -/
theorem registry_refines_map (l : Level) {calls : List LoggerCall} (hs : ∀ c ∈ calls, c.short)
    (hm : Supplied (loggersAtStart l) calls) :
    LevelMap.Runs ⟨l, ∅⟩ calls (loggerAnswers (loggersAtStart l) calls) (runLoggers (loggersAtStart l) calls).map ∧
      ((runLoggers (loggersAtStart l) calls).loggerHead.map fun p => p.name.bytes).Nodup ∧
      ((runLoggers (loggersAtStart l) calls).loggerHead.map fun p => p.obj).Nodup := by
  obtain ⟨hok, hruns⟩ := run_does (start_ok l) hs hm
  exact ⟨hruns, hok.names, hok.objs⟩

/-- Three calls: a logger below one with a level of its own. -/
def subtreeCalls : List LoggerCall :=
  [.setLevelForPrefix (some ⟨lit "net", by decide⟩) 1 (some 10), .get (some ⟨lit "net.http", by decide⟩) (some 11),
    .count]

theorem subtreeCalls_short : ∀ c ∈ subtreeCalls, c.short := by
  intro c hc n hn
  simp only [subtreeCalls, List.mem_cons, List.not_mem_nil, or_false] at hc
  rcases hc with rfl | rfl | rfl
  · cases hn
    decide
  · cases hn
    decide
  · cases hn

theorem subtreeCalls_supplied : Supplied (loggersAtStart 2) subtreeCalls := by
  refine ⟨⟨10, rfl, ?_⟩, ⟨11, rfl, ?_⟩, trivial, trivial⟩
  · intro p hp
    cases hp
  · decide

theorem registry_refines_map_subtree :
    LevelMap.Runs ⟨2, ∅⟩ subtreeCalls (loggerAnswers (loggersAtStart 2) subtreeCalls)
      (runLoggers (loggersAtStart 2) subtreeCalls).map ∧
      loggerAnswers (loggersAtStart 2) subtreeCalls = [.code .ok, .object (some 11), .number 2] :=
  ⟨(registry_refines_map 2 subtreeCalls_short subtreeCalls_supplied).1, by decide⟩

/-- An empty name is not registered: the call registers the default name in its place. -/
theorem empty_name_not_registered :
    ¬∀ (g : Registry) (name : CStr) (obj : Nat), name.bytes.length < loggerNameMax →
      g.loggerFindLocked name.bytes = none →
      ((g.hxClogLoggerGet (some name) (some obj)).1.loggerFindLocked name.bytes).isSome := by
  intro h
  have := h (loggersAtStart 2) .empty 0 (by decide) rfl
  revert this
  decide

end HxClog
