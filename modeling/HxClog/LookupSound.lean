import HxClog.RegistrySound

/-!
# Looking one name up again

While the names passed fit their buffer, a name that was looked up once gives the same
logger from then on, with the level last set for it. A longer name is stored cut and
looked for whole, so it is never found again.
-/

namespace HxClog

open C

namespace LevelMap

/-! ## What stays in the map -/

theorem Gets.lookup {m m' : LevelMap} {n : Bytes} {obj : Nat} (h : m.Gets n m' obj) :
    ∃ l, m'.entries.lookup n = some ⟨obj, l⟩ := by
  cases h with
  | known he => exact ⟨_, he⟩
  | new hn hobj hl => exact ⟨_, Finmap.lookup_insert _⟩

theorem Gets.known_eq {m m' : LevelMap} {n : Bytes} {obj : Nat} {e : LevelEntry} (h : m.Gets n m' obj)
    (he : m.entries.lookup n = some e) : m' = m ∧ obj = e.obj := by
  cases h with
  | known he' =>
    rw [he] at he'
    cases he'
    exact ⟨rfl, rfl⟩
  | new hn hobj hl =>
    rw [he] at hn
    cases hn

theorem Gets.keeps {m m' : LevelMap} {n q : Bytes} {obj : Nat} {e : LevelEntry} (h : m.Gets q m' obj)
    (he : m.entries.lookup n = some e) : m'.entries.lookup n = some e := by
  cases h with
  | known _ => exact he
  | new hn hobj hl =>
    have hne : n ≠ q := by
      rintro rfl
      rw [he] at hn
      cases hn
    rw [Finmap.lookup_insert_of_ne _ hne]
    exact he

theorem Sets.keeps {m m' : LevelMap} {hit : Bytes → LevelEntry → Prop} {l : Level} {n : Bytes} {e : LevelEntry}
    (h : m.Sets hit l m') (he : m.entries.lookup n = some e) : ∃ e', m'.entries.lookup n = some e' ∧ e'.obj = e.obj := by
  by_cases hhit : hit n e
  · exact ⟨_, (h.2 n _).mpr ⟨e, he, Or.inl ⟨hhit, rfl⟩⟩, rfl⟩
  · exact ⟨_, (h.2 n _).mpr ⟨e, he, Or.inr ⟨hhit, rfl⟩⟩, rfl⟩

/-- An entry keeps its address until the registry is emptied. -/
theorem Does.keeps {m m' : LevelMap} {c : LoggerCall} {a : Answer} {n : Bytes} {e : LevelEntry} (h : m.Does c m' a)
    (hc : c ≠ .dropAll) (he : m.entries.lookup n = some e) :
    ∃ e', m'.entries.lookup n = some e' ∧ e'.obj = e.obj := by
  cases h with
  | get hg => exact ⟨e, hg.keeps he, rfl⟩
  | findNull => exact ⟨e, he, rfl⟩
  | find _ => exact ⟨e, he, rfl⟩
  | count => exact ⟨e, he, rfl⟩
  | prefixBad _ => exact ⟨e, he, rfl⟩
  | all _ _ hs => exact hs.keeps he
  | within _ _ hg hs => exact hs.keeps (hg.keeps he)
  | handleBad _ => exact ⟨e, he, rfl⟩
  | setDefault _ => exact ⟨e, he, rfl⟩
  | setHandle _ hs => exact hs.keeps he
  | setLevel _ => exact ⟨e, he, rfl⟩
  | dropAll => exact absurd rfl hc

/-- The logger of a prefix has the level set for it. -/
theorem Does.prefix_entry {m m' : LevelMap} {p : CStr} {l : Level} {mem : Option Nat}
    (h : m.Does (.setLevelForPrefix (some p) l mem) m' (.code .ok)) (hp : p.bytes ≠ []) :
    ∃ obj, m'.entries.lookup p.bytes = some ⟨obj, l⟩ := by
  cases h with
  | all _ hnil _ => exact absurd hnil hp
  | within _ _ hg hset =>
    obtain ⟨l₁, hl₁⟩ := hg.lookup
    exact ⟨_, (hset.2 p.bytes _).mpr ⟨_, hl₁, Or.inl ⟨Or.inl rfl, rfl⟩⟩⟩

theorem Runs.keeps : ∀ {calls : List LoggerCall} {m m' : LevelMap} {answers : List Answer} {n : Bytes} {e : LevelEntry},
    m.Runs calls answers m' → (∀ c ∈ calls, c ≠ .dropAll) → m.entries.lookup n = some e →
      ∃ e', m'.entries.lookup n = some e' ∧ e'.obj = e.obj
  | [], m, m', answers, n, e, h, _, he => by
    cases h
    exact ⟨e, he, rfl⟩
  | c :: calls, m, m', answers, n, e, h, hc, he => by
    cases h with
    | cons hdoes hruns =>
      obtain ⟨e₁, he₁, ho₁⟩ := hdoes.keeps (hc c List.mem_cons_self) he
      obtain ⟨e₂, he₂, ho₂⟩ := hruns.keeps (fun c' h' => hc c' (List.mem_cons_of_mem _ h')) he₁
      exact ⟨e₂, he₂, ho₂.trans ho₁⟩

end LevelMap

/-! ## Runs -/

theorem runLoggers_append (g : Registry) (a b : List LoggerCall) :
    runLoggers g (a ++ b) = runLoggers (runLoggers g a) b :=
  List.foldl_append

theorem supplied_append : ∀ {a b : List LoggerCall} {g : Registry},
    Supplied g (a ++ b) → Supplied g a ∧ Supplied (runLoggers g a) b
  | [], b, g, h => ⟨trivial, h⟩
  | c :: a, b, g, h => by
    obtain ⟨ha, hb⟩ := supplied_append h.2
    exact ⟨⟨h.1, ha⟩, hb⟩

/-- `hx_clog_logger_get_level` -/
def Registry.levelAt (g : Registry) (obj : Nat) : Option Level := (g.loggerHead.find? fun p => p.obj = obj).map (·.level)

/-- What a run of lookups and level changes promises. -/
structure Consistent (g : Registry) (calls : List LoggerCall) : Prop where
  same : ∀ pre mid post name name' mem mem', calls = pre ++ .get name mem :: (mid ++ .get name' mem' :: post) →
    givenName name = givenName name' →
    let first := (runLoggers g pre).hxClogLoggerGet name mem
    let between := runLoggers first.1 mid
    let second := between.hxClogLoggerGet name' mem'
    second.2 = first.2 ∧ second.1.hxClogLoggerCount = between.hxClogLoggerCount
  distinct : ∀ pre post, calls = pre ++ post → ((runLoggers g pre).loggerHead.map fun p => p.name.bytes).Nodup
  level : ∀ pre post p l mem mem', calls = pre ++ .setLevelForPrefix (some p) l mem :: .get (some p) mem' :: post →
    p.bytes ≠ [] →
    let set := (runLoggers g pre).hxClogSetLevelForPrefix (some p) l mem
    let found := set.1.hxClogLoggerGet (some p) mem'
    set.2 = .ok → ∃ obj, found.2 = some obj ∧ found.1.levelAt obj = some l

namespace Registry

theorem Ok.levelAt {g : Registry} (h : g.Ok) {n : Bytes} {e : LevelEntry} (he : g.map.entries.lookup n = some e) :
    g.levelAt e.obj = some e.level := by
  obtain ⟨p, hp, _, rfl⟩ := lookup_mem he
  unfold Registry.levelAt
  cases hf : g.loggerHead.find? fun q => q.obj = p.obj with
  | none =>
    have := List.find?_eq_none.mp hf p hp
    simp at this
  | some q =>
    have hq : q.obj = p.obj := by simpa using List.find?_some hf
    rw [List.inj_on_of_nodup_map h.objs (List.mem_of_find?_eq_some hf) hp hq]
    rfl

/-- A lookup of a registered name. -/
theorem get_again {g : Registry} {name : Option CStr} (mem : Option Nat) {e : LevelEntry}
    (he : g.map.entries.lookup (givenName name).bytes = some e) : g.hxClogLoggerGet name mem = (g, some e.obj) := by
  rw [lookup_map] at he
  obtain ⟨p, hp, rfl⟩ := Option.map_eq_some_iff.mp he
  unfold hxClogLoggerGet
  simp only [hp]

end Registry

/-- With names that fit, one name is one logger. -/
theorem registry_consistent (l : Level) {calls : List LoggerCall} (hdrop : ∀ c ∈ calls, c ≠ .dropAll)
    (hs : ∀ c ∈ calls, c.short) (hm : Supplied (loggersAtStart l) calls) : Consistent (loggersAtStart l) calls where
  same := by
    intro pre mid post name name' mem mem' hcalls hname
    subst hcalls
    obtain ⟨hpre, hrest⟩ := supplied_append hm
    obtain ⟨hmid, _⟩ := supplied_append hrest.2
    have hok := (run_does (start_ok l) (fun c hc => hs c (by simp [hc])) hpre).1
    have hshort : (givenName name).bytes.length < loggerNameMax := givenName_short (hs (.get name mem) (by simp))
    obtain ⟨hok₁, obj, hobj, hgets⟩ := Registry.get_spec hok hshort hrest.1
    obtain ⟨l₁, hl₁⟩ := hgets.lookup
    obtain ⟨hok₂, hruns⟩ := run_does hok₁ (fun c hc => hs c (by simp [hc])) hmid
    obtain ⟨e, he, ho⟩ := hruns.keeps (fun c hc => hdrop c (by simp [hc])) hl₁
    rw [hname] at he
    have hsecond := Registry.get_again mem' he
    refine ⟨?_, ?_⟩
    · rw [hsecond, hobj, ho]
    · rw [hsecond]
  distinct := by
    intro pre post hcalls
    subst hcalls
    exact (run_does (start_ok l) (fun c hc => hs c (by simp [hc])) (supplied_append hm).1).1.names
  level := by
    intro pre post p lv mem mem' hcalls hp
    subst hcalls
    obtain ⟨hpre, hrest⟩ := supplied_append hm
    have hok := (run_does (start_ok l) (fun c hc => hs c (by simp [hc])) hpre).1
    have hshort : ∀ n, some p = some n → n.bytes.length < loggerNameMax := hs (.setLevelForPrefix (some p) lv mem) (by simp)
    obtain ⟨hok₁, hdoes⟩ := Registry.setLevelForPrefix_does (l := lv) hok hshort hrest.1
    intro changed found hrc
    have hcode : ((runLoggers (loggersAtStart l) pre).hxClogSetLevelForPrefix (some p) lv mem).2 = .ok := hrc
    rw [hcode] at hdoes
    obtain ⟨obj, hnow⟩ := hdoes.prefix_entry hp
    have hkey : changed.1.map.entries.lookup (givenName (some p)).bytes = some ⟨obj, lv⟩ := by
      rw [givenName_of_ne hp]
      exact hnow
    have hfound : found = (changed.1, some obj) := Registry.get_again mem' hkey
    rw [hfound]
    exact ⟨obj, rfl, hok₁.levelAt hnow⟩

theorem registry_consistent_twice :
    Consistent (loggersAtStart 2) [.get (some ⟨lit "net", by decide⟩) (some 10), .get (some ⟨lit "net", by decide⟩) (some 11)] := by
  refine registry_consistent 2 (by simp) ?_ ⟨⟨10, rfl, ?_⟩, ⟨11, rfl, ?_⟩, trivial⟩
  · intro c hc n hn
    simp only [List.mem_cons, List.not_mem_nil, or_false] at hc
    rcases hc with rfl | rfl
    · cases hn
      decide
    · cases hn
      decide
  · intro p hp
    cases hp
  · decide

/-! ## Longer names -/

/-- A name that does not fit is created again by every lookup. -/
theorem get_long (g : Registry) {name : CStr} (h : loggerNameMax ≤ name.bytes.length) (obj : Nat) :
    (g.hxClogLoggerGet (some name) (some obj)).2 = some obj ∧
      (g.hxClogLoggerGet (some name) (some obj)).1.hxClogLoggerCount = g.hxClogLoggerCount + 1 := by
  have hne : name.bytes ≠ [] := by
    intro hnil
    rw [hnil] at h
    exact absurd h (by decide)
  have hf : g.loggerFindLocked name.bytes = none := by
    refine List.find?_eq_none.mpr fun p _ hp => ?_
    have heq : p.name.bytes = name.bytes := by simpa using hp
    have hfits := p.fits
    rw [heq] at hfits
    omega
  unfold Registry.hxClogLoggerGet
  rw [givenName_of_ne hne]
  simp only [hf]
  exact ⟨trivial, rfl⟩

def longName : CStr := ⟨List.replicate 128 (chr 'a'), by decide⟩

/-- Two lookups of a name of 128 bytes. -/
theorem long_name_registered_twice :
    ¬Consistent (loggersAtStart 2) [.get (some longName) (some 10), .get (some longName) (some 11)] := by
  intro h
  have hlong : loggerNameMax ≤ longName.bytes.length := by
    show 128 ≤ (List.replicate 128 (chr 'a')).length
    rw [List.length_replicate]
  have hsame := (h.same [] [] [] (some longName) (some longName) (some 10) (some 11) rfl rfl).1
  rw [(get_long _ hlong 11).1, (get_long _ hlong 10).1] at hsame
  cases hsame

end HxClog
