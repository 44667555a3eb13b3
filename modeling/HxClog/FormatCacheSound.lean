import HxClog.FormatCache

/-!
# Copies of the format are never stale

While an init is under way the copies of the current generation are of the settings
that it is about to complete; every other change of the settings comes with a
generation that no copy has.
-/

namespace HxClog

open C Stamped

namespace FormatThreads

variable {s t : FormatThreads} {a : FormatMove}

/-! ## What a step can do -/

/-- The settings, the generation, the copies and what an init still writes stay. -/
structure Framed (s t : FormatThreads) : Prop where
  settings : t.settings = s.settings
  gen : t.gen = s.gen
  changes : t.changes = s.changes
  caches : t.caches = s.caches
  pending : t.holder.pending = s.holder.pending

theorem Framed.refl (s : FormatThreads) : Framed s s := ⟨rfl, rfl, rfl, rfl, rfl⟩

inductive Stepped (s : FormatThreads) : FormatMove → FormatThreads → Prop where
  | changes {a : FormatMove} (settings : FormatSettings) : Stepped s a (s.change settings)
  | begins (cfg : FormatConfig) : Stepped s (.initBegin cfg) { s with holder := .init cfg.initSteps 0 }
  | inits {w : InitStep} {rest : List InitStep} {loaded : Nat} (hh : s.holder = .init (w :: rest) loaded) :
      Stepped s .initStep (s.initMove rest loaded w)
  | fills (i : Nat) : Stepped s (.fill i) ((s.fillCache i).goto i .logging)
  | frames {a : FormatMove} {t : FormatThreads} (hf : Framed s t) : Stepped s a t

theorem step_cases (hs : s.step a = some t) : Stepped s a t := by
  cases a with
  | setPattern p =>
    cases hs
    exact .changes _
  | setFormatMode m =>
    cases hs
    exact .changes _
  | setFormatter f u =>
    cases hs
    exact .changes _
  | initBegin cfg =>
    unfold step at hs
    simp only [] at hs
    split at hs
    · cases hs
      split
      · exact .frames (.refl s)
      · exact .begins cfg
    · cases hs
  | initStep =>
    unfold step at hs
    simp only [] at hs
    split at hs
    · cases hs
      exact .inits ‹_›
    · cases hs
  | reconfigureSwap cfg =>
    unfold step at hs
    simp only [] at hs
    split at hs
    · cases hs
      exact .changes _
    · cases hs
  | fill i =>
    unfold step at hs
    simp only [] at hs
    split at hs
    · cases hs
      exact .fills i
    · cases hs
  -- the others move a thread, or whoever has the lock
  | reconfigureBegin =>
    unfold step at hs
    simp only [] at hs
    split at hs
    · rename_i hh
      cases hs
      split
      · exact .frames ⟨rfl, rfl, rfl, rfl, by rw [hh]; rfl⟩
      · exact .frames (.refl s)
    · cases hs
  | shutdownBegin =>
    unfold step at hs
    simp only [] at hs
    split at hs
    · rename_i hh
      cases hs
      split
      · exact .frames ⟨rfl, rfl, rfl, rfl, by rw [hh]; rfl⟩
      · exact .frames (.refl s)
    · cases hs
  | initEnd ok =>
    unfold step at hs
    simp only [] at hs
    split at hs
    · rename_i hh
      cases hs
      exact .frames ⟨rfl, rfl, rfl, rfl, by rw [hh]; rfl⟩
    · cases hs
  | reconfigureEnd =>
    unfold step at hs
    simp only [] at hs
    split at hs
    · rename_i hh
      cases hs
      exact .frames ⟨rfl, rfl, rfl, rfl, by rw [hh]; rfl⟩
    · cases hs
  | shutdownMark =>
    unfold step at hs
    simp only [] at hs
    split at hs
    · cases hs
      exact .frames ⟨rfl, rfl, rfl, rfl, rfl⟩
    · cases hs
  | shutdownEnd =>
    unfold step at hs
    simp only [] at hs
    split at hs
    · rename_i hh
      cases hs
      exact .frames ⟨rfl, rfl, rfl, rfl, by rw [hh]; rfl⟩
    · cases hs
  | check i =>
    unfold step at hs
    simp only [] at hs
    split at hs
    · cases hs
      split
      · exact .frames ⟨rfl, rfl, rfl, rfl, rfl⟩
      · exact .frames (.refl s)
    · cases hs
  | refresh i =>
    unfold step at hs
    simp only [] at hs
    split at hs
    · cases hs
      split
      · exact .frames (.refl s)
      · exact .frames ⟨rfl, rfl, rfl, rfl, rfl⟩
    · cases hs
  | finish i =>
    unfold step at hs
    simp only [] at hs
    split at hs
    · cases hs
      exact .frames ⟨rfl, rfl, rfl, rfl, rfl⟩
    · cases hs

theorem step_changes (hs : s.step a = some t) : s.changes ≤ t.changes := by
  cases step_cases hs with
  | changes settings => exact Nat.le_succ _
  | begins cfg => exact Nat.le_refl _
  | @inits w rest loaded hh =>
    cases w with
    | put w => exact Nat.le_refl _
    | loadGen => exact Nat.le_refl _
    | storeGen => exact Nat.le_succ _
  | fills i => exact Nat.le_refl _
  | frames hf => exact Nat.le_of_eq hf.changes.symm

theorem run_changes {moves : List FormatMove} (hr : Transition.run step s moves = some t) : s.changes ≤ t.changes :=
  Transition.run_invariant (I := fun u => s.changes ≤ u.changes)
    (fun _ _ _ hle hs => Nat.le_trans hle (step_changes hs)) moves s t (Nat.le_refl _) hr

/-! ## The invariant -/

/-- What is kept in every step that meets the condition. -/
structure Stamps (s : FormatThreads) : Prop where
  counted : s.gen = s.changes + 1
  behind : Behind s.gen s.caches
  current : (∀ w ∈ s.holder.pending, ¬w.isStore) → Current s.gen s.target s.caches

/-! ## Generations -/

theorem nextGen_eq {g : Nat} (h : g + 1 < 2 ^ 32) : nextGen g = g + 1 := Nat.mod_eq_of_lt h

theorem bump_gen (h : s.gen + 1 < 2 ^ 32) : s.bumpFormatGenLocked.gen = s.gen + 1 := by
  unfold bumpFormatGenLocked
  simp only [nextGen_eq h, Nat.succ_ne_zero, if_false]

/-- A section that changes the settings and takes the next generation. -/
theorem change_stamps (h : s.Stamps) (settings : FormatSettings) (hb : s.gen + 1 < 2 ^ 32) :
    (s.change settings).Stamps := by
  have hg : (s.change settings).gen = s.gen + 1 := bump_gen (s := { s with settings := settings }) hb
  refine ⟨?_, ?_, fun _ => ?_⟩
  · rw [hg, h.counted]
    rfl
  · rw [hg]
    exact h.behind.advance
  · rw [hg]
    exact h.behind.publish _

/-! ## An init in progress -/

theorem init_stamps (h : s.Stamps) {w : InitStep} {rest : List InitStep} {loaded : Nat}
    (hh : s.holder = .init (w :: rest) loaded) (hk : s.Keeps .initStep) (hb : s.gen + 1 < 2 ^ 32) :
    (s.initMove rest loaded w).Stamps := by
  have hpending : s.holder.pending = w :: rest := by
    rw [hh]
    rfl
  have htarget : s.target = rest.foldl InitStep.apply (w.apply s.settings) := by
    unfold target
    rw [hpending]
    rfl
  have hcurrent := h.current
  rw [hpending, htarget] at hcurrent
  cases w with
  | put w =>
    refine ⟨h.counted, h.behind, fun hs => hcurrent ?_⟩
    rintro x (_ | ⟨_, hx⟩)
    · exact Bool.false_ne_true
    · exact hs x hx
  | loadGen =>
    refine ⟨h.counted, h.behind, fun hs => hcurrent ?_⟩
    rintro x (_ | ⟨_, hx⟩)
    · exact Bool.false_ne_true
    · exact hs x hx
  | storeGen =>
    have hl : loaded = s.gen := hk rest loaded hh
    have hg : (s.initMove rest loaded .storeGen).gen = s.gen + 1 := by
      subst hl
      exact nextGen_eq hb
    refine ⟨?_, ?_, fun _ => ?_⟩
    · rw [hg, h.counted]
      rfl
    · rw [hg]
      exact h.behind.advance
    · rw [hg]
      exact h.behind.publish _

/-! ## One step -/

theorem Stamps.frame (h : s.Stamps) (hf : Framed s t) : t.Stamps := by
  have htarget : t.target = s.target := by
    unfold target
    rw [hf.pending, hf.settings]
  refine ⟨?_, ?_, ?_⟩
  · rw [hf.gen, hf.changes]
    exact h.counted
  · rw [hf.gen, hf.caches]
    exact h.behind
  · rw [hf.pending, hf.gen, htarget, hf.caches]
    exact h.current

theorem fill_stamps (h : s.Stamps) (i : Nat) (hk : s.Keeps (.fill i)) : ((s.fillCache i).goto i .logging).Stamps := by
  refine ⟨h.counted, h.behind.take i s.settings, fun hs => ?_⟩
  have hcurrent := h.current hs
  have htarget : s.target = s.settings := hk hs
  rw [htarget] at hcurrent
  have htake := hcurrent.take i
  rw [← htarget] at htake
  exact htarget ▸ htake

theorem begin_stamps (h : s.Stamps) (cfg : FormatConfig) : Stamps { s with holder := .init cfg.initSteps 0 } := by
  refine ⟨h.counted, h.behind, fun hs => ?_⟩
  -- the generation is still to be stored
  refine absurd rfl (hs .storeGen ?_)
  simp [InitHolder.pending, FormatConfig.initSteps]

theorem step_stamps (h : s.Stamps) (hk : s.Keeps a) (hb : s.gen + 1 < 2 ^ 32) (hs : s.step a = some t) : t.Stamps := by
  cases step_cases hs with
  | changes settings => exact change_stamps h settings hb
  | begins cfg => exact begin_stamps h cfg
  | inits hh => exact init_stamps h hh hk hb
  | fills i => exact fill_stamps h i hk
  | frames hf => exact h.frame hf

/-! ## Every run -/

theorem start_stamps : start.Stamps := by
  refine ⟨rfl, fun i => Nat.zero_le 1, fun _ i hi => ?_⟩
  exact absurd hi Nat.zero_ne_one

theorem run_stamps {moves : List FormatMove} (h : s.Stamps) (hr : Transition.run step s moves = some t)
    (hk : s.AllKeep moves) (hb : t.changes < 2 ^ 31) : t.Stamps := by
  induction moves generalizing s with
  | nil =>
    cases hr
    exact h
  | cons a moves ih =>
    have hle := run_changes hr
    rw [Transition.run_cons] at hr
    obtain ⟨u, hs, hr⟩ := Option.bind_eq_some_iff.mp hr
    have hgen : s.gen + 1 < 2 ^ 32 := by
      rw [h.counted]
      omega
    exact ih (step_stamps h hk.1 hgen hs) hr (hk.2 u hs)

theorem Stamps.fresh (h : s.Stamps) : s.Fresh := by
  intro hinit hreconf
  have hpending : s.holder.pending = [] := by
    cases hh : s.holder with
    | init rest loaded => exact absurd hh (hinit rest loaded)
    | free => rfl
    | reconfigure => rfl
    | shutdown => rfl
  have htarget : s.target = s.settings := by
    unfold target
    rw [hpending]
    rfl
  have hcurrent := h.current
  rw [hpending, htarget] at hcurrent
  exact hcurrent fun w hw => absurd hw List.not_mem_nil

/-- In every run in which no copy is taken between the new generation of an init and
its last setting, no copy of the current generation is stale. -/
theorem copies_fresh {moves : List FormatMove} {s : FormatThreads} (hr : Transition.run step start moves = some s)
    (hk : start.AllKeep moves) (hb : s.changes < 2 ^ 31) : s.Fresh :=
  (run_stamps start_stamps hr hk hb).fresh

def namedConfig (name : CStr) : FormatConfig := ⟨.empty, name, some .pattern, 0, 0⟩

/-- An init, alone, with its seven writes. -/
def initMoves (name : CStr) : List FormatMove :=
  .initBegin (namedConfig name) :: List.replicate 7 .initStep ++ [.initEnd true]

theorem keep_cons {moves : List FormatMove} (hs : s.step a = some t) (hk : s.Keeps a) (ht : t.AllKeep moves) :
    s.AllKeep (a :: moves) := by
  refine ⟨hk, fun u hu => ?_⟩
  rw [hs] at hu
  cases hu
  exact ht

theorem keep_put {w : InitStep} {rest : List InitStep} {loaded : Nat} (hh : s.holder = .init (w :: rest) loaded)
    (hw : w.isStore = false ∨ loaded = s.gen) : s.Keeps .initStep := by
  intro rest' loaded' hh'
  rw [hh] at hh'
  cases hh'
  rcases hw with hw | hl
  · cases hw
  · exact hl

theorem keep_logging : start.AllKeep (initMoves .empty ++ [.check 0, .refresh 0, .fill 0]) := by
  refine keep_cons rfl trivial ?_
  refine keep_cons rfl (keep_put rfl (.inl rfl)) ?_
  refine keep_cons rfl (keep_put rfl (.inl rfl)) ?_
  refine keep_cons rfl (keep_put rfl (.inl rfl)) ?_
  refine keep_cons rfl (keep_put rfl (.inl rfl)) ?_
  refine keep_cons rfl (keep_put rfl (.inl rfl)) ?_
  refine keep_cons rfl (keep_put rfl (.inr rfl)) ?_
  refine keep_cons rfl (keep_put rfl (.inl rfl)) ?_
  refine keep_cons rfl trivial ?_
  refine keep_cons rfl trivial ?_
  refine keep_cons rfl trivial ?_
  exact keep_cons rfl (fun _ => rfl) trivial

theorem copies_fresh_logging : ∃ s, Transition.run step start (initMoves .empty ++ [.check 0, .refresh 0, .fill 0]) = some s ∧
    s.Fresh :=
  ⟨_, rfl, copies_fresh rfl keep_logging (by decide +kernel)⟩

/-- A thread that has passed the `initialized` check before a shutdown takes its copy
between the new generation of the next init and the name of its default logger. -/
def lateMoves : List FormatMove :=
  initMoves ⟨lit "old", by decide⟩ ++ [.check 0, .refresh 0, .shutdownBegin, .shutdownMark, .shutdownEnd,
    .initBegin (namedConfig ⟨lit "new", by decide⟩)] ++ List.replicate 6 .initStep ++
    [.fill 0, .initStep, .initEnd true]

theorem late_copy_stale : ¬∀ moves s, Transition.run step start moves = some s → s.changes < 2 ^ 31 → s.Fresh := by
  intro h
  have hfresh := h lateMoves _ rfl (by decide +kernel)
  have hname := congrArg FormatSettings.loggerName (hfresh (by intro rest loaded hh; cases hh) (by intro hh; cases hh) 0 rfl)
  exact absurd hname (by decide +kernel)

end FormatThreads

end HxClog
