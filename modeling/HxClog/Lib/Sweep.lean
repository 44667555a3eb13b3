import Mathlib

/-!
# Passes over a list

A pass sweeps over the entries from the front, with a state, and rewrites each of
them. A pass with a budget hits the first entries that qualify. In a list sorted
by a key the entries at either end are told by their rank.
-/

namespace Sweep

variable {σ α κ : Type*}

/-- What `f` gives for each entry, and the state at the end. -/
def sweep {β : Type*} (f : σ → α → σ × β) : σ → List α → σ × List β
  | s, [] => (s, [])
  | s, x :: xs =>
    let (s, y) := f s x
    let (s, ys) := sweep f s xs
    (s, y :: ys)

theorem sweep_cons {β : Type*} (f : σ → α → σ × β) (s : σ) (x : α) (xs : List α) :
    sweep f s (x :: xs) = ((sweep f (f s x).1 xs).1, (f s x).2 :: (sweep f (f s x).1 xs).2) := rfl

theorem sweep_append {β : Type*} (f : σ → α → σ × β) : ∀ (s : σ) (xs ys : List α),
    sweep f s (xs ++ ys) =
      ((sweep f (sweep f s xs).1 ys).1, (sweep f s xs).2 ++ (sweep f (sweep f s xs).1 ys).2)
  | _, [], _ => rfl
  | s, x :: xs, ys => by
    rw [List.cons_append, sweep_cons, sweep_append f _ xs ys]
    rfl

/-- A pass over images `g x` that does what a pass over the `x` does. -/
theorem sweep_map_mem {β γ δ : Type*} {f : σ → α → σ × δ} {h : σ → β → σ × γ} {g : β → α} {k : β → γ → δ} :
    ∀ {xs : List β}, (∀ s, ∀ x ∈ xs, f s (g x) = ((h s x).1, k x (h s x).2)) → ∀ (s : σ),
      sweep f s (xs.map g) = ((sweep h s xs).1, List.zipWith k xs (sweep h s xs).2)
  | [], _, _ => rfl
  | x :: xs, hf, s => by
    rw [List.map_cons, sweep_cons, hf s x (List.mem_cons_self ..),
      sweep_map_mem fun s y hy => hf s y (List.mem_cons_of_mem _ hy)]
    rfl

theorem sweep_map {β γ δ : Type*} {f : σ → α → σ × δ} {h : σ → β → σ × γ} {g : β → α} {k : β → γ → δ}
    (hf : ∀ s x, f s (g x) = ((h s x).1, k x (h s x).2)) (s : σ) (xs : List β) :
    sweep f s (xs.map g) = ((sweep h s xs).1, List.zipWith k xs (sweep h s xs).2) :=
  sweep_map_mem (fun s x _ => hf s x) s

/-- What every entry keeps, a pass keeps. -/
theorem sweep_invariant {β : Type*} {f : σ → α → σ × β} {I : σ → Prop} {P : α → Prop} {Q : β → Prop}
    (hf : ∀ s x, I s → P x → I (f s x).1 ∧ Q (f s x).2) : ∀ {s : σ} {xs : List α}, I s → (∀ x ∈ xs, P x) →
      I (sweep f s xs).1 ∧ ∀ y ∈ (sweep f s xs).2, Q y
  | _, [], hs, _ => ⟨hs, fun _ hy => by cases hy⟩
  | s, x :: xs, hs, hx => by
    obtain ⟨h₁, h₂⟩ := hf s x hs (hx x (List.mem_cons_self ..))
    obtain ⟨h₃, h₄⟩ := sweep_invariant hf h₁ fun y hy => hx y (List.mem_cons_of_mem _ hy)
    rw [sweep_cons]
    refine ⟨h₃, fun y hy => ?_⟩
    rcases List.mem_cons.mp hy with rfl | hy
    · exact h₂
    · exact h₄ y hy

/-! ## Budgets -/

/-- The entries that a pass with budget `b` hits. -/
def firstHits (p : α → Bool) (b : Int) (xs : List α) : List α := (xs.filter p).take b.toNat

theorem firstHits_hit {p : α → Bool} {b : Int} {x : α} (hb : 0 < b) (hp : p x) (xs : List α) :
    firstHits p b (x :: xs) = x :: firstHits p (b - 1) xs := by
  obtain ⟨n, rfl⟩ : ∃ n : Nat, b = n + 1 := ⟨(b - 1).toNat, by omega⟩
  unfold firstHits
  rw [List.filter_cons_of_pos hp, show ((n : Int) + 1).toNat = n + 1 by omega, List.take_succ_cons,
    show ((n : Int) + 1 - 1).toNat = n by omega]

theorem firstHits_miss {p : α → Bool} {b : Int} {x : α} (h : ¬(0 < b ∧ p x)) (xs : List α) :
    firstHits p b (x :: xs) = firstHits p b xs := by
  unfold firstHits
  by_cases hp : p x
  · rw [show b.toNat = 0 by have : ¬0 < b := fun hb => h ⟨hb, hp⟩
                            omega]
    rfl
  · rw [List.filter_cons_of_neg hp]

theorem mem_of_mem_firstHits {p : α → Bool} {b : Int} {x : α} {xs : List α} (h : x ∈ firstHits p b xs) :
    x ∈ xs ∧ p x := List.mem_filter.mp (List.mem_of_mem_take h)

/-! ## Passes over disjoint parts of a store -/

section

variable {δ π ν : Type*} (get : δ → π → ν) (act : δ → α → δ × Bool) (own : α → π → Prop)

/-- An action of `x` reads and changes only the part of the store that `x` owns. -/
structure Local : Prop where
  frame : ∀ d x p, ¬own x p → get (act d x).1 p = get d p
  reads : ∀ d d' x, (∀ p, own x p → get d p = get d' p) →
    (act d x).2 = (act d' x).2 ∧ ∀ p, own x p → get (act d x).1 p = get (act d' x).1 p

/-- One entry of a pass that acts on candidates until `b` actions have succeeded. -/
def trimStep (cand : α → Bool) (s : Int × δ) (x : α) : (Int × δ) × Bool :=
  if 0 < s.1 ∧ cand x then
    let (d, done) := act s.2 x
    ((if done then s.1 - 1 else s.1, d), done)
  else (s, false)

variable {get act own}

/-- One entry of a pass that acts on every candidate. -/
def eachStep (act : δ → α → δ × Bool) (cand : α → Bool) (d : δ) (x : α) : δ × Bool :=
  if cand x then ((act d x).1, true) else (d, false)

theorem each_spec (hloc : Local get act own) (cand : α → Bool) :
    ∀ {xs : List α} (d : δ), xs.Pairwise (fun x y => ∀ p, own x p → ¬own y p) →
      let r := sweep (eachStep act cand) d xs
      r.2 = xs.map cand ∧ (∀ p, (∀ x ∈ xs, cand x → ¬own x p) → get r.1 p = get d p) ∧
        ∀ x ∈ xs, cand x → ∀ p, own x p → get r.1 p = get (act d x).1 p
  | [], _, _ => ⟨rfl, fun _ _ => rfl, fun _ hx => nomatch hx⟩
  | x :: xs, d, hdis => by
    obtain ⟨hx, hxs⟩ := List.pairwise_cons.mp hdis
    have hstep : ∀ p, ¬(cand x ∧ own x p) → get (eachStep act cand d x).1 p = get d p := by
      intro p hp
      unfold eachStep
      split
      · rename_i hc
        exact hloc.frame d x p fun ho => hp ⟨hc, ho⟩
      · rfl
    obtain ⟨hr, hframe, hown⟩ := each_spec hloc cand (eachStep act cand d x).1 hxs
    simp only [sweep_cons, List.map_cons]
    refine ⟨?_, fun p hp => ?_, fun y hy hc p hp => ?_⟩
    · rw [hr]
      unfold eachStep
      cases cand x <;> rfl
    · rw [hframe p fun y hy => hp y (List.mem_cons_of_mem _ hy)]
      exact hstep p fun h => hp x (List.mem_cons_self ..) h.1 h.2
    · rcases List.mem_cons.mp hy with rfl | hy
      · rw [hframe p fun z hz _ => hx z hz p hp]
        unfold eachStep
        rw [if_pos hc]
      · rw [hown y hy hc p hp]
        exact (hloc.reads _ d y fun q hq => hstep q fun h => hx y hy q h.2 hq).2 p hp

/-- The pass acts successfully on the first `b` candidates that can succeed, and
leaves every other part of the store alone, but for actions that failed. -/
theorem trim_spec [DecidableEq α] (hloc : Local get act own) (cand : α → Bool) :
    ∀ {xs : List α} (b : Int) (d : δ), xs.Pairwise (fun x y => ∀ p, own x p → ¬own y p) → xs.Nodup →
      let r := sweep (trimStep act cand) (b, d) xs
      let hits := firstHits (fun x => cand x && (act d x).2) b xs
      r.2 = xs.map (fun x => decide (x ∈ hits)) ∧
        (∀ p, (∀ x ∈ xs, cand x → ¬own x p) → get r.1.2 p = get d p) ∧
        (∀ x ∈ hits, ∀ p, own x p → get r.1.2 p = get (act d x).1 p) ∧
        ∀ x ∈ xs, x ∉ hits → ∀ p, own x p →
          get r.1.2 p = get d p ∨ cand x = true ∧ (act d x).2 = false ∧ get r.1.2 p = get (act d x).1 p
  | [], b, d, _, _ => by
    refine ⟨rfl, fun _ _ => rfl, fun x hx => ?_, fun x hx => ?_⟩
    · cases (mem_of_mem_firstHits hx).1
    · cases hx
  | x :: xs, b, d, hdis, hnd => by
    obtain ⟨hx, hxs⟩ := List.pairwise_cons.mp hdis
    obtain ⟨hmem, hnd'⟩ := List.nodup_cons.mp hnd
    -- the entries behind `x` see the store as it was
    have hsame : ∀ d', (∀ p, ¬own x p → get d' p = get d p) → ∀ y ∈ xs, ∀ p, own y p → get d' p = get d p :=
      fun d' hd y hy p hp => hd p fun h => hx y hy p h hp
    have hbehind : ∀ (d' : δ) (b' : Int), (∀ p, ¬own x p → get d' p = get d p) →
        firstHits (fun y => cand y && (act d' y).2) b' xs = firstHits (fun y => cand y && (act d y).2) b' xs := by
      intro d' b' hd
      unfold firstHits
      rw [List.filter_congr fun y hy => by rw [(hloc.reads d' d y fun p hp => hsame d' hd y hy p hp).1]]
    simp only [sweep_cons, List.map_cons]
    by_cases hgo : 0 < b ∧ cand x = true
    · have hd : ∀ p, ¬own x p → get (act d x).1 p = get d p := hloc.frame d x
      have hreads : ∀ y ∈ xs, ∀ p, own y p → get (act (act d x).1 y).1 p = get (act d y).1 p := fun y hy =>
        (hloc.reads (act d x).1 d y fun p hp => hsame _ hd y hy p hp).2
      have hflag : ∀ y ∈ xs, (act (act d x).1 y).2 = (act d y).2 := fun y hy =>
        (hloc.reads (act d x).1 d y fun p hp => hsame _ hd y hy p hp).1
      cases hdone : (act d x).2 with
      | true =>
        have hstep : trimStep act cand (b, d) x = ((b - 1, (act d x).1), true) := by
          unfold trimStep
          simp only
          rw [if_pos hgo, hdone]
          rfl
        have hhits : firstHits (fun y => cand y && (act d y).2) b (x :: xs) =
            x :: firstHits (fun y => cand y && (act d y).2) (b - 1) xs :=
          firstHits_hit hgo.1 (by simp [hgo.2, hdone]) xs
        obtain ⟨hr, hframe, hown, hrest⟩ := trim_spec hloc cand (b - 1) (act d x).1 hxs hnd'
        simp only [hbehind _ _ hd] at hr hown hrest
        rw [hstep, hhits]
        refine ⟨?_, fun p hp => ?_, fun y hy p hp => ?_, fun y hy hny p hp => ?_⟩
        · rw [hr]
          simp only [List.mem_cons, true_or, decide_true, List.cons.injEq, true_and]
          refine List.map_congr_left fun y hy => ?_
          have hne : y ≠ x := fun h => hmem (h ▸ hy)
          simp [hne]
        · rw [hframe p fun y hy => hp y (List.mem_cons_of_mem _ hy)]
          exact hd p (hp x (List.mem_cons_self ..) hgo.2)
        · rcases List.mem_cons.mp hy with rfl | hy
          · exact hframe p fun z hz _ => hx z hz p hp
          · rw [hown y hy p hp]
            exact hreads y (mem_of_mem_firstHits hy).1 p hp
        · rw [List.mem_cons, not_or] at hny
          have hy' := (List.mem_cons.mp hy).resolve_left hny.1
          rcases hrest y hy' hny.2 p hp with h | ⟨hc, hf, h⟩
          · exact Or.inl (h.trans (hsame _ hd y hy' p hp))
          · exact Or.inr ⟨hc, (hflag y hy').symm.trans hf, h.trans (hreads y hy' p hp)⟩
      | false =>
        have hstep : trimStep act cand (b, d) x = ((b, (act d x).1), false) := by
          unfold trimStep
          simp only
          rw [if_pos hgo, hdone]
          rfl
        have hhits : firstHits (fun y => cand y && (act d y).2) b (x :: xs) =
            firstHits (fun y => cand y && (act d y).2) b xs :=
          firstHits_miss (by simp [hdone]) xs
        obtain ⟨hr, hframe, hown, hrest⟩ := trim_spec hloc cand b (act d x).1 hxs hnd'
        simp only [hbehind _ _ hd] at hr hown hrest
        have hxh : x ∉ firstHits (fun y => cand y && (act d y).2) b xs := fun h => hmem (mem_of_mem_firstHits h).1
        rw [hstep, hhits]
        refine ⟨?_, fun p hp => ?_, fun y hy p hp => ?_, fun y hy hny p hp => ?_⟩
        · rw [hr]
          simp [hxh]
        · rw [hframe p fun y hy => hp y (List.mem_cons_of_mem _ hy)]
          exact hd p (hp x (List.mem_cons_self ..) hgo.2)
        · rw [hown y hy p hp]
          exact hreads y (mem_of_mem_firstHits hy).1 p hp
        · rcases List.mem_cons.mp hy with rfl | hy'
          · exact Or.inr ⟨hgo.2, hdone, hframe p fun z hz _ => hx z hz p hp⟩
          · rcases hrest y hy' hny p hp with h | ⟨hc, hf, h⟩
            · exact Or.inl (h.trans (hsame _ hd y hy' p hp))
            · exact Or.inr ⟨hc, (hflag y hy').symm.trans hf, h.trans (hreads y hy' p hp)⟩
    · have hstep : trimStep act cand (b, d) x = ((b, d), false) := by
        unfold trimStep
        simp only
        rw [if_neg hgo]
      have hhits : firstHits (fun y => cand y && (act d y).2) b (x :: xs) =
          firstHits (fun y => cand y && (act d y).2) b xs :=
        firstHits_miss (fun ⟨hb, hc⟩ => hgo ⟨hb, (Bool.and_eq_true_iff.mp hc).1⟩) xs
      obtain ⟨hr, hframe, hown, hrest⟩ := trim_spec hloc cand b d hxs hnd'
      have hxh : x ∉ firstHits (fun y => cand y && (act d y).2) b xs := fun h => hmem (mem_of_mem_firstHits h).1
      rw [hstep, hhits]
      refine ⟨?_, fun p hp => hframe p fun y hy => hp y (List.mem_cons_of_mem _ hy), hown, fun y hy hny p hp => ?_⟩
      · rw [hr]
        simp [hxh]
      · rcases List.mem_cons.mp hy with rfl | hy'
        · exact Or.inl (hframe p fun z hz _ => hx z hz p hp)
        · exact hrest y hy' hny p hp

end

/-! ## Sorted lists -/

theorem filterMap_ite {β : Type*} (p : α → Bool) (f : α → β) (xs : List α) :
    xs.filterMap (fun x => if p x then some (f x) else none) = (xs.filter p).map f := by
  induction xs with
  | nil => rfl
  | cons x xs ih =>
    by_cases h : p x
    · rw [List.filterMap_cons, if_pos h, List.filter_cons_of_pos h, List.map_cons, ih]
    · rw [List.filterMap_cons, if_neg h, List.filter_cons_of_neg h, ih]

/-- A permutation of images is the image of a permutation. -/
theorem exists_map_of_perm {β : Type*} {f : α → β} : ∀ {t : List β} {l : List α}, t.Perm (l.map f) →
    ∃ l' : List α, l'.Perm l ∧ l'.map f = t
  | [], l, h => by
    obtain rfl : l = [] := by simpa using h.symm.eq_nil
    exact ⟨[], List.Perm.refl _, rfl⟩
  | y :: t, l, h => by
    obtain ⟨a, ha, rfl⟩ := List.mem_map.mp (h.subset (List.mem_cons_self ..))
    obtain ⟨l₁, l₂, rfl⟩ := List.append_of_mem ha
    rw [List.map_append, List.map_cons] at h
    have hrest : t.Perm ((l₁ ++ l₂).map f) := by
      rw [List.map_append]
      exact (h.trans List.perm_middle).cons_inv
    obtain ⟨l', hl, rfl⟩ := exists_map_of_perm hrest
    exact ⟨a :: l', (hl.cons a).trans List.perm_middle.symm, rfl⟩

/-- The last `k` entries. -/
def newest (k : Nat) (xs : List α) : List α := xs.drop (xs.length - k)

section

variable [LinearOrder κ] {key : α → κ}

theorem sorted_nodup {xs : List α} (h : xs.Pairwise (key · < key ·)) : xs.Nodup :=
  h.imp fun hlt he => absurd (congrArg key he) (ne_of_lt hlt)

/-- In a sorted list the entries around `x` are those with smaller and larger keys. -/
theorem sorted_split {pre post : List α} {x : α} (h : (pre ++ x :: post).Pairwise (key · < key ·)) :
    (pre ++ x :: post).filter (key · < key x) = pre ∧ (pre ++ x :: post).filter (key x < key ·) = post := by
  obtain ⟨_, hpost, hcross⟩ := List.pairwise_append.mp h
  have hlo : ∀ a ∈ pre, key a < key x := fun a ha => hcross a ha x (List.mem_cons_self ..)
  have hhi : ∀ a ∈ post, key x < key a := (List.pairwise_cons.mp hpost).1
  constructor
  · rw [List.filter_append, List.filter_eq_self.mpr fun a ha => by simpa using hlo a ha,
      List.filter_cons_of_neg (by simp), List.filter_eq_nil_iff.mpr fun a ha => by simpa using le_of_lt (hhi a ha),
      List.append_nil]
  · rw [List.filter_append, List.filter_eq_nil_iff.mpr fun a ha => by simpa using le_of_lt (hlo a ha),
      List.filter_cons_of_neg (by simp), List.filter_eq_self.mpr fun a ha => by simpa using hhi a ha, List.nil_append]

theorem mem_take_split {pre post : List α} {x : α} (h : (pre ++ x :: post).Nodup) (k : Nat) :
    x ∈ (pre ++ x :: post).take k ↔ pre.length < k := by
  rw [List.nodup_append] at h
  have hpre : x ∉ pre := fun hx => h.2.2 x hx x (List.mem_cons_self ..) rfl
  constructor
  · intro hx
    by_contra hk
    rw [List.take_append_of_le_length (by omega)] at hx
    exact hpre (List.mem_of_mem_take hx)
  · intro hk
    rw [List.take_append, List.mem_append]
    right
    obtain ⟨j, hj⟩ : ∃ j, k - pre.length = j + 1 := ⟨k - pre.length - 1, by omega⟩
    rw [hj, List.take_succ_cons]
    exact List.mem_cons_self ..

theorem mem_take_iff {xs : List α} (h : xs.Pairwise (key · < key ·)) (k : Nat) (x : α) :
    x ∈ xs.take k ↔ x ∈ xs ∧ (xs.filter (key · < key x)).length < k := by
  constructor
  · intro hx
    have hmem := List.mem_of_mem_take hx
    obtain ⟨pre, post, rfl⟩ := List.append_of_mem hmem
    rw [(sorted_split h).1]
    exact ⟨hmem, (mem_take_split (sorted_nodup h) k).mp hx⟩
  · rintro ⟨hmem, hk⟩
    obtain ⟨pre, post, rfl⟩ := List.append_of_mem hmem
    rw [(sorted_split h).1] at hk
    exact (mem_take_split (sorted_nodup h) k).mpr hk

/-- What is not among the newest `k` is in front of them. -/
theorem mem_newest_or {xs : List α} {x : α} (h : xs.Nodup) (hx : x ∈ xs) (k : Nat) :
    x ∈ newest k xs ↔ x ∉ xs.take (xs.length - k) := by
  unfold newest
  have hsplit := List.take_append_drop (xs.length - k) xs
  rw [← hsplit, List.nodup_append] at h
  constructor
  · intro hd ht
    exact h.2.2 x ht x hd rfl
  · intro ht
    rw [← hsplit, List.mem_append] at hx
    exact hx.resolve_left ht

theorem mem_newest_iff {xs : List α} (h : xs.Pairwise (key · < key ·)) (k : Nat) (x : α) :
    x ∈ newest k xs ↔ x ∈ xs ∧ (xs.filter (key x < key ·)).length < k := by
  by_cases hx : x ∈ xs
  · rw [mem_newest_or (sorted_nodup h) hx]
    obtain ⟨pre, post, rfl⟩ := List.append_of_mem hx
    rw [mem_take_split (sorted_nodup h), (sorted_split h).2, List.length_append, List.length_cons]
    simp only [hx, true_and]
    omega
  · refine iff_of_false (fun hd => hx (List.mem_of_mem_drop hd)) fun hd => hx hd.1

/-- The hits of a pass over a sorted list. -/
theorem mem_firstHits_iff {xs : List α} (h : xs.Pairwise (key · < key ·)) (p : α → Bool) (b : Int) (x : α) :
    x ∈ firstHits p b xs ↔
      (x ∈ xs ∧ p x) ∧ (((xs.filter p).filter (key · < key x)).length : Int) < b := by
  unfold firstHits
  rw [mem_take_iff (h.filter p), List.mem_filter]
  exact and_congr_right fun _ => by omega

/-- Fewer than `b` of the entries in front of `x` satisfy `p`, and so does `x`. -/
def IsHit (key : α → κ) (p : α → Bool) (b : Int) (xs : List α) (x : α) : Bool :=
  p x ∧ (((xs.filter p).filter (key · < key x)).length : Int) < b

theorem mem_firstHits_perm {xs ys : List α} (h : xs.Pairwise (key · < key ·)) (hp : xs.Perm ys) (p : α → Bool)
    (b : Int) (x : α) : x ∈ firstHits p b xs ↔ x ∈ ys ∧ IsHit key p b ys x := by
  unfold IsHit
  rw [mem_firstHits_iff h, hp.mem_iff, ((hp.filter p).filter _).length_eq, and_assoc]
  simp only [decide_eq_true_eq]

/-- `x` stands at most `k` places from the end of the order. -/
def IsNewest (key : α → κ) (k : Int) (xs : List α) (x : α) : Bool := ((xs.filter (key x < key ·)).length : Int) < k

theorem isNewest_perm {xs ys : List α} (h : xs.Perm ys) (k : Int) (x : α) :
    IsNewest key k xs x = IsNewest key k ys x := by
  unfold IsNewest
  rw [(h.filter _).length_eq]

theorem rank_sum {xs : List α} (h : xs.Pairwise (key · < key ·)) {x : α} (hx : x ∈ xs) :
    (xs.filter (key · < key x)).length + 1 + (xs.filter (key x < key ·)).length = xs.length := by
  obtain ⟨pre, post, rfl⟩ := List.append_of_mem hx
  obtain ⟨h₁, h₂⟩ := sorted_split h
  rw [h₁, h₂, List.length_append, List.length_cons]
  omega

/-- A pass that can leave `k` candidates leaves the newest. -/
theorem mem_firstHits_newest {xs : List α} (h : xs.Pairwise (key · < key ·)) (p : α → Bool) (k : Int) (x : α) :
    x ∈ firstHits p ((xs.filter p).length - k) xs ↔ (x ∈ xs ∧ p x) ∧ IsNewest key k (xs.filter p) x = false := by
  rw [mem_firstHits_iff h]
  refine and_congr_right fun hx => ?_
  have := rank_sum (h.filter p) (List.mem_filter.mpr hx)
  unfold IsNewest
  rw [decide_eq_false_iff_not]
  omega

/-- The newest `k` are `k`, or all there are. -/
theorem newest_length {xs : List α} (h : xs.Pairwise (key · < key ·)) (k : Nat) :
    (xs.filter (IsNewest key k xs)).length = min k xs.length := by
  have hfilter : xs.filter (IsNewest key k xs) = newest k xs := by
    unfold newest
    conv => lhs; arg 2; rw [← List.take_append_drop (xs.length - k) xs]
    rw [List.filter_append, List.filter_eq_nil_iff.mpr, List.filter_eq_self.mpr, List.nil_append]
    · intro x hx
      have := ((mem_newest_iff h k x).mp hx).2
      simpa [IsNewest] using this
    · intro x hx hnew
      have hmem := List.mem_of_mem_take hx
      refine (mem_newest_or (sorted_nodup h) hmem k).mp ((mem_newest_iff h k x).mpr ⟨hmem, ?_⟩) hx
      simpa [IsNewest] using hnew
  rw [hfilter, newest, List.length_drop]
  omega

end

end Sweep
