import HxClog.Lib.Sweep
import HxClog.Cleanup

/-!
# Four arrays as one list of rows

The loops of `hx_rotate_cleanup` over the parallel arrays compute what passes
over a list of rows do: the scan appends rows, the sort permutes them into order,
a pass rewrites them from the front, and compaction filters them.
-/

namespace HxClog

open C Posix Sweep

namespace Arrays

/-- All four arrays have `m` entries. -/
def Sized (a : Arrays) (m : Nat) : Prop :=
  a.names.length = m ∧ a.mtimes.length = m ∧ a.keys.length = m ∧ a.compressed.length = m

/-- The first `n` entries. -/
def rows (a : Arrays) (n : Nat) : List Row := (List.range n).map a.row

theorem put_sized {a : Arrays} {m : Nat} (h : a.Sized m) (i : Nat) (r : Row) : (a.put i r).Sized m := by
  obtain ⟨h₁, h₂, h₃, h₄⟩ := h
  simp [Sized, put, h₁, h₂, h₃, h₄]

theorem getD_set {α : Type*} (l : List α) (i j : Nat) (x d : α) (h : i < l.length) :
    (l.set i x).getD j d = if j = i then x else l.getD j d := by
  simp only [List.getD_eq_getElem?_getD, List.getElem?_set]
  by_cases hij : i = j
  · subst hij
    simp [h]
  · rw [if_neg hij, if_neg (Ne.symm hij)]

theorem put_row {a : Arrays} {m i : Nat} (h : a.Sized m) (hi : i < m) (r : Row) (j : Nat) :
    (a.put i r).row j = if j = i then r else a.row j := by
  obtain ⟨h₁, h₂, h₃, h₄⟩ := h
  unfold row put
  simp only
  rw [getD_set _ _ _ _ _ (by omega), getD_set _ _ _ _ _ (by omega), getD_set _ _ _ _ _ (by omega),
    getD_set _ _ _ _ _ (by omega)]
  split <;> rfl

theorem set_getD {α : Type*} (l : List α) (i : Nat) (d : α) : l.set i (l.getD i d) = l := by
  apply List.ext_getElem?
  intro j
  rw [List.getElem?_set]
  split
  · rename_i hij
    subst hij
    split
    · rename_i hi
      simp [hi]
    · rename_i hi
      simp [Nat.not_lt.mp hi]
  · rfl

theorem clearName_eq (a : Arrays) (i : Nat) : a.clearName i = a.put i { a.row i with name := [] } := by
  unfold clearName put row
  simp only [set_getD]

theorem setCompressed_eq (a : Arrays) (i v : Nat) : a.setCompressed i v = a.put i { a.row i with compressed := v } := by
  unfold setCompressed put row
  simp only [set_getD]

theorem put_row_self (a : Arrays) (i : Nat) : a.put i (a.row i) = a := by
  unfold put row
  simp only [set_getD]

theorem names_row (a : Arrays) (i : Nat) : a.names.getD i [] = (a.row i).name := rfl

theorem mtimes_row (a : Arrays) (i : Nat) : a.mtimes.getD i 0 = (a.row i).mtime := rfl

theorem compressed_row (a : Arrays) (i : Nat) : a.compressed.getD i 0 = (a.row i).compressed := rfl

theorem rows_succ (a : Arrays) (n : Nat) : a.rows (n + 1) = a.rows n ++ [a.row n] := by
  unfold rows
  rw [List.range_succ, List.map_append]
  rfl

theorem rows_congr {a b : Arrays} {n : Nat} (h : ∀ i, i < n → a.row i = b.row i) : a.rows n = b.rows n := by
  unfold rows
  exact List.map_congr_left fun i hi => h i (List.mem_range.mp hi)

theorem rows_length (a : Arrays) (n : Nat) : (a.rows n).length = n := by simp [rows]

theorem countRows_eq (p : Row → Bool) (a : Arrays) (n : Nat) : countRows p a n = ((a.rows n).filter p).length := by
  unfold countRows rows
  rw [List.filter_map, List.length_map]

end Arrays

open Arrays

/-! ## A pass -/

/-- A loop whose body rewrites entry `i` alone is a pass over the rows. -/
theorem foldl_sweep {σ : Type} {m : Nat} {f : σ → Row → σ × Row} {body : σ × Arrays → Nat → σ × Arrays}
    (hbody : ∀ s a i, a.Sized m → i < m → body (s, a) i = ((f s (a.row i)).1, a.put i (f s (a.row i)).2))
    (s : σ) {a : Arrays} (ha : a.Sized m) : ∀ {n : Nat}, n ≤ m →
      let r := (List.range n).foldl body (s, a)
      r.2.Sized m ∧ (r.1, r.2.rows n) = sweep f s (a.rows n) ∧ ∀ i, n ≤ i → r.2.row i = a.row i
  | 0, _ => ⟨ha, rfl, fun _ _ => rfl⟩
  | n + 1, hn => by
    obtain ⟨hsized, hrows, hrest⟩ := foldl_sweep hbody s ha (n := n) (by omega)
    simp only [List.range_succ, List.foldl_append, List.foldl_cons, List.foldl_nil]
    generalize hr : (List.range n).foldl body (s, a) = r at hsized hrows hrest
    obtain ⟨s', a'⟩ := r
    rw [Prod.ext_iff] at hrows
    obtain ⟨hs, hrows⟩ := hrows
    simp only at hs hrows hsized hrest
    rw [hbody s' a' n hsized (by omega)]
    refine ⟨put_sized hsized n _, ?_, fun i hi => ?_⟩
    · have hkept : ∀ r, (a'.put n r).rows n = a'.rows n := fun r =>
        rows_congr fun i hi => by rw [put_row hsized (by omega), if_neg (by omega)]
      simp only
      rw [rows_succ a, sweep_append, rows_succ, hkept, put_row hsized (by omega), if_pos rfl, hrest n (le_refl n), hs,
        ← hrows]
      rfl
    · simp only
      rw [put_row hsized (by omega), if_neg (by omega)]
      exact hrest i (by omega)

/-! ## Sorting -/

/-- Rows move up past the hole as long as their keys are larger. -/
theorem shiftUp_spec {m : Nat} (key : Int) : ∀ (hole : Nat) {a : Arrays}, a.Sized m → hole < m →
    let r := shiftUp key hole a
    r.1.Sized m ∧ r.2 ≤ hole ∧ (∀ k, k < r.2 ∨ hole < k → r.1.row k = a.row k) ∧
      (∀ k, r.2 ≤ k → k < hole → r.1.row (k + 1) = a.row k ∧ key < (a.row k).key) ∧
      (0 < r.2 → (a.row (r.2 - 1)).key ≤ key)
  | 0, a, ha, _ => ⟨ha, le_refl 0, fun _ _ => rfl, fun _ _ hk => absurd hk (by omega), fun h => absurd h (Nat.lt_irrefl 0)⟩
  | j + 1, a, ha, hm => by
    unfold shiftUp
    by_cases hkey : a.keys.getD j 0 > key
    · rw [if_pos hkey]
      have hput : ∀ k, (a.put (j + 1) (a.row j)).row k = if k = j + 1 then a.row j else a.row k := put_row ha hm _
      obtain ⟨hsized, hle, hkeep, hmove, hstop⟩ := shiftUp_spec key j
        (put_sized ha (j + 1) (a.row j)) (by omega)
      refine ⟨hsized, by omega, fun k hk => ?_, fun k hk₁ hk₂ => ?_, fun h => ?_⟩
      · rw [hkeep k (by omega), hput, if_neg (by omega)]
      · by_cases hkj : k = j
        · subst hkj
          rw [hkeep (k + 1) (by omega), hput, if_pos rfl]
          exact ⟨rfl, hkey⟩
        · have := hmove k hk₁ (by omega)
          rwa [hput, if_neg (by omega)] at this
      · have := hstop h
        rwa [hput, if_neg (by omega)] at this
    · rw [if_neg hkey]
      exact ⟨ha, le_refl _, fun _ _ => rfl, fun _ h₁ h₂ => absurd h₁ (by omega), fun _ => not_lt.mp hkey⟩

/-- One turn of the outer loop inserts row `i` behind the rows with no larger key. -/
theorem sortStep_spec {m i : Nat} {a : Arrays} (ha : a.Sized m) (hi : i < m) :
    (sortStep a i).Sized m ∧ (∀ k, i < k → (sortStep a i).row k = a.row k) ∧
      ∃ h, (sortStep a i).rows (i + 1) = (a.rows i).take h ++ a.row i :: (a.rows i).drop h ∧
        (∀ r ∈ (a.rows i).drop h, (a.row i).key < r.key) ∧
        ∀ r, ((a.rows i).take h).getLast? = some r → r.key ≤ (a.row i).key := by
  obtain ⟨hsized, hle, hkeep, hmove, hstop⟩ := shiftUp_spec (a.row i).key i ha hi
  unfold sortStep
  simp only
  generalize shiftUp (a.row i).key i a = r at hsized hle hkeep hmove hstop
  obtain ⟨a', h⟩ := r
  simp only at hsized hle hkeep hmove hstop
  have hput : ∀ k, (a'.put h (a.row i)).row k = if k = h then a.row i else a'.row k := put_row hsized (by omega) _
  refine ⟨put_sized hsized h _, fun k hk => by rw [hput, if_neg (by omega), hkeep k (Or.inr hk)], h, ?_, ?_, ?_⟩
  · apply List.ext_getElem
    · simp [rows_length]
      omega
    · intro k hk₁ hk₂
      have hk : k < i + 1 := by rwa [rows_length] at hk₁
      have hleft : ((a'.put h (a.row i)).rows (i + 1))[k] = (a'.put h (a.row i)).row k := by simp [rows]
      rw [hleft, hput]
      rcases lt_trichotomy k h with hlt | heq | hgt
      · rw [if_neg (by omega), hkeep k (Or.inl hlt), List.getElem_append_left (by simp [rows_length]; omega)]
        simp [rows]
      · subst heq
        rw [if_pos rfl, List.getElem_append_right (by simp [rows_length])]
        simp [rows_length, Nat.min_eq_left hle]
      · obtain ⟨j, rfl⟩ : ∃ j, k = j + 1 := ⟨k - 1, by omega⟩
        rw [if_neg (by omega), (hmove j (by omega) (by omega)).1, List.getElem_append_right (by simp [rows_length]; omega)]
        have hidx : j + 1 - ((a.rows i).take h).length = (j - h) + 1 := by
          rw [List.length_take, rows_length, Nat.min_eq_left hle]
          omega
        simp only [hidx, List.getElem_cons_succ, List.getElem_drop]
        simp [rows, show h + (j - h) = j by omega]
  · intro r hr
    rw [List.mem_iff_getElem] at hr
    obtain ⟨k, hk, rfl⟩ := hr
    rw [List.length_drop, rows_length] at hk
    rw [List.getElem_drop]
    have := (hmove (h + k) (by omega) (by omega)).2
    simpa [rows] using this
  · intro r hr
    by_cases h0 : 0 < h
    · have := hstop h0
      rw [List.getLast?_eq_getElem?, List.length_take, rows_length, Nat.min_eq_left hle,
        List.getElem?_take_of_lt (by omega)] at hr
      have hlt : h - 1 < i := by omega
      simp only [rows, List.getElem?_map, List.getElem?_range hlt, Option.map_some, Option.some.injEq] at hr
      rw [← hr]
      exact this
    · obtain rfl : h = 0 := by omega
      simp at hr

theorem sortArrays_spec {m : Nat} {a : Arrays} (ha : a.Sized m) : ∀ {n : Nat}, n ≤ m →
    (sortArrays a n).Sized m ∧ ((sortArrays a n).rows n).Perm (a.rows n) ∧
      ((sortArrays a n).rows n).Pairwise (·.key ≤ ·.key) ∧ ∀ k, n ≤ k → (sortArrays a n).row k = a.row k
  | 0, _ => ⟨ha, List.Perm.refl _, List.Pairwise.nil, fun _ _ => rfl⟩
  | 1, _ => ⟨ha, List.Perm.refl _, List.pairwise_singleton _ _, fun _ _ => rfl⟩
  | n + 2, hn => by
    obtain ⟨hsized, hperm, hsorted, hrest⟩ := sortArrays_spec ha (n := n + 1) (by omega)
    have hstep : sortArrays a (n + 2) = sortStep (sortArrays a (n + 1)) (n + 1) := by
      unfold sortArrays
      rw [show n + 2 - 1 = n + 1 by omega, show n + 1 - 1 = n by omega, List.range'_1_concat, List.foldl_append]
      simp [Nat.add_comm]
    rw [hstep]
    generalize sortArrays a (n + 1) = b at hsized hperm hsorted hrest
    obtain ⟨hsized', hkeep, h, hrows, hhi, hlo⟩ := sortStep_spec hsized (i := n + 1) (by omega)
    refine ⟨hsized', ?_, ?_, fun k hk => by rw [hkeep k (by omega), hrest k (by omega)]⟩
    · rw [hrows, rows_succ a (n + 1), ← hrest (n + 1) (le_refl _)]
      refine List.perm_middle.trans ((List.Perm.cons _ ?_).trans (List.perm_append_singleton _ _).symm)
      rw [List.take_append_drop]
      exact hperm
    · rw [hrows]
      have hsplit := hsorted
      rw [← List.take_append_drop h (b.rows (n + 1)), List.pairwise_append] at hsplit
      obtain ⟨htake, hdrop, hcross⟩ := hsplit
      have hbelow : ∀ r ∈ (b.rows (n + 1)).take h, r.key ≤ (b.row (n + 1)).key := by
        intro r hr
        rcases List.eq_nil_or_concat ((b.rows (n + 1)).take h) with hnil | ⟨l, last, hl⟩
        · rw [hnil] at hr
          cases hr
        · rw [List.concat_eq_append] at hl
          rw [hl] at hr htake hlo
          have hlast := hlo last (by simp)
          rcases List.mem_append.mp hr with hr | hr
          · exact le_trans ((List.pairwise_append.mp htake).2.2 r hr last (by simp)) hlast
          · rw [List.mem_singleton.mp hr]
            exact hlast
      refine List.pairwise_append.mpr ⟨htake, List.pairwise_cons.mpr ⟨fun r hr => le_of_lt (hhi r hr), hdrop⟩, ?_⟩
      intro r hr s hs
      rcases List.mem_cons.mp hs with rfl | hs
      · exact hbelow r hr
      · exact hcross r hr s hs

/-! ## Compaction -/

theorem compactPass_spec {m : Nat} {a : Arrays} (ha : a.Sized m) : ∀ {n : Nat}, n ≤ m →
    let r := compactPass a n
    r.2.Sized m ∧ r.1 ≤ n ∧ r.2.rows r.1 = (a.rows n).filter (·.name ≠ []) ∧ ∀ k, n ≤ k → r.2.row k = a.row k
  | 0, _ => ⟨ha, le_refl 0, rfl, fun _ _ => rfl⟩
  | n + 1, hn => by
    obtain ⟨hsized, hle, hrows, hrest⟩ := compactPass_spec ha (n := n) (by omega)
    have hstep : compactPass a (n + 1) = compactStep (compactPass a n) n := by
      unfold compactPass
      rw [List.range_succ, List.foldl_append]
      rfl
    rw [hstep]
    generalize compactPass a n = r at hsized hle hrows hrest
    obtain ⟨c, b⟩ := r
    simp only at hsized hle hrows hrest
    have hname : b.names.getD n [] = (a.row n).name := by
      rw [← hrest n (le_refl n)]
      rfl
    unfold compactStep
    simp only
    rw [rows_succ a, List.filter_append, hname]
    by_cases hempty : (a.row n).name ≠ []
    · rw [if_pos hempty, List.filter_cons_of_pos (by simpa using hempty), List.filter_nil]
      have hmoved : (if c ≠ n then b.put c (b.row n) else b).Sized m ∧
          ∀ k, (if c ≠ n then b.put c (b.row n) else b).row k = if k = c then a.row n else b.row k := by
        split
        · refine ⟨put_sized hsized c _, fun k => ?_⟩
          rw [put_row hsized (by omega), hrest n (le_refl n)]
        · rename_i hcn
          obtain rfl : c = n := not_not.mp hcn
          refine ⟨hsized, fun k => ?_⟩
          split
          · rename_i hk
            rw [hk, hrest c (le_refl c)]
          · rfl
      refine ⟨hmoved.1, by simp only; omega, ?_, fun k hk => ?_⟩
      · simp only
        have hkept : (if c ≠ n then b.put c (b.row n) else b).rows c = b.rows c :=
          rows_congr fun i hi => by rw [hmoved.2, if_neg (by omega)]
        rw [rows_succ, hmoved.2, if_pos rfl, hkept, ← hrows]
      · simp only
        rw [hmoved.2, if_neg (by omega)]
        exact hrest k (by omega)
    · rw [if_neg hempty, List.filter_cons_of_neg (by simpa using hempty), List.filter_nil, List.append_nil]
      exact ⟨hsized, by simp only; omega, hrows, fun k hk => hrest k (by omega)⟩

/-! ## Collecting -/

/-- The capacity the arrays reach before a growth fails. -/
def roomFrom (alloc : Nat → Bool) : Nat → Nat → Nat → Nat
  | 0, _, cap => cap
  | fuel + 1, grows, cap =>
    if alloc (grows + 1) ∧ cap * 2 < 2 ^ 31 then roomFrom alloc fuel (grows + 1) (cap * 2) else cap

/-- The number of archives one cleanup can hold. -/
def room (alloc : Nat → Bool) : Nat := if alloc 0 then roomFrom alloc 21 0 initBackups else 0

theorem roomFrom_ge (alloc : Nat → Bool) : ∀ (fuel grows cap : Nat), cap ≤ roomFrom alloc fuel grows cap
  | 0, _, _ => le_refl _
  | fuel + 1, grows, cap => by
    unfold roomFrom
    split
    · exact le_trans (by omega) (roomFrom_ge alloc fuel (grows + 1) (cap * 2))
    · exact le_refl _

/-- The row of a name, when `collect_cb` stores it. -/
def collected (d : Disk) (c : CollectCtx) (fname : Bytes) : Option Row :=
  if fname = c.active then none else (archiveNameMatch fname c.pre c.ext).map (collectRow d c.dir c.pre fname)

/-- A context that has met the rows `l`. -/
structure Gathered (alloc : Nat → Bool) (c₀ : CollectCtx) (l : List Row) (c : CollectCtx) : Prop where
  names : c.pre = c₀.pre ∧ c.ext = c₀.ext ∧ c.dir = c₀.dir ∧ c.active = c₀.active
  sized : c.arrays.Sized c.cap
  cap : c.cap = initBackups * 2 ^ c.grows
  room : roomFrom alloc (21 - c.grows) c.grows c.cap = room alloc
  rows : c.arrays.rows c.count = l.take (HxClog.room alloc)
  full : c.oom = true → HxClog.room alloc ≤ l.length
  open_ : c.oom = false → c.count = l.length ∧ c.count ≤ c.cap
  within : c.count ≤ c.cap

theorem getD_append_left {α : Type*} {l t : List α} {i : Nat} (d : α) (h : i < l.length) :
    (l ++ t).getD i d = l.getD i d := by
  simp [List.getD_eq_getElem?_getD, List.getElem?_append_left h]

theorem collectGrow_gathered {alloc : Nat → Bool} {c₀ c : CollectCtx} {l : List Row} (h : Gathered alloc c₀ l c)
    (hoom : c.oom = false) (hfull : c.cap ≤ c.count) :
    ((collectGrow alloc c).oom = true ∧ Gathered alloc c₀ l (collectGrow alloc c)) ∨
      ((collectGrow alloc c).oom = false ∧ Gathered alloc c₀ l (collectGrow alloc c) ∧
        (collectGrow alloc c).count < (collectGrow alloc c).cap) := by
  obtain ⟨hlen, hle⟩ := h.open_ hoom
  have hcap := h.cap
  have hpos : 0 < c.cap := by
    rw [hcap]
    exact Nat.mul_pos (by decide) (Nat.two_pow_pos _)
  have hroom := h.room
  unfold collectGrow
  simp only
  split
  · rename_i hok
    right
    have hg : c.grows < 21 := by
      by_contra hg
      have hpow : initBackups * 2 ^ 21 ≤ c.cap := by
        rw [hcap]
        exact Nat.mul_le_mul_left _ (Nat.pow_le_pow_right (by decide) (by omega))
      have : initBackups = 512 := rfl
      have := hok.2
      omega
    obtain ⟨h₁, h₂, h₃, h₄⟩ := h.sized
    refine ⟨hoom, ⟨h.names, ?_, ?_, ?_, ?_, fun ho => ?_, fun _ => ⟨hlen, by simp only; omega⟩, by simp only; omega⟩,
      by simp only; omega⟩
    · simp [Sized, h₁, h₂, h₃, h₄]
      omega
    · simp only [hcap, Nat.pow_succ, Nat.mul_assoc]
    · rw [← hroom]
      obtain ⟨f, hf⟩ : ∃ f, 21 - c.grows = f + 1 := ⟨20 - c.grows, by omega⟩
      rw [hf]
      conv => rhs; unfold roomFrom
      rw [if_pos hok, show 21 - (c.grows + 1) = f by omega]
    · rw [← h.rows]
      refine rows_congr fun i hi => ?_
      have hi : i < c.count := hi
      unfold row
      simp only
      rw [getD_append_left _ (by omega), getD_append_left _ (by omega), getD_append_left _ (by omega),
        getD_append_left _ (by omega)]
    · rw [hoom] at ho
      cases ho
  · rename_i hfail
    left
    have hcapRoom : c.cap = HxClog.room alloc := by
      rw [← hroom]
      cases 21 - c.grows with
      | zero => rfl
      | succ f =>
        unfold roomFrom
        rw [if_neg hfail]
    exact ⟨rfl, ⟨h.names, h.sized, hcap, hroom, h.rows, fun _ => (by omega), fun ho => (nomatch ho), h.within⟩⟩

theorem collectStore_gathered {alloc : Nat → Bool} {c₀ c : CollectCtx} {l : List Row} (h : Gathered alloc c₀ l c)
    (hoom : c.oom = false) (hlt : c.count < c.cap) (r : Row) : Gathered alloc c₀ (l ++ [r]) (collectStore c r) := by
  obtain ⟨hlen, _⟩ := h.open_ hoom
  have hge := roomFrom_ge alloc (21 - c.grows) c.grows c.cap
  rw [h.room] at hge
  have hrows := h.rows
  rw [List.take_of_length_le (by omega)] at hrows
  refine ⟨h.names, put_sized h.sized _ _, h.cap, h.room, ?_, fun ho => ?_, fun _ => ⟨?_, hlt⟩, hlt⟩
  · unfold collectStore
    simp only
    have hkept : (c.arrays.put c.count r).rows c.count = c.arrays.rows c.count :=
      rows_congr fun i hi => by rw [put_row h.sized hlt, if_neg (by omega)]
    rw [rows_succ, hkept, put_row h.sized hlt, if_pos rfl, hrows, List.take_of_length_le (by simp; omega)]
  · have : c.oom = true := ho
    rw [hoom] at this
    cases this
  · simp [collectStore, hlen]

theorem collectCb_gathered {alloc : Nat → Bool} {d : Disk} {c₀ c : CollectCtx} {l : List Row}
    (h : Gathered alloc c₀ l c) (fname : Bytes) :
    Gathered alloc c₀ (l ++ (collected d c₀ fname).toList) (collectCb alloc d c fname) := by
  obtain ⟨hpre, hext, hdir, hactive⟩ := h.names
  unfold collectCb collected
  rw [← hpre, ← hext, ← hdir, ← hactive]
  by_cases hoom : c.oom = true
  · rw [if_pos hoom]
    have hfull := h.full hoom
    refine ⟨h.names, h.sized, h.cap, h.room, ?_, fun _ => ?_, fun ho => absurd hoom (by simp [ho]), h.within⟩
    · rw [List.take_append_of_le_length hfull, h.rows]
    · rw [List.length_append]
      omega
  · have hopen : c.oom = false := by simpa using hoom
    rw [if_neg hoom]
    by_cases hact : fname = c.active
    · rw [if_pos hact, if_pos hact]
      simpa using h
    · rw [if_neg hact, if_neg hact]
      cases hm : archiveNameMatch fname c.pre c.ext with
      | none => simpa using h
      | some comp =>
        simp only [Option.map_some, Option.toList_some]
        by_cases hcount : c.count ≥ c.cap
        · rw [if_pos hcount]
          rcases collectGrow_gathered h hopen hcount with ⟨hfail, hg⟩ | ⟨hok, hg, hlt⟩
          · rw [if_pos hfail]
            have hfull := hg.full hfail
            refine ⟨hg.names, hg.sized, hg.cap, hg.room, ?_, fun _ => ?_, fun ho => absurd hfail (by simp [ho]),
              hg.within⟩
            · rw [List.take_append_of_le_length hfull, hg.rows]
            · rw [List.length_append]
              omega
          · rw [if_neg (by simp [hok]), hg.names.1, hg.names.2.2.1, ← hpre, ← hdir]
            exact collectStore_gathered hg hok hlt _
        · rw [if_neg hcount, if_neg hoom]
          exact collectStore_gathered h hopen (by omega) _

theorem collect_gathered {alloc : Nat → Bool} {d : Disk} {c₀ : CollectCtx} : ∀ (names : List Bytes) {c : CollectCtx}
    {l : List Row}, Gathered alloc c₀ l c →
      Gathered alloc c₀ (l ++ names.filterMap (collected d c₀)) (names.foldl (collectCb alloc d) c)
  | [], c, l, h => by simpa using h
  | fname :: names, c, l, h => by
    have := collect_gathered (d := d) names (collectCb_gathered (d := d) h fname)
    rw [List.foldl_cons, List.filterMap_cons]
    cases hc : collected d c₀ fname with
    | none => simpa [hc] using this
    | some r => simpa [hc] using this

theorem collectInit_gathered {alloc : Nat → Bool} (h0 : alloc 0 = true) (fs : FileSink) :
    Gathered alloc (collectInit fs) [] (collectInit fs) := by
  refine ⟨⟨rfl, rfl, rfl, rfl⟩, ?_, rfl, (if_pos h0).symm, List.take_nil.symm, fun h => ?_, fun _ => ⟨rfl, Nat.zero_le _⟩,
    Nat.zero_le _⟩
  · simp [collectInit, blank, Sized]
  · cases h

/-- The scan stores the accepted names in the order of the directory, as many as there is room for. -/
theorem collect_spec {alloc : Nat → Bool} (h0 : alloc 0 = true) (d : Disk) (fs : FileSink) (names : List FileName) :
    let c := listDir (some names) (collectCb alloc d) (collectInit fs)
    c.arrays.Sized c.cap ∧ c.count ≤ c.cap ∧
      c.arrays.rows c.count = ((names.map FileName.bytes).filterMap (collected d (collectInit fs))).take (room alloc) := by
  have := collect_gathered (d := d) (names.map FileName.bytes) (collectInit_gathered h0 fs)
  rw [List.nil_append] at this
  exact ⟨this.sized, this.within, this.rows⟩

end HxClog
