import HxClog.Fork

/-!
# Lines across a fork

A line that was logged before the fork stays with the parent, wherever it was: the child
gives up the queue and the worker's hand. The exception is the buffer of the C library,
which both processes hand on.
-/

namespace HxClog

open C

section
variable {cap : Nat}

/-! ## What a step does to the lines -/

/-- The lines that are not written yet. -/
def Proc.items (p : Proc cap) : List Numbered := p.hand.toList ++ p.queue.items

/-- A step writes some lines, drops some and keeps the others. -/
structure Moved (p : Proc cap) (new : List Numbered) (p' : Proc cap) (out : List Mark) (sent gone : List Numbered) :
    Prop where
  items : (p.items ++ new).Perm (sent ++ gone ++ p'.items)
  bytes : out ++ p'.buffer = p.buffer ++ sent.flatMap Numbered.marks
  dropped : p'.dropped = p.dropped ++ gone.map Numbered.serial

variable {p p' : Proc cap} {serial : Nat} {a : ProcAct} {out : List Mark}

theorem moved_fwrite (through : Nat) (l : Numbered) :
    (p.fwrite through l.marks).2 ++ (p.fwrite through l.marks).1.buffer = p.buffer ++ [l].flatMap Numbered.marks := by
  simp [Proc.fwrite]

theorem moved_push {l : Numbered} {q : Fifo.Queue Numbered cap} (h : Fifo.step p.queue (.push l) = some q) :
    Moved p [l] { p with queue := q } [] [] [] := by
  have hq := Fifo.step_conserves h
  simp only [Fifo.pushed, Fifo.left, Fifo.Op.pushed?, Fifo.Op.left?, List.filterMap_cons, List.filterMap_nil,
    List.map_nil, List.nil_append] at hq
  refine ⟨?_, by simp, by simp⟩
  simp [Proc.items, ← hq]

theorem moved_store {l : Numbered} {alloc : Bool} (h : p.store l alloc = some p') :
    (∃ gone, Moved p [l] p' [] [] gone) ∧ p'.stage = p.stage := by
  unfold Proc.store at h
  split at h
  · obtain ⟨q, hq, rfl⟩ := Option.map_eq_some_iff.mp h
    exact ⟨⟨[], moved_push hq⟩, rfl⟩
  · cases h
    refine ⟨⟨[l], ?_, by simp, by simp⟩, rfl⟩
    exact List.perm_append_comm

theorem moved_lose {f : Fifo.Fate} (h : p.lose f = some p') :
    (∃ gone, Moved p [] p' [] [] gone) ∧ p'.stage = p.stage ∧ p.items ≠ [] := by
  unfold Proc.lose at h
  cases hitems : p.queue.items with
  | nil => simp [hitems] at h
  | cons l rest =>
    simp only [hitems] at h
    obtain ⟨q, hq, rfl⟩ := Option.map_eq_some_iff.mp h
    have hc := Fifo.step_conserves hq
    simp only [Fifo.pushed, Fifo.left, Fifo.Op.pushed?, Fifo.Op.left?, List.filterMap_cons, List.filterMap_nil,
      List.map_cons, List.map_nil, List.append_nil, hitems, List.singleton_append, List.cons.injEq, true_and] at hc
    refine ⟨⟨[l], ?_, by simp, by simp⟩, rfl, by simp [Proc.items, hitems]⟩
    simp only [Proc.items, hitems, ← hc, List.append_nil, List.nil_append, List.singleton_append]
    exact List.perm_middle

theorem Moved.trans {p'' : Proc cap} {new new' gone gone' : List Numbered} (h : Moved p new p' [] [] gone)
    (h' : Moved p' new' p'' [] [] gone') : Moved p (new ++ new') p'' [] [] (gone ++ gone') := by
  have h₁ : (p.items ++ (new ++ new')).Perm (gone ++ p'.items ++ new') := by
    rw [← List.append_assoc]
    exact h.items.append_right new'
  have h₂ : (gone ++ p'.items ++ new').Perm (gone ++ (gone' ++ p''.items)) := by
    rw [List.append_assoc]
    exact h'.items.append_left gone
  refine ⟨?_, ?_, ?_⟩
  · simpa using h₁.trans h₂
  · have hb := h.bytes
    have hb' := h'.bytes
    simp only [List.nil_append, List.flatMap_nil, List.append_nil] at hb hb' ⊢
    exact hb'.trans hb
  · rw [h'.dropped, h.dropped]
    simp

theorem moved_enqueue {l : Numbered} {alloc : Bool} (h : p.enqueue l alloc = some p') :
    (∃ gone, Moved p [l] p' [] [] gone) ∧ p'.stage = p.stage := by
  unfold Proc.enqueue at h
  split at h
  · split at h
    · cases h
    · cases h
      refine ⟨⟨[l], ?_, by simp, by simp⟩, rfl⟩
      exact List.perm_append_comm
    · obtain ⟨p₁, hp₁, hst⟩ := Option.bind_eq_some_iff.mp h
      obtain ⟨⟨gone₁, h₁⟩, hs₁, -⟩ := moved_lose hp₁
      obtain ⟨⟨gone₂, h₂⟩, hs₂⟩ := moved_store hst
      exact ⟨⟨gone₁ ++ gone₂, h₁.trans h₂⟩, hs₂.trans hs₁⟩
  · exact moved_store h

/-- Only the buffer changes. -/
theorem moved_flush (p : Proc cap) (stage : Stage) (running : Bool) :
    Moved p [] ({ p with stage, running } : Proc cap).fflush.1 p.buffer [] [] := by
  refine ⟨?_, by simp [Proc.fflush], by simp [Proc.fflush]⟩
  simp [Proc.items, Proc.fflush]

theorem moved_step (h : p.step serial a = some (p', out)) :
    ∃ sent gone, Moved p (a.logged.map (⟨serial, ·⟩)) p' out sent gone := by
  cases a with
  | log bytes alloc through =>
    simp only [Proc.step] at h
    split at h
    · cases h
    · split at h
      · obtain ⟨q, hq, heq⟩ := Option.map_eq_some_iff.mp h
        cases heq
        obtain ⟨⟨gone, hm⟩, -⟩ := moved_enqueue hq
        exact ⟨[], gone, hm⟩
      · cases h
        refine ⟨[⟨serial, bytes⟩], [], ?_, moved_fwrite through _, (List.append_nil _).symm⟩
        exact List.perm_append_comm
  | pop =>
    simp only [Proc.step] at h
    split at h
    · rename_i l rest hhand hitems
      obtain ⟨q, hq, heq⟩ := Option.map_eq_some_iff.mp h
      cases heq
      have hc := Fifo.step_conserves hq
      simp only [Fifo.pushed, Fifo.left, Fifo.Op.pushed?, Fifo.Op.left?, List.filterMap_cons, List.filterMap_nil,
        List.map_cons, List.map_nil, List.append_nil, hitems, List.singleton_append, List.cons.injEq, true_and] at hc
      refine ⟨[], [], ?_, by simp, by simp⟩
      simp [Proc.items, hhand, hitems, hc, ProcAct.logged]
    · cases h
  | skip =>
    simp only [Proc.step] at h
    split at h
    · obtain ⟨q, hq, heq⟩ := Option.map_eq_some_iff.mp h
      cases heq
      obtain ⟨⟨gone, hm⟩, -⟩ := moved_lose hq
      exact ⟨[], gone, hm⟩
    · cases h
  | emit through =>
    simp only [Proc.step] at h
    obtain ⟨l, hl, heq⟩ := Option.map_eq_some_iff.mp h
    cases heq
    refine ⟨[l], [], ?_, moved_fwrite through _, (List.append_nil _).symm⟩
    simp [Proc.items, hl, ProcAct.logged]
  | flush =>
    simp only [Proc.step] at h
    split at h
    · cases h
    · cases h
      exact ⟨[], [], moved_flush p p.stage p.running⟩
  | stop =>
    simp only [Proc.step] at h
    split at h
    · cases h
      exact ⟨[], [], by simp [Proc.items, ProcAct.logged], by simp, by simp⟩
    · cases h
  | close =>
    simp only [Proc.step] at h
    split at h
    · cases h
      exact ⟨[], [], moved_flush p .closed false⟩
    · cases h

/-- Nothing is left behind in a process that has shut down. -/
def Proc.Empty (p : Proc cap) : Prop := p.stage = .closed → p.items = [] ∧ p.buffer = []

theorem empty_step (he : p.Empty) (h : p.step serial a = some (p', out)) : p'.Empty := by
  cases a with
  | log bytes alloc through =>
    simp only [Proc.step] at h
    split at h
    · cases h
    · rename_i hclosed
      split at h
      · obtain ⟨q, hq, heq⟩ := Option.map_eq_some_iff.mp h
        cases heq
        intro hc
        rw [(moved_enqueue hq).2] at hc
        exact absurd hc hclosed
      · cases h
        exact fun hc => absurd hc hclosed
  | pop =>
    simp only [Proc.step] at h
    split at h
    · rename_i hitems
      obtain ⟨q, hq, heq⟩ := Option.map_eq_some_iff.mp h
      cases heq
      intro hc
      have := (he hc).1
      simp [Proc.items, hitems] at this
    · cases h
  | skip =>
    simp only [Proc.step] at h
    split at h
    · obtain ⟨q, hq, heq⟩ := Option.map_eq_some_iff.mp h
      cases heq
      obtain ⟨-, hstage, hitems⟩ := moved_lose hq
      intro hc
      rw [hstage] at hc
      exact absurd (he hc).1 hitems
    · cases h
  | emit through =>
    simp only [Proc.step] at h
    obtain ⟨l, hl, heq⟩ := Option.map_eq_some_iff.mp h
    cases heq
    intro hc
    have := (he hc).1
    simp [Proc.items, hl] at this
  | flush =>
    simp only [Proc.step] at h
    split at h
    · cases h
    · rename_i hclosed
      cases h
      exact fun hc => absurd hc hclosed
  | stop =>
    simp only [Proc.step] at h
    split at h
    · cases h
      intro hc
      cases hc
    · cases h
  | close =>
    simp only [Proc.step] at h
    split at h
    · rename_i hdone
      cases h
      intro _
      exact ⟨by simp [Proc.items, hdone.2.1, hdone.2.2], rfl⟩
    · cases h

/-- Without an engine no line waits. -/
def Proc.Quiet (p : Proc cap) : Prop := p.mode = .sync → p.items = []

theorem quiet_step (hq : p.Quiet) (h : p.step serial a = some (p', out)) : p'.Quiet ∧ p'.mode = p.mode := by
  have hlose : ∀ {f : Fifo.Fate} {q : Proc cap}, p.lose f = some q → q.Quiet ∧ q.mode = p.mode := by
    intro f q hl
    have hmode : q.mode = p.mode := by
      unfold Proc.lose at hl
      split at hl
      · cases hl
      · obtain ⟨r, -, rfl⟩ := Option.map_eq_some_iff.mp hl
        rfl
    exact ⟨fun hm => absurd (hq (hmode ▸ hm)) (moved_lose hl).2.2, hmode⟩
  have hstore : ∀ {l : Numbered} {alloc : Bool} {q r : Proc cap}, q.store l alloc = some r → r.mode = q.mode := by
    intro l alloc q r hst
    unfold Proc.store at hst
    split at hst
    · obtain ⟨x, -, rfl⟩ := Option.map_eq_some_iff.mp hst
      rfl
    · cases hst
      rfl
  cases a with
  | log bytes alloc through =>
    simp only [Proc.step] at h
    split at h
    · cases h
    · split at h
      · rename_i hup
        obtain ⟨q, hen, heq⟩ := Option.map_eq_some_iff.mp h
        cases heq
        have hmode : p'.mode = p.mode := by
          unfold Proc.enqueue at hen
          split at hen
          · split at hen
            · cases hen
            · cases hen
              rfl
            · obtain ⟨p₁, hp₁, hst⟩ := Option.bind_eq_some_iff.mp hen
              exact (hstore hst).trans (hlose hp₁).2
          · exact hstore hen
        refine ⟨fun hm => ?_, hmode⟩
        rw [hmode, hup.1] at hm
        cases hm
      · cases h
        exact ⟨hq, rfl⟩
  | pop =>
    simp only [Proc.step] at h
    split at h
    · rename_i hitems
      obtain ⟨q, -, heq⟩ := Option.map_eq_some_iff.mp h
      cases heq
      refine ⟨fun hm => ?_, rfl⟩
      have := hq hm
      simp [Proc.items, hitems] at this
    · cases h
  | skip =>
    simp only [Proc.step] at h
    split at h
    · obtain ⟨q, hl, heq⟩ := Option.map_eq_some_iff.mp h
      cases heq
      exact hlose hl
    · cases h
  | emit through =>
    simp only [Proc.step] at h
    obtain ⟨l, hl, heq⟩ := Option.map_eq_some_iff.mp h
    cases heq
    refine ⟨fun hm => ?_, rfl⟩
    have := hq hm
    simp [Proc.items, hl] at this
  | flush =>
    simp only [Proc.step] at h
    split at h
    · cases h
    · cases h
      exact ⟨hq, rfl⟩
  | stop =>
    simp only [Proc.step] at h
    split at h
    · cases h
      exact ⟨hq, rfl⟩
    · cases h
  | close =>
    simp only [Proc.step] at h
    split at h
    · cases h
      exact ⟨hq, rfl⟩
    · cases h

/-! ## The bytes of one line -/

def ofLine (n : Nat) (ms : List Mark) : List Mark := ms.filter (·.1 = n)

@[simp] theorem ofLine_append (n : Nat) (ms ms' : List Mark) : ofLine n (ms ++ ms') = ofLine n ms ++ ofLine n ms' :=
  List.filter_append _ _

theorem ofLine_self (l : Numbered) : ofLine l.serial l.marks = l.marks := by
  unfold ofLine Numbered.marks
  rw [List.filter_eq_self]
  intro m hm
  obtain ⟨b, -, rfl⟩ := List.mem_map.mp hm
  simp

theorem ofLine_other {n : Nat} {l : Numbered} (h : l.serial ≠ n) : ofLine n l.marks = [] := by
  unfold ofLine Numbered.marks
  rw [List.filter_eq_nil_iff]
  intro m hm
  obtain ⟨b, -, rfl⟩ := List.mem_map.mp hm
  simpa using h

theorem ofLine_none {n : Nat} : ∀ {ls : List Numbered}, n ∉ ls.map Numbered.serial →
    ofLine n (ls.flatMap Numbered.marks) = []
  | [], _ => rfl
  | l :: ls, h => by
    rw [List.map_cons, List.mem_cons, not_or] at h
    rw [List.flatMap_cons, ofLine_append, ofLine_other (Ne.symm h.1), ofLine_none h.2, List.append_nil]

/-- The bytes of a line that is written with others. -/
theorem ofLine_sent : ∀ {ls : List Numbered} {l : Numbered}, (ls.map Numbered.serial).Nodup → l ∈ ls →
    ofLine l.serial (ls.flatMap Numbered.marks) = l.marks
  | a :: ls, l, hnd, hl => by
    rw [List.map_cons, List.nodup_cons] at hnd
    rw [List.flatMap_cons, ofLine_append]
    rcases List.mem_cons.mp hl with rfl | hl
    · rw [ofLine_self, ofLine_none hnd.1, List.append_nil]
    · have hne : a.serial ≠ l.serial := by
        intro heq
        exact hnd.1 (heq ▸ List.mem_map_of_mem hl)
      rw [ofLine_other hne, ofLine_sent hnd.2 hl, List.nil_append]

/-! ## The process that owns the first lines -/

/-- Of the lines below `k` each is among `all`, which are under way, dropped, or written. -/
structure Carries (k : Nat) (file : List Mark) (lines : List Bytes) (p : Proc cap) (all : List Numbered) : Prop where
  nodup : (all.map Numbered.serial).Nodup
  kept : ∀ l ∈ all, l.serial ∉ p.dropped
  known : ∀ l ∈ all, lines[l.serial]? = some l.bytes
  old : ∀ n ∈ p.dropped, n < lines.length
  absent : ∀ n < k, n ∈ all.map Numbered.serial ∨ n ∈ p.dropped → ofLine n (file ++ p.buffer) = []
  written : ∀ n < k, n ∉ all.map Numbered.serial → n ∉ p.dropped →
    ofLine n (file ++ p.buffer) = Numbered.marks ⟨n, lines[n]?.getD []⟩

abbrev Owns (k : Nat) (file : List Mark) (lines : List Bytes) (p : Proc cap) : Prop := Carries k file lines p p.items

variable {k : Nat} {file : List Mark} {lines : List Bytes}

theorem getElem?_snoc {n : Nat} (bytes : Bytes) (h : n ≠ lines.length) : (lines ++ [bytes])[n]? = lines[n]? := by
  by_cases hlt : n < lines.length
  · exact List.getElem?_append_left hlt
  · rw [List.getElem?_eq_none (by simp; omega), List.getElem?_eq_none (by omega)]

theorem owns_log (h : Owns k file lines p) (bytes : Bytes) :
    Carries k file (lines ++ [bytes]) p (p.items ++ [⟨lines.length, bytes⟩]) := by
  have hold : ∀ l ∈ p.items, l.serial < lines.length := by
    intro l hl
    exact (List.getElem?_eq_some_iff.mp (h.known l hl)).1
  have hnew : lines.length ∉ p.items.map Numbered.serial := by
    intro hmem
    obtain ⟨l, hl, heq⟩ := List.mem_map.mp hmem
    have := hold l hl
    omega
  have hdropped : lines.length ∉ p.dropped := fun hmem => absurd (h.old _ hmem) (lt_irrefl _)
  refine ⟨?_, ?_, ?_, ?_, ?_, ?_⟩
  · rw [List.map_append, List.map_singleton, List.nodup_append]
    refine ⟨h.nodup, List.nodup_singleton _, ?_⟩
    intro a ha b hb
    rw [List.mem_singleton] at hb
    subst hb
    rintro rfl
    exact hnew ha
  · intro l hl
    rcases List.mem_append.mp hl with hl | hl
    · exact h.kept l hl
    · rw [List.mem_singleton] at hl
      subst hl
      exact hdropped
  · intro l hl
    rcases List.mem_append.mp hl with hl | hl
    · rw [getElem?_snoc bytes (hold l hl).ne]
      exact h.known l hl
    · rw [List.mem_singleton] at hl
      subst hl
      simp
  · intro n hn
    have := h.old n hn
    rw [List.length_append]
    omega
  · intro n hn hor
    by_cases heq : n = lines.length
    · subst heq
      rw [h.written _ hn hnew hdropped]
      simp [Numbered.marks]
    · refine h.absent n hn ?_
      simpa [heq] using hor
  · intro n hn hitems hd
    rw [List.map_append, List.mem_append, not_or] at hitems
    have hne : n ≠ lines.length := by
      rintro rfl
      simp at hitems
    rw [getElem?_snoc bytes hne]
    exact h.written n hn hitems.1 hd

theorem ProcAct.logged_cases (a : ProcAct) : a.logged = [] ∨ ∃ bytes, a.logged = [bytes] := by
  cases a with
  | log bytes alloc through => exact .inr ⟨bytes, rfl⟩
  | pop => exact .inl rfl
  | skip => exact .inl rfl
  | emit through => exact .inl rfl
  | flush => exact .inl rfl
  | stop => exact .inl rfl
  | close => exact .inl rfl

/-- Writing some of the lines and dropping others. -/
theorem Carries.moved {new sent gone : List Numbered} (h : Carries k file lines p (p.items ++ new))
    (hm : Moved p new p' out sent gone) : Owns k (file ++ out) lines p' := by
  have hperm := hm.items
  have hnd : ((sent ++ gone ++ p'.items).map Numbered.serial).Nodup := (hperm.map _).nodup_iff.mp h.nodup
  have hmem : ∀ l, l ∈ sent ∨ l ∈ gone ∨ l ∈ p'.items → l ∈ p.items ++ new := by
    intro l hl
    refine hperm.symm.subset ?_
    simpa [or_assoc] using hl
  have hall : ∀ n, n ∈ (p.items ++ new).map Numbered.serial ↔
      n ∈ sent.map Numbered.serial ∨ n ∈ gone.map Numbered.serial ∨ n ∈ p'.items.map Numbered.serial := by
    intro n
    rw [(hperm.map Numbered.serial).mem_iff]
    simp only [List.map_append, List.mem_append, or_assoc]
  have hdropped : ∀ n, n ∈ p'.dropped ↔ n ∈ p.dropped ∨ n ∈ gone.map Numbered.serial := by
    intro n
    rw [hm.dropped, List.mem_append]
  have hbytes : ∀ n, ofLine n (file ++ out ++ p'.buffer) =
      ofLine n (file ++ p.buffer) ++ ofLine n (sent.flatMap Numbered.marks) := by
    intro n
    rw [List.append_assoc, hm.bytes, ← List.append_assoc, ofLine_append]
  simp only [List.map_append] at hnd
  have hsent : (sent.map Numbered.serial).Nodup := (hnd.of_append_left).of_append_left
  have hgone : ∀ n ∈ gone.map Numbered.serial, n ∉ p'.items.map Numbered.serial := by
    intro n hn hn'
    exact (List.nodup_append.mp hnd).2.2 n (List.mem_append_right _ hn) n hn' rfl
  refine ⟨hnd.of_append_right, ?_, ?_, ?_, ?_, ?_⟩
  · intro l hl
    rw [hdropped, not_or]
    exact ⟨h.kept l (hmem l (.inr (.inr hl))), fun hn => hgone _ hn (List.mem_map_of_mem hl)⟩
  · exact fun l hl => h.known l (hmem l (.inr (.inr hl)))
  · intro n hn
    rcases (hdropped n).mp hn with hn | hn
    · exact h.old n hn
    · obtain ⟨l, hl, rfl⟩ := List.mem_map.mp hn
      exact (List.getElem?_eq_some_iff.mp (h.known l (hmem l (.inr (.inl hl))))).1
  · intro n hn hor
    rw [hdropped] at hor
    have hs : n ∉ sent.map Numbered.serial := by
      intro hs
      have hapart := List.nodup_append.mp hnd
      rcases hor with hi | hd | hg
      · exact hapart.2.2 n (List.mem_append_left _ hs) n hi rfl
      · obtain ⟨l, hl, rfl⟩ := List.mem_map.mp hs
        exact h.kept l (hmem l (.inl hl)) hd
      · exact (List.nodup_append.mp hapart.1).2.2 n hs n hg rfl
    rw [hbytes, ofLine_none hs, List.append_nil]
    refine h.absent n hn ?_
    rw [hall]
    tauto
  · intro n hn hi hd
    rw [hdropped, not_or] at hd
    rw [hbytes]
    by_cases hs : n ∈ sent.map Numbered.serial
    · obtain ⟨l, hl, rfl⟩ := List.mem_map.mp hs
      rw [h.absent _ hn (.inl ((hall _).mpr (.inl hs))), ofLine_sent hsent hl, h.known l (hmem l (.inl hl))]
      rfl
    · rw [ofLine_none hs, List.append_nil]
      refine h.written n hn ?_ hd.1
      rw [hall]
      tauto

theorem owns_step (h : Owns k file lines p) (hs : p.step lines.length a = some (p', out)) :
    Owns k (file ++ out) (lines ++ a.logged) p' := by
  obtain ⟨sent, gone, hm⟩ := moved_step hs
  rcases a.logged_cases with hnil | ⟨bytes, hone⟩
  · rw [hnil] at hm ⊢
    rw [List.append_nil]
    refine Carries.moved ?_ hm
    rw [List.map_nil, List.append_nil]
    exact h
  · rw [hone] at hm ⊢
    exact (owns_log h bytes).moved hm

/-- What another process appends belongs to later lines. -/
theorem owns_other (h : Owns k file lines p) (hk : k ≤ lines.length) (logged : List Bytes)
    (hout : ∀ m ∈ out, k ≤ m.1) : Owns k (file ++ out) (lines ++ logged) p := by
  have hnone : ∀ n < k, ofLine n out = [] := by
    intro n hn
    unfold ofLine
    rw [List.filter_eq_nil_iff]
    intro m hm
    have := hout m hm
    simp only [decide_eq_true_eq]
    omega
  have hbytes : ∀ n < k, ofLine n (file ++ out ++ p.buffer) = ofLine n (file ++ p.buffer) := by
    intro n hn
    simp only [ofLine_append, hnone n hn, List.append_nil]
  refine ⟨h.nodup, h.kept, ?_, ?_, ?_, ?_⟩
  · intro l hl
    have hkn := h.known l hl
    rw [List.getElem?_append_left (List.getElem?_eq_some_iff.mp hkn).1]
    exact hkn
  · intro n hn
    have := h.old n hn
    rw [List.length_append]
    omega
  · intro n hn hor
    rw [hbytes n hn]
    exact h.absent n hn hor
  · intro n hn hi hd
    rw [hbytes n hn, List.getElem?_append_left (by omega)]
    exact h.written n hn hi hd

/-! ## The child -/

/-- Everything in the process belongs to lines from `k` on. -/
structure Later (k : Nat) (p : Proc cap) : Prop where
  items : ∀ l ∈ p.items, k ≤ l.serial
  buffer : ∀ m ∈ p.buffer, k ≤ m.1

theorem later_step (h : Later k p) (hk : k ≤ serial) (hs : p.step serial a = some (p', out)) :
    Later k p' ∧ ∀ m ∈ out, k ≤ m.1 := by
  obtain ⟨sent, gone, hm⟩ := moved_step hs
  have hall : ∀ l, l ∈ sent ∨ l ∈ gone ∨ l ∈ p'.items → k ≤ l.serial := by
    intro l hl
    have hmem : l ∈ p.items ++ a.logged.map (⟨serial, ·⟩) := by
      refine hm.items.symm.subset ?_
      simpa [or_assoc] using hl
    rcases List.mem_append.mp hmem with hmem | hmem
    · exact h.items l hmem
    · obtain ⟨bytes, -, rfl⟩ := List.mem_map.mp hmem
      exact hk
  have hbytes : ∀ m ∈ out ++ p'.buffer, k ≤ m.1 := by
    intro m hm'
    rw [hm.bytes] at hm'
    rcases List.mem_append.mp hm' with hm' | hm'
    · exact h.buffer m hm'
    · obtain ⟨l, hl, hml⟩ := List.mem_flatMap.mp hm'
      obtain ⟨b, -, rfl⟩ := List.mem_map.mp hml
      exact hall l (.inl hl)
  refine ⟨⟨fun l hl => hall l (.inr (.inr hl)), fun m hm' => hbytes m ?_⟩, fun m hm' => hbytes m ?_⟩
  · exact List.mem_append_right _ hm'
  · exact List.mem_append_left _ hm'

/-! ## Before the fork -/

theorem forking_step {s s' : Forking cap} {a : ForkAct} (h : s.step a = some s') :
    (∃ b out, a = .parent b ∧ s.parent.step s.lines.length b = some (s'.parent, out) ∧ s'.child = s.child ∧
      s'.file = s.file ++ out ∧ s'.lines = s.lines ++ b.logged) ∨
    (∃ b out c c', a = .child b ∧ s.child = some c ∧ c.step s.lines.length b = some (c', out) ∧
      s'.child = some c' ∧ s'.parent = s.parent ∧ s'.file = s.file ++ out ∧ s'.lines = s.lines ++ b.logged) ∨
    (∃ created, a = .fork created ∧ s.child = none ∧
      s' = { s with child := some (s.parent.afterForkChild created) }) := by
  cases a with
  | parent b =>
    left
    obtain ⟨r, hr, rfl⟩ := Option.map_eq_some_iff.mp h
    exact ⟨b, r.2, rfl, hr, rfl, rfl, rfl⟩
  | child b =>
    right; left
    obtain ⟨c, hc, h⟩ := Option.bind_eq_some_iff.mp h
    obtain ⟨r, hr, rfl⟩ := Option.map_eq_some_iff.mp h
    exact ⟨b, r.2, c, r.1, rfl, hc, hr, rfl, rfl, rfl, rfl⟩
  | fork created =>
    right; right
    simp only [Forking.step] at h
    split at h
    · rename_i hnone
      cases h
      exact ⟨created, rfl, hnone, rfl⟩
    · cases h

theorem start_owns (k : Nat) (mode : Mode) (overflow : OverflowPolicy) :
    Owns k [] [] (Forking.start cap mode overflow).parent := by
  have hitems : (Forking.start cap mode overflow).parent.items = [] := rfl
  refine ⟨?_, ?_, ?_, ?_, ?_, ?_⟩
  · rw [hitems]
    exact List.nodup_nil
  · intro l hl
    rw [hitems] at hl
    cases hl
  · intro l hl
    rw [hitems] at hl
    cases hl
  · intro n hn
    cases hn
  · intro n _ _
    rfl
  · intro n _ _ _
    rfl

/-- Without a child every line is under way in the parent, dropped, or written. -/
theorem owns_before (k : Nat) {mode : Mode} {overflow : OverflowPolicy} {before : List ForkAct} {s : Forking cap}
    (hr : Transition.run Forking.step (Forking.start cap mode overflow) before = some s) (hc : s.child = none) :
    Owns k s.file s.lines s.parent ∧ s.parent.Empty ∧ s.parent.Quiet := by
  refine Transition.run_invariant
    (I := fun s : Forking cap => s.child = none → Owns k s.file s.lines s.parent ∧ s.parent.Empty ∧ s.parent.Quiet)
    ?_ before _ s ?_ hr hc
  · intro s a s' hs hst hc
    rcases forking_step hst with ⟨b, out, -, hp, hchild, hfile, hlines⟩ | ⟨b, out, c, c', -, -, -, hchild, -⟩ |
      ⟨created, -, -, rfl⟩
    · obtain ⟨ho, he, hq⟩ := hs (hchild ▸ hc)
      rw [hfile, hlines]
      exact ⟨owns_step ho hp, empty_step he hp, (quiet_step hq hp).1⟩
    · rw [hchild] at hc
      cases hc
    · cases hc
  · intro _
    refine ⟨start_owns k mode overflow, ?_, fun _ => rfl⟩
    intro hclosed
    cases hclosed

/-! ## Behind the fork -/

/-- The parent goes on with the first `k` lines, the child knows nothing of them. -/
def Parted (k : Nat) (s : Forking cap) : Prop :=
  k ≤ s.lines.length ∧ Owns k s.file s.lines s.parent ∧ s.parent.Empty ∧ ∃ c, s.child = some c ∧ Later k c ∧ c.Empty

theorem child_items (created : Bool) (hq : p.Quiet) : (p.afterForkChild created).items = [] := by
  unfold Proc.afterForkChild
  split
  · rename_i hm
    have hnil := hq hm
    unfold Proc.items at hnil
    exact (List.append_eq_nil_iff.mp hnil).2
  · rfl

theorem child_buffer (p : Proc cap) (created : Bool) : (p.afterForkChild created).buffer = p.buffer := by
  unfold Proc.afterForkChild
  split <;> rfl

theorem child_stage (p : Proc cap) (created : Bool) : (p.afterForkChild created).stage = p.stage := by
  unfold Proc.afterForkChild
  split <;> rfl

theorem parted_step {s s' : Forking cap} {a : ForkAct} (h : Parted k s) (hs : s.step a = some s') : Parted k s' := by
  obtain ⟨hk, ho, he, c, hc, hl, hce⟩ := h
  rcases forking_step hs with ⟨b, out, -, hp, hchild, hfile, hlines⟩ | ⟨b, out, c₁, c', -, hc₁, hp, hchild, hparent,
    hfile, hlines⟩ | ⟨created, -, hnone, -⟩
  · unfold Parted
    rw [hfile, hlines, hchild]
    refine ⟨?_, owns_step ho hp, empty_step he hp, c, hc, hl, hce⟩
    rw [List.length_append]
    omega
  · rw [hc] at hc₁
    cases hc₁
    obtain ⟨hl', hout⟩ := later_step hl hk hp
    unfold Parted
    rw [hfile, hlines, hchild, hparent]
    refine ⟨?_, owns_other ho hk b.logged hout, he, c', rfl, hl', empty_step hce hp⟩
    rw [List.length_append]
    omega
  · rw [hc] at hnone
    cases hnone

theorem parted_once {s : Forking cap} (h : Parted k s) (hd : s.Down) {n : Nat} (hn : n < k) : s.Once n := by
  obtain ⟨-, ho, he, -⟩ := h
  obtain ⟨hi, hb⟩ := he hd.1
  unfold Forking.Once
  have hfile : s.file.filter (·.1 = n) = ofLine n (s.file ++ s.parent.buffer) := by
    rw [hb, List.append_nil]
    rfl
  rw [hfile]
  split
  · rename_i hdrop
    exact ho.absent n hn (.inr hdrop)
  · rename_i hdrop
    exact ho.written n hn (by simp [hi]) hdrop

/-! ## A buffer that both processes write -/

theorem away_step {n : Nat} (hi : n ∉ p.items.map Numbered.serial) (hd : n ∉ p.dropped) (hn : n < serial)
    (hs : p.step serial a = some (p', out)) :
    n ∉ p'.items.map Numbered.serial ∧ n ∉ p'.dropped ∧ ofLine n (out ++ p'.buffer) = ofLine n p.buffer := by
  obtain ⟨sent, gone, hm⟩ := moved_step hs
  have hall : n ∉ (p.items ++ (a.logged.map (⟨serial, ·⟩) : List Numbered)).map Numbered.serial := by
    rw [List.map_append, List.mem_append, not_or]
    refine ⟨hi, ?_⟩
    simp only [List.map_map, List.mem_map, Function.comp_apply, not_exists, not_and]
    intro _ _
    omega
  rw [(hm.items.map Numbered.serial).mem_iff] at hall
  simp only [List.map_append, List.mem_append, not_or] at hall
  refine ⟨hall.2, ?_, ?_⟩
  · rw [hm.dropped, List.mem_append, not_or]
    exact ⟨hd, hall.1.2⟩
  · rw [hm.bytes, ofLine_append, ofLine_none hall.1.1, List.append_nil]

/-- Line `n` is in no queue, and this many of its bytes are in the buffers and the file. -/
def Counted (n total : Nat) (line : Bytes) (s : Forking cap) : Prop :=
  s.lines[n]? = some line ∧ n ∉ s.parent.items.map Numbered.serial ∧ n ∉ s.parent.dropped ∧ s.parent.Empty ∧
    ∃ c, s.child = some c ∧ n ∉ c.items.map Numbered.serial ∧ n ∉ c.dropped ∧ c.Empty ∧
      (ofLine n s.file).length + (ofLine n s.parent.buffer).length + (ofLine n c.buffer).length = total

theorem counted_step {s s' : Forking cap} {a : ForkAct} {n total : Nat} {line : Bytes} (h : Counted n total line s)
    (hs : s.step a = some s') : Counted n total line s' := by
  obtain ⟨hline, hi, hd, he, c, hc, hci, hcd, hce, hsum⟩ := h
  have hn := (List.getElem?_eq_some_iff.mp hline).1
  have hkept : ∀ logged : List Bytes, (s.lines ++ logged)[n]? = some line := by
    intro logged
    rw [List.getElem?_append_left hn]
    exact hline
  rcases forking_step hs with ⟨b, out, -, hp, hchild, hfile, hlines⟩ | ⟨b, out, c₁, c', -, hc₁, hp, hchild, hparent,
    hfile, hlines⟩ | ⟨created, -, hnone, -⟩
  · obtain ⟨hi', hd', hbytes⟩ := away_step hi hd hn hp
    have hlen := congrArg List.length hbytes
    rw [ofLine_append, List.length_append] at hlen
    unfold Counted
    rw [hfile, hlines, hchild, ofLine_append, List.length_append]
    exact ⟨hkept _, hi', hd', empty_step he hp, c, hc, hci, hcd, hce, by omega⟩
  · rw [hc] at hc₁
    cases hc₁
    obtain ⟨hi', hd', hbytes⟩ := away_step hci hcd hn hp
    have hlen := congrArg List.length hbytes
    rw [ofLine_append, List.length_append] at hlen
    unfold Counted
    rw [hfile, hlines, hchild, hparent, ofLine_append, List.length_append]
    exact ⟨hkept _, hi, hd, he, c', rfl, hi', hd', empty_step hce hp, by omega⟩
  · rw [hc] at hnone
    cases hnone

/-- A line with bytes in the buffer is known, and neither under way nor dropped. -/
theorem buffered_line {n : Nat} (h : ∀ k, Owns k file lines p) (hb : ofLine n p.buffer ≠ []) :
    n < lines.length ∧ n ∉ p.items.map Numbered.serial ∧ n ∉ p.dropped := by
  have hsome : ofLine n (file ++ p.buffer) ≠ [] := by
    rw [ofLine_append]
    exact List.append_ne_nil_of_right_ne_nil _ hb
  have hthere : ¬(n ∈ p.items.map Numbered.serial ∨ n ∈ p.dropped) :=
    fun hor => hsome ((h (n + 1)).absent n (Nat.lt_succ_self n) hor)
  rw [not_or] at hthere
  refine ⟨?_, hthere⟩
  by_contra hge
  refine hsome ?_
  rw [(h (n + 1)).written n (Nat.lt_succ_self n) hthere.1 hthere.2, List.getElem?_eq_none (by omega)]
  rfl

/-! ## The fork -/

variable {mode : Mode} {overflow : OverflowPolicy} {before after : List ForkAct} {s₁ s₂ s₃ : Forking cap} {created : Bool}

/-- Every line that was logged before the fork is in the file once when both processes have
shut down if and only if the buffer of the C library was empty at the fork. -/
theorem fork_once_iff (hbefore : Transition.run Forking.step (Forking.start cap mode overflow) before = some s₁)
    (hfork : s₁.step (.fork created) = some s₂) (hafter : Transition.run Forking.step s₂ after = some s₃)
    (hdown : s₃.Down) : (∀ n < s₁.lines.length, s₃.Once n) ↔ s₁.parent.buffer = [] := by
  obtain ⟨hnone, rfl⟩ : s₁.child = none ∧ s₂ = { s₁ with child := some (s₁.parent.afterForkChild created) } := by
    rcases forking_step hfork with ⟨b, out, h, -⟩ | ⟨b, out, c, c', h, -⟩ | ⟨created', h, hnone, hs⟩
    · cases h
    · cases h
    · cases h
      exact ⟨hnone, hs⟩
  obtain ⟨ho, he, hq⟩ := owns_before s₁.lines.length hbefore hnone
  have hitems := child_items created hq
  have hce : (s₁.parent.afterForkChild created).Empty := by
    intro hclosed
    rw [child_stage] at hclosed
    rw [child_buffer]
    exact ⟨hitems, (he hclosed).2⟩
  constructor
  · intro honce
    by_contra hne
    obtain ⟨m, hm⟩ := List.exists_mem_of_ne_nil _ hne
    -- the line of a byte that both processes hold
    have hpos : 0 < (ofLine m.1 s₁.parent.buffer).length :=
      List.length_pos_of_mem (List.mem_filter.mpr ⟨hm, by simp⟩)
    obtain ⟨hlt, hthere⟩ := buffered_line (fun k => (owns_before k hbefore hnone).1) (List.ne_nil_of_length_pos hpos)
    have hwritten := ho.written _ hlt hthere.1 hthere.2
    have hline : s₁.lines[m.1]? = some s₁.lines[m.1] := List.getElem?_eq_getElem hlt
    rw [hline] at hwritten
    have hlen := congrArg List.length hwritten
    rw [ofLine_append, List.length_append] at hlen
    have hcounted : Counted m.1 ((Numbered.marks ⟨m.1, s₁.lines[m.1]⟩).length + (ofLine m.1 s₁.parent.buffer).length)
        s₁.lines[m.1] { s₁ with child := some (s₁.parent.afterForkChild created) } := by
      refine ⟨hline, hthere.1, hthere.2, he, _, rfl, ?_, ?_, hce, ?_⟩
      · rw [hitems]
        exact List.not_mem_nil
      · unfold Proc.afterForkChild
        split <;> exact List.not_mem_nil
      · rw [child_buffer]
        exact congrArg (· + (ofLine m.1 s₁.parent.buffer).length) hlen
    obtain ⟨hline₃, -, hd₃, he₃, c, hc, -, -, hce₃, hsum⟩ :=
      Transition.run_invariant (I := Counted m.1 _ _) (fun s a s' hs hst => counted_step hs hst) after _ s₃ hcounted hafter
    obtain ⟨hpc, c', hc', hcc⟩ := hdown
    rw [hc] at hc'
    cases hc'
    have h₃ := honce m.1 hlt
    unfold Forking.Once at h₃
    rw [if_neg hd₃, hline₃] at h₃
    have hfinal : (ofLine m.1 s₃.file).length = (Numbered.marks ⟨m.1, s₁.lines[m.1]⟩).length :=
      congrArg List.length h₃
    rw [(he₃ hpc).2, (hce₃ hcc).2] at hsum
    have hzero : (ofLine m.1 ([] : List Mark)).length = 0 := rfl
    omega
  · intro hempty n hn
    refine parted_once (k := s₁.lines.length) ?_ hdown hn
    refine Transition.run_invariant (I := Parted s₁.lines.length) (fun s a s' hs hst => parted_step hs hst) after _ s₃ ?_
      hafter
    refine ⟨le_refl _, ho, he, _, rfl, ⟨?_, ?_⟩, hce⟩
    · rw [hitems]
      intro l hl
      cases hl
    · rw [child_buffer, hempty]
      intro m hm
      cases hm

end

/-- One line in synchronous mode, kept in the buffer or flushed. -/
def oneLine (flushed : Bool) : List ForkAct :=
  .parent (.log [97] true 0) :: if flushed then [.parent .flush] else []

def bothShutDown : List ForkAct := [.child .stop, .child .close, .parent .stop, .parent .close]

theorem flushed_line_once : ∃ s₁ s₂ s₃ : Forking 1,
    Transition.run Forking.step (Forking.start 1 .sync .block) (oneLine true) = some s₁ ∧
    s₁.step (.fork true) = some s₂ ∧ Transition.run Forking.step s₂ bothShutDown = some s₃ ∧
    ((∀ n < s₁.lines.length, s₃.Once n) ↔ s₁.parent.buffer = []) :=
  ⟨_, _, _, rfl, rfl, rfl,
    @fork_once_iff 1 .sync .block (oneLine true) bothShutDown _ _ _ true rfl rfl rfl ⟨rfl, _, rfl, rfl⟩⟩

/-- A line that was in the buffer at the fork is in the file twice. -/
theorem buffered_line_twice : ∃ s₁ s₂ s₃ : Forking 1,
    Transition.run Forking.step (Forking.start 1 .sync .block) (oneLine false) = some s₁ ∧
    s₁.step (.fork true) = some s₂ ∧ Transition.run Forking.step s₂ bothShutDown = some s₃ ∧ s₃.Down ∧
    0 < s₁.lines.length ∧ s₃.file = [(0, 97), (0, 97)] ∧ ¬s₃.Once 0 :=
  ⟨_, _, _, rfl, rfl, rfl, ⟨rfl, _, rfl, rfl⟩, by decide, rfl, by decide⟩

end HxClog
