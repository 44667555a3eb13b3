import HxClog.Buckets

/-!
# The size limit

A sink that rotates by size never lets a file grow beyond the limit, except by one line
that is longer than that. It counts from what it finds, and again from each reopening.
-/

namespace HxClog

open C Posix

variable {localtime : Int → Tm}

/-- At most `limit` bytes, or one line that is not empty. -/
def WithinLimit (limit : Nat) (content : Bytes) (lines : List Entry) : Prop :=
  content.length ≤ limit ∨ ∃ e ∈ lines, e.line ≠ [] ∧ content = e.line

/-! ## One write -/

/-- A line alone in its file. -/
theorem within_single (limit : Nat) {lines : List Entry} {e : Entry} (h : e ∈ lines) : WithinLimit limit e.line lines := by
  by_cases hnil : e.line = []
  · left
    rw [hnil]
    exact Nat.zero_le _
  · exact .inr ⟨e, h, hnil, rfl⟩

section
variable {fs : FileSink} {now : Int} {data : Bytes}

/-- What is not due fits, or comes to an empty file. -/
theorem fits_of_not_due (hh : Home localtime fs) (hsize : fs.bySize = true) (hlimit : 0 < fs.maxFileSize)
    (hlen : data.length < 2 ^ 32) (hbound : fs.currentSize.toNat + data.length < 2 ^ 63)
    (hd : fs.due localtime now data.length.toUInt32 = false) :
    fs.currentSize.toNat = 0 ∨ fs.currentSize.toNat + data.length ≤ fs.maxFileSize.toNat := by
  rw [← Bool.not_eq_true, hh.due_iff] at hd
  have hno := not_or.mp hd |>.1
  by_contra hover
  rw [not_or, not_le] at hover
  refine hno ⟨hsize, hlimit, ?_, ?_⟩
  · rw [UInt64.lt_iff_toNat_lt]
    exact Nat.pos_of_ne_zero hover.1
  · have hdata : data.length.toUInt32.toUInt64.toNat = data.length := by
      rw [UInt32.toNat_toUInt64]
      exact UInt32.toNat_ofNat_of_lt' hlen
    rw [UInt64.lt_iff_toNat_lt, UInt64.toNat_add, hdata, Nat.mod_eq_of_lt (by omega)]
    exact hover.2

end

/-! ## Every run -/

/-- The active file and every archive are within the limit. -/
structure Limited (localtime : Int → Tm) (limit : UInt64) (b : Logbook) : Prop where
  kept : b.Kept localtime
  bySize : b.sink.1.bySize = true
  max : b.sink.1.maxFileSize = limit
  active : WithinLimit limit.toNat (b.found ++ textOf b.lines) b.lines
  archives : ∀ a ∈ b.archives, WithinLimit limit.toNat a.content a.lines

section
variable {b b' : Logbook} {limit : UInt64}

theorem Limited.archivedAs (h : Limited localtime limit b) (target : Bytes) :
    ∀ a ∈ b.archives ++ [b.archivedAs target], WithinLimit limit.toNat a.content a.lines := by
  intro a ha
  rcases List.mem_append.mp ha with ha | ha
  · exact h.archives a ha
  · rw [List.mem_singleton] at ha
    subst ha
    rw [h.kept.archivedAs]
    exact h.active

/-- A line that a sink takes without a rotation. -/
theorem Limited.stays {env : Writing} {data : Bytes} (hlimit : 0 < limit) (h : Limited localtime limit b)
    (hs : (FileCall.write env data).Succeeds localtime b.sink)
    (hsink : b'.sink = ((FileCall.write env data).run localtime b.sink).2) (hk : b'.Kept localtime)
    (hstays : Logbook.Stays localtime b b' env data) :
    WithinLimit limit.toNat (b'.found ++ textOf b'.lines) b'.lines := by
  obtain ⟨f, hf, hlen⟩ := h.kept.size
  obtain ⟨f', hf', -⟩ := hk.size
  have hbefore := h.kept.text f hf
  have hafter := hk.text f' hf'
  have hbound := hs.2.1 f' (hsink ▸ hf')
  have hgrow : b'.found ++ textOf b'.lines = f.content ++ data := by
    rw [hstays.found, hstays.lines, textOf_append, textOf_singleton, hbefore, List.append_assoc]
  rw [hafter, hgrow, List.length_append] at hbound
  rw [hgrow]
  rcases fits_of_not_due h.kept.home h.bySize (h.max ▸ hlimit) hs.2.2.2.2 (by omega) hstays.due with hempty | hfits
  · have hnil : f.content = [] := List.length_eq_zero_iff.mp (hlen ▸ hempty)
    rw [hnil, List.nil_append, hstays.lines]
    exact within_single _ (List.mem_append_right _ (List.mem_singleton_self (⟨data, env.rotating.now⟩ : Entry)))
  · left
    rw [h.max] at hfits
    rw [List.length_append]
    omega

end

end HxClog
