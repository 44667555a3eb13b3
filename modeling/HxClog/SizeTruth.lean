import HxClog.FileCalls

/-!
# Whether `current_size` tells the truth

Opening a file reads its size, but both kinds of rotation set it to 0 afterwards. So
the size is that of the file as long as a rotation opens a file that is new or empty.
-/

namespace HxClog

open C Posix

variable {localtime : Int → Tm}

/-- `current_size` is the length of the file behind the stream. -/
def SizeTrue (s : FileSink × World) : Prop := ∃ f, fileBehind s = some f ∧ s.1.currentSize.toNat = f.content.length

/-! ## One call -/

section
variable {s : FileSink × World} {fs fs' : FileSink} {w w' : World}

theorem open_sizeTrue {o : Opening} (h : hxFileOpenActive localtime o fs w = (.ok, fs', w')) (hsize : o.sizeOk = true)
    (hbound : ∀ f ∈ fileBehind (fs', w'), f.content.length < 2 ^ 63) : SizeTrue (fs', w') := by
  obtain ⟨p, f, -, -, hf, -, hfs⟩ := open_spec h hsize
  have hbehind : fileBehind (fs', w') = some f := by
    unfold fileBehind
    rw [hfs]
    exact hf
  refine ⟨f, hbehind, ?_⟩
  rw [hfs]
  exact fileSize_toNat (hbound f hbehind)

theorem fwrite_sizeTrue {wr : Writing} {data : Bytes} (h : SizeTrue (fs, w)) (hok : (fwriteActive wr data fs w).1 = .ok)
    (hbound : ∀ f ∈ fileBehind (fwriteActive wr data fs w).2, f.content.length < 2 ^ 63) :
    SizeTrue (fwriteActive wr data fs w).2 := by
  obtain ⟨f, hf, hlen⟩ := h
  obtain ⟨f', hf', hcontent⟩ := fwrite_behind hok hf
  obtain ⟨p, -, heq⟩ := fwrite_ok hok
  have hlt := hbound f' hf'
  rw [hcontent, List.length_append] at hlt
  refine ⟨f', hf', ?_⟩
  rw [heq, hcontent, List.length_append]
  show (fs.currentSize + data.length.toUInt64).toNat = _
  have hdata : data.length.toUInt64.toNat = data.length := UInt64.toNat_ofNat_of_lt' (by
    have hcap : (2 : Nat) ^ 63 < UInt64.size := by decide
    omega)
  rw [UInt64.toNat_add, hdata, hlen]
  exact Nat.mod_eq_of_lt (by omega)

/-- A rotation that is clear leaves an empty file of size 0. -/
theorem archive_sizeTrue {env : Rotating} {cur : Tm} {failSec : Int}
    (h : archiveActive localtime env cur failSec fs w = (.ok, fs', w')) (hsize : env.opening.sizeOk = true)
    (hc : ArchivesClear localtime env cur fs w) : SizeTrue (fs', w') := by
  obtain ⟨f, hf, hnil⟩ := archive_empty h hsize hc
  obtain ⟨-, p, w₁, -, -, hfs, -⟩ := archive_disk h hsize
  refine ⟨f, hf, ?_⟩
  rw [hfs, hnil]
  rfl

theorem rotate_sizeTrue {env : Rotating} {incoming : UInt32} (h : SizeTrue (fs, w))
    (hr : hxRotateMaybe localtime env incoming fs w = (.ok, fs', w')) (hsize : env.opening.sizeOk = true)
    (hc : fs.due localtime env.now incoming = true →
      if fs.dateSubdir && fs.needDaily (localtime env.now) then contentAt w.disk (fs.pathAt localtime env.opening.now).bytes = []
      else ArchivesClear localtime env (fs.archiveDate localtime env.now) fs w) : SizeTrue (fs', w') := by
  by_cases hd : fs.due localtime env.now incoming = true
  · have hclear := hc hd
    unfold hxRotateMaybe at hr
    rw [if_neg (not_not_intro hd)] at hr
    split at hr
    · -- a new day in its own folder
      rename_i hroll
      rw [if_pos hroll] at hclear
      cases ho : hxFileOpenActive localtime env.opening { fs with fp := none } w with
      | mk st r =>
        simp only [ho] at hr
        cases st with
        | ok =>
          obtain ⟨p, f, -, -, hf, hcontent, hfs⟩ := open_spec ho hsize
          simp only [Prod.mk.injEq, true_and] at hr
          obtain ⟨rfl, rfl⟩ := hr
          refine ⟨f, ?_, ?_⟩
          · unfold fileBehind
            rw [hfs]
            exact hf
          · rw [hcontent]
            exact (congrArg List.length hclear).symm
        | outOfMemory => cases hr
        | openFileFailed => cases hr
        | platform => cases hr
    · rename_i hroll
      rw [if_neg hroll] at hclear
      exact archive_sizeTrue hr hsize hclear
  · rw [rotate_not_due (Bool.eq_false_of_not_eq_true hd)] at hr
    cases hr
    exact h

theorem call_sizeTrue {c : FileCall} (h : SizeTrue s) (hs : c.Succeeds localtime s) (hc : c.Clear localtime s) :
    SizeTrue (c.run localtime s).2 := by
  cases c with
  | reopen o =>
    obtain ⟨hok, hbound, hio⟩ := hs
    cases ho : hxSinkFileReopen localtime o s.1 s.2 with
    | mk st r =>
      simp only [FileCall.run, ho] at hok hbound ⊢
      subst hok
      exact open_sizeTrue ho hio hbound
  | force env time =>
    obtain ⟨hok, hbound, hio⟩ := hs
    simp only [FileCall.run] at hok hbound ⊢
    unfold hxRotateForce at hok hbound ⊢
    by_cases hnone : s.1.fp.isNone = true ∨ s.1.currentSize = 0
    · rw [if_pos hnone]
      exact h
    · rw [if_neg hnone] at hok hbound ⊢
      rw [not_or] at hnone
      have hclear := hc (by simpa [Option.isSome_iff_ne_none] using hnone.1) hnone.2
      cases ha : archiveActive localtime env (localtime (if 0 < s.1.openedSec then s.1.openedSec else time)) time s.1 s.2 with
      | mk st r =>
        rw [ha] at hok
        obtain rfl : st = .ok := hok
        exact archive_sizeTrue ha hio hclear
  | write env data =>
    obtain ⟨hok, hbound, hrotate, hreads, -⟩ := hs
    simp only [FileCall.run] at hok hbound ⊢
    cases hr : hxRotateMaybe localtime env.rotating data.length.toUInt32 s.1 s.2 with
    | mk st r =>
      rw [hr] at hrotate
      obtain rfl : st = .ok := hrotate
      have hrot := rotate_sizeTrue h hr hreads hc
      by_cases hd : s.1.due localtime env.rotating.now data.length.toUInt32 = true
      · rw [write_due hd] at hok hbound ⊢
        simp only [hr] at hok hbound ⊢
        exact fwrite_sizeTrue hrot hok hbound
      · rw [write_not_due (Bool.eq_false_of_not_eq_true hd)] at hok hbound ⊢
        exact fwrite_sizeTrue h hok hbound

end

/-! ## Every run -/

theorem fileStep_some {s t : FileSink × World} {c : FileCall} (h : fileStep localtime s c = some t) :
    c.Succeeds localtime s ∧ t = (c.run localtime s).2 := by
  unfold fileStep at h
  split at h
  · rename_i hs
    cases h
    exact ⟨hs, rfl⟩
  · cases h

/-- A sink is a file that was opened, and rotated at once when that is asked for. -/
theorem create_opened {create : Creating} {dir fileName : Option Bytes} {cfg : Option FileConfig} {w : World}
    {s : FileSink × World} (h : hxSinkFileCreate localtime create dir fileName cfg w = some s) :
    ∃ s₀, hxFileOpenActive localtime create.opening (newFileSink dir fileName cfg) w = (.ok, s₀) ∧
      s = if s₀.1.rotateOnStartup ∧ 0 < s₀.1.currentSize then
        ((FileCall.force create.rotating create.time).run localtime s₀).2 else s₀ := by
  unfold hxSinkFileCreate at h
  split at h
  · cases h
  · split at h
    · rename_i fs w' ho
      refine ⟨(fs, w'), ho, ?_⟩
      split at h
      · rename_i hstart
        cases h
        exact (if_pos hstart).symm
      · rename_i hstart
        cases h
        exact (if_neg hstart).symm
    · cases h

/-- In every run of calls that open only new or empty files when they rotate, `current_size` is
the length of the file behind the stream. A rotation on startup is the first call. -/
theorem size_true {o : Opening} {dir fileName : Option Bytes} {cfg : Option FileConfig} {w : World}
    {s₀ s : FileSink × World} {calls : List FileCall}
    (ho : hxFileOpenActive localtime o (newFileSink dir fileName cfg) w = (.ok, s₀)) (hsize : o.sizeOk = true)
    (hbound : ∀ f ∈ fileBehind s₀, f.content.length < 2 ^ 63)
    (hr : Transition.run (fileStep localtime) s₀ calls = some s) (hc : Transition.Along (fileStep localtime) (fun s c => c.Clear localtime s) s₀ calls) : SizeTrue s := by
  refine Transition.run_along (fun s c t hs hc ht => ?_) calls s₀ s hc (open_sizeTrue ho hsize hbound) hr
  obtain ⟨hok, rfl⟩ := fileStep_some ht
  exact call_sizeTrue hs hok hc

/-! ## A folder that is opened again -/

def dailyFolders : FileConfig := { FileConfig.absent with rotatePolicy := .byTime, dateSubdir := true }

def folderSink : FileSink := newFileSink (some (lit "l")) (some (lit "a")) (some dailyFolders)

/-- Ten seconds before midnight. -/
def folderOpened : FileSink × World := (hxFileOpenActive january1970 (succeedsAt 86390) folderSink emptyWorld).2

theorem folder_opened :
    hxFileOpenActive january1970 (succeedsAt 86390) folderSink emptyWorld = (.ok, folderOpened) := by
  refine Prod.ext ?_ rfl
  decide +kernel

theorem size_true_next_day : ∃ s, Transition.run (fileStep january1970) folderOpened
    [.write (writesAt 86400 true) [97]] = some s ∧ SizeTrue s := by
  obtain ⟨s, hs⟩ : ∃ s, Transition.run (fileStep january1970) folderOpened [.write (writesAt 86400 true) [97]] = some s :=
    Option.isSome_iff_exists.mp (by decide +kernel)
  refine ⟨s, hs, size_true folder_opened rfl (by decide +kernel) hs ⟨fun _ => ?_, fun _ _ => trivial⟩⟩
  have hempty : contentAt folderOpened.2.disk (folderOpened.1.pathAt january1970 86400).bytes = [] := by decide +kernel
  exact hempty

/-- The clock goes back behind midnight, and the file of that day, which has a line already, is
taken for an empty one. -/
theorem day_before_undercounted : ¬∀ s, Transition.run (fileStep january1970) folderOpened
    [.write (writesAt 86390 true) [97], .write (writesAt 86400 true) [98], .write (writesAt 86395 true) [99]] = some s →
      SizeTrue s := by
  intro h
  have hrun : (Transition.run (fileStep january1970) folderOpened
      [.write (writesAt 86390 true) [97], .write (writesAt 86400 true) [98], .write (writesAt 86395 true) [99]]).map
        (fun s => (s.1.currentSize, fileBehind s)) = some (1, some ⟨[97, 99], 86395⟩) := by decide +kernel
  obtain ⟨s, hs, heq⟩ := Option.map_eq_some_iff.mp hrun
  obtain ⟨f, hf, hlen⟩ := h s hs
  obtain ⟨hsize, hbehind⟩ := Prod.mk.inj heq
  rw [hbehind] at hf
  cases hf
  rw [hsize] at hlen
  revert hlen
  decide

end HxClog
