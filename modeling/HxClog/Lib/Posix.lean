import HxClog.Lib.C

/-!
# Files under their paths

A disk maps paths to regular files. A path string is resolved textually: the
component behind the last slash is the name, what is in front of it the directory,
whose trailing slashes do not matter. A string that ends in no proper file name
names no regular file. Each call takes the outcome the system has for it.
-/

namespace Posix

open C

def slash : UInt8 := chr '/'

/-- A name that a directory entry can have, other than `.` and `..`. -/
def ValidName (b : Bytes) : Prop := b ≠ [] ∧ b ≠ lit "." ∧ b ≠ lit ".." ∧ slash ∉ b ∧ b.length ≤ 255

instance (b : Bytes) : Decidable (ValidName b) := inferInstanceAs (Decidable (_ ∧ _))

structure FileName where
  bytes : Bytes
  valid : ValidName bytes
  deriving DecidableEq

structure Path where
  dir : Bytes
  name : FileName
  deriving DecidableEq

/-- The directory a string names, without the slashes behind it. -/
def dirKey (dir : Bytes) : Bytes :=
  if dir ≠ [] ∧ dir.rdropWhile (· = slash) = [] then [slash] else dir.rdropWhile (· = slash)

def resolve (path : Bytes) : Option Path :=
  let name := path.rtakeWhile (· ≠ slash)
  if h : ValidName name then
    some ⟨if slash ∈ path then dirKey (path.take (path.length - name.length)) else lit ".", ⟨name, h⟩⟩
  else none

theorem rtakeWhile_append_stop {α : Type*} {p : α → Bool} {l t : List α} {a : α} (ha : p a = false)
    (ht : ∀ c ∈ t, p c) : (l ++ a :: t).rtakeWhile p = t := by
  induction t using List.reverseRecOn with
  | nil => rw [List.rtakeWhile_concat_neg _ _ _ (by simp [ha])]
  | append_singleton t c ih =>
    rw [← List.cons_append, ← List.append_assoc, List.rtakeWhile_concat_pos _ _ _ (ht c (by simp)),
      ih fun d hd => ht d (List.mem_append_left _ hd)]

theorem dirKey_slash {dir : Bytes} (h : dir ≠ []) : dirKey (dir ++ [slash]) = dirKey dir := by
  unfold dirKey
  rw [List.rdropWhile_concat_pos _ _ _ (by simp)]
  simp [h]

/-- `<dir>/<name>` names the entry `name` of `dir`. -/
theorem resolve_join {dir : Bytes} (h : dir ≠ []) (n : FileName) :
    resolve (dir ++ slash :: n.bytes) = some ⟨dirKey dir, n⟩ := by
  have hname : (dir ++ slash :: n.bytes).rtakeWhile (· ≠ slash) = n.bytes := by
    refine rtakeWhile_append_stop (by simp) fun c hc => ?_
    simp only [ne_eq, decide_not, Bool.not_eq_true', decide_eq_false_iff_not]
    rintro rfl
    exact n.valid.2.2.2.1 hc
  have hdir : (dir ++ slash :: n.bytes).take ((dir ++ slash :: n.bytes).length - n.bytes.length) = dir ++ [slash] := by
    rw [List.append_cons, List.length_append, Nat.add_sub_cancel, List.take_left]
  unfold resolve
  simp only [hname, hdir]
  rw [dif_pos n.valid, if_pos (by simp), dirKey_slash h]

/-- A string whose last component is no file name names no file. -/
theorem resolve_join_none {dir name : Bytes} (hs : slash ∉ name) (h : ¬ValidName name) :
    resolve (dir ++ slash :: name) = none := by
  have hname : (dir ++ slash :: name).rtakeWhile (· ≠ slash) = name := by
    refine rtakeWhile_append_stop (by simp) fun c hc => ?_
    simp only [ne_eq, decide_not, Bool.not_eq_true', decide_eq_false_iff_not]
    rintro rfl
    exact hs hc
  unfold resolve
  simp only [hname]
  rw [dif_neg h]

/-! ## What resolving keeps -/

theorem dirKey_count {c : UInt8} (hc : c ≠ slash) (dir : Bytes) : (dirKey dir).count c = dir.count c := by
  have hstripped : (dir.rdropWhile (· = slash)).count c = dir.count c := by
    conv_rhs => rw [← List.rdropWhile_append_rtakeWhile (p := (· = slash)) (l := dir), List.count_append]
    have hnone : (dir.rtakeWhile (· = slash)).count c = 0 := by
      refine List.count_eq_zero.mpr fun hmem => hc ?_
      simpa using List.mem_rtakeWhile_imp hmem
    rw [hnone, Nat.add_zero]
  unfold dirKey
  split
  · rename_i hall
    rw [← hstripped, hall.2, List.count_singleton, if_neg (by simpa using hc.symm)]
    rfl
  · exact hstripped

theorem mem_dirKey {c : UInt8} {dir : Bytes} (hc : c ≠ slash) (h : c ∈ dir) : c ∈ dirKey dir := by
  rw [← List.count_pos_iff, dirKey_count hc]
  exact List.count_pos_iff.mpr h

theorem take_append_name (path : Bytes) : path.take (path.length - (path.rtakeWhile (· ≠ slash)).length) ++
    path.rtakeWhile (· ≠ slash) = path := by
  have hcut : ∀ {l a b : Bytes}, a ++ b = l → l.take (l.length - b.length) ++ b = l := by
    rintro l a b rfl
    rw [List.length_append, Nat.add_sub_cancel, List.take_left]
  exact hcut (List.rdropWhile_append_rtakeWhile (p := (· ≠ slash)) (l := path))

theorem resolve_some {path : Bytes} {p : Path} (h : resolve path = some p) :
    p.name.bytes = path.rtakeWhile (· ≠ slash) ∧
      p.dir = if slash ∈ path then dirKey (path.take (path.length - (path.rtakeWhile (· ≠ slash)).length)) else lit "." := by
  unfold resolve at h
  simp only at h
  split at h
  · cases h
    exact ⟨rfl, rfl⟩
  · cases h

theorem resolve_count {c : UInt8} {path : Bytes} {p : Path} (hc : c ≠ slash) (hs : slash ∈ path)
    (h : resolve path = some p) : p.dir.count c + p.name.bytes.count c = path.count c := by
  obtain ⟨hname, hdir⟩ := resolve_some h
  rw [if_pos hs] at hdir
  rw [hdir, hname, dirKey_count hc, ← List.count_append, take_append_name]

/-! ## Calls -/

structure File where
  content : Bytes
  mtime : Int
  deriving DecidableEq

abbrev Disk := Finmap fun _ : Path => File

/-- The file a string names, if there is one. -/
def Disk.file (d : Disk) (path : Bytes) : Option File := (resolve path).bind d.lookup

/-- `remove`: the disk and whether the call returned 0. -/
def Disk.remove (d : Disk) (ok : Bool) (path : Bytes) : Disk × Bool :=
  match resolve path with
  | some p => if ok ∧ (d.lookup p).isSome then (d.erase p, true) else (d, false)
  | none => (d, false)

/-- `rename`, which replaces its target. -/
def Disk.rename (d : Disk) (ok : Bool) (src dst : Bytes) : Disk × Bool :=
  match resolve src, resolve dst with
  | some p, some q =>
    match d.lookup p with
    | some f => if ok then ((d.erase p).insert q f, true) else (d, false)
    | none => (d, false)
  | _, _ => (d, false)

/-- `fopen(path, "ab")`: the file that further writes append to. -/
def Disk.openAppend (d : Disk) (ok : Bool) (now : Int) (path : Bytes) : Disk × Option Path :=
  match resolve path with
  | some p => if ok then (if (d.lookup p).isSome then d else d.insert p ⟨[], now⟩, some p) else (d, none)
  | none => (d, none)

/-- A write at the end of an open file. -/
def Disk.append (d : Disk) (now : Int) (p : Path) (data : Bytes) : Disk :=
  match d.lookup p with
  | some f => d.insert p ⟨f.content ++ data, now⟩
  | none => d

theorem remove_of_resolve {d : Disk} {path : Bytes} {p : Path} (h : resolve path = some p) (ok : Bool) :
    d.remove ok path = if ok ∧ (d.lookup p).isSome then (d.erase p, true) else (d, false) := by
  unfold Disk.remove
  rw [h]

/-- `remove` touches only the file it names. -/
theorem remove_lookup_ne {d : Disk} {ok : Bool} {path : Bytes} {p q : Path} (h : resolve path = some p) (hne : q ≠ p) :
    (d.remove ok path).1.lookup q = d.lookup q := by
  rw [remove_of_resolve h]
  split
  · exact Finmap.lookup_erase_ne hne
  · rfl

theorem remove_lookup_self {d : Disk} {ok : Bool} {path : Bytes} {p : Path} (h : resolve path = some p) :
    (d.remove ok path).1.lookup p = if ok then none else d.lookup p := by
  rw [remove_of_resolve h]
  cases ok with
  | false => simp
  | true =>
    cases hp : d.lookup p with
    | none => simp [hp]
    | some f => simp

theorem remove_ok {d : Disk} {ok : Bool} {path : Bytes} {p : Path} (h : resolve path = some p)
    (hp : (d.lookup p).isSome) : (d.remove ok path).2 = ok := by
  rw [remove_of_resolve h]
  cases ok <;> simp [hp]

end Posix
