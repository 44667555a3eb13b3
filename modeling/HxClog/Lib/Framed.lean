import Mathlib

/-!
# Texts behind one another

Each text of a file ends with a separator that is not in the text. Splitting the file at
the separator gives the texts back, and a reader that undoes the writer of one text
reads the file.
-/

namespace Framed

variable {α β : Type*}

theorem mapM_written {write : β → List α} {one : List α → Option β} {xs : List β} (h : ∀ x ∈ xs, one (write x) = some x) :
    (xs.map write).mapM one = some xs := by
  induction xs with
  | nil => rfl
  | cons x xs ih =>
    rw [List.map_cons, List.mapM_cons, h x List.mem_cons_self, ih fun y hy => h y (List.mem_cons_of_mem _ hy)]
    rfl

/-- Where all the texts are of one kind, so are those of each part. -/
theorem parts_of_map {f : α → β} : ∀ {parts : List (List β)} {xs : List α}, parts.flatten = xs.map f →
    ∃ xss : List (List α), xss.flatten = xs ∧ parts = xss.map (List.map f)
  | [], xs, h => ⟨[], (List.map_eq_nil_iff.mp h.symm).symm, rfl⟩
  | part :: parts, xs, h => by
    rw [List.flatten_cons] at h
    obtain ⟨ys, zs, rfl, rfl, hzs⟩ := List.map_eq_append_iff.mp h.symm
    obtain ⟨xss, rfl, rfl⟩ := parts_of_map hzs.symm
    exact ⟨ys :: xss, rfl, rfl⟩

variable [DecidableEq α] (sep : α)

/-- The file of some texts. -/
def file (texts : List (List α)) : List α := texts.flatMap (· ++ [sep])

/-- The texts of a file. There are none when something stands behind the last separator. -/
def split (s : List α) : Option (List (List α)) :=
  if (s.splitOn sep).getLast? = some [] then some (s.splitOn sep).dropLast else none

/-- Every text is read. -/
def read (one : List α → Option β) (s : List α) : Option (List β) := (split sep s).bind (List.mapM one)

variable {sep}

theorem splitOn_file {texts : List (List α)} (h : ∀ t ∈ texts, sep ∉ t) : (file sep texts).splitOn sep = texts ++ [[]] := by
  induction texts with
  | nil => simp [file]
  | cons t texts ih =>
    have htail := ih fun t ht => h t (List.mem_cons_of_mem _ ht)
    have hfile : file sep (t :: texts) = t ++ sep :: file sep texts := by simp [file]
    rw [hfile, List.splitOn_append_cons_self_of_not_mem (h t List.mem_cons_self), htail]
    rfl

theorem split_file {texts : List (List α)} (h : ∀ t ∈ texts, sep ∉ t) : split sep (file sep texts) = some texts := by
  unfold split
  rw [splitOn_file h]
  simp

/-- What is written is read back. -/
theorem read_file {write : β → List α} {one : List α → Option β} {xs : List β} (hone : ∀ x ∈ xs, one (write x) = some x)
    (hsep : ∀ x ∈ xs, sep ∉ write x) : read sep one (file sep (xs.map write)) = some xs := by
  unfold read
  rw [split_file (List.forall_mem_map.mpr hsep), Option.bind_some, mapM_written hone]

end Framed
