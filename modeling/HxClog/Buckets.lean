import HxClog.DaySeparation

/-!
# Aligned rotation

An aligned sink splits its lines where the bucket or the day changes. It compares with
the second in which it opened its file, which for all files but the first is that of
the first line.
-/

namespace HxClog

open C Posix

variable {localtime : Int → Tm}

/-! ## Which file a line is in -/

/-- The lines of a list of files, with the numbers of the files. -/
def numberedLines (files : List (List Entry)) : List (Nat × Entry) :=
  files.zipIdx.flatMap fun f => f.1.map fun e => (f.2, e)

/-- The lines that the sink wrote, in their order, with the numbers of their files. -/
def Logbook.numbered (b : Logbook) : List (Nat × Entry) := numberedLines (b.archives.map Archived.lines ++ [b.lines])

def FileSink.interval (fs : FileSink) : Int := fs.rotateIntervalSeconds.toNat

/-- Two seconds are in one bucket of one day. -/
def Together (localtime : Int → Tm) (interval a b : Int) : Prop := a.tdiv interval = b.tdiv interval ∧ SameDay localtime a b

instance (interval a b : Int) : Decidable (Together localtime interval a b) := inferInstanceAs (Decidable (_ ∧ _))

theorem Together.refl (interval a : Int) : Together localtime interval a a := ⟨rfl, rfl, rfl⟩

theorem Together.symm {interval a b : Int} (h : Together localtime interval a b) : Together localtime interval b a :=
  ⟨h.1.symm, h.2.symm⟩

theorem Together.trans {interval a b c : Int} (h : Together localtime interval a b) (h' : Together localtime interval b c) :
    Together localtime interval a c :=
  ⟨h.1.trans h'.1, h.2.trans h'.2⟩

theorem Home.due_iff {fs : FileSink} {now : Int} {incoming : UInt32} (hh : Home localtime fs) :
    fs.due localtime now incoming = true ↔ DueSince localtime fs fs.openedSec fs.currentSize now incoming :=
  due_since_iff hh.year hh.yday rfl (by simp [FileSink.deferred, hh.failSec])

section
variable {b b' : Logbook} {c : Writing × Bytes}

end

/-! ## The first two lines -/

section
variable {b b' : Logbook} {created : Int} {calls : List (Writing × Bytes)}

end

end HxClog
