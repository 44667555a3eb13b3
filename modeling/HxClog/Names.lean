import HxClog.Lib.Scan
import HxClog.Format

/-!
# Archive names

`<stem>.<YYYY-MM-DD>.<N>[.<ext>][.gz]`: how rotation prints such a name, how
cleanup recognizes and orders it, and how the next index is found.
-/

namespace HxClog

open C Scan

/-! ## Splitting the name of the active file -/

/-- The last dot of a name: each dot the loop meets replaces the one before. -/
def lastDot : Bytes → Option Nat
  | [] => none
  | c :: name =>
    match lastDot name with
    | some i => some (i + 1)
    | none => if c = chr '.' then some 0 else none

/-- Stem and extension. A dot in front of the name starts no extension. -/
def splitName (name : Bytes) (stemCap extCap : Nat) : Bytes × Bytes :=
  match lastDot name with
  | none | some 0 => (cut stemCap name, [])
  | some (i + 1) => (cut stemCap (name.take (i + 1)), cut extCap (name.drop (i + 2)))

/-! ## Printing -/

/-- `"%04d-%02d-%02d"` of a date. -/
def dateText (tm : Tm) : Bytes :=
  padInt 4 (tm.year + 1900) ++ chr '-' :: (padInt 2 (tm.mon + 1) ++ chr '-' :: padInt 2 tm.mday)

def dotExt (ext : Bytes) : Bytes := if ext = [] then [] else chr '.' :: ext

def makeArchiveName (cap : Nat) (stem ext : Bytes) (tm : Tm) (index : Int) : Bytes :=
  cut cap (stem ++ chr '.' :: (dateText tm ++ chr '.' :: (padInt 0 index ++ dotExt ext)))

/-! ## Reading -/

/-- The four conversions of `"%4d-%2d-%2d.%d"`. -/
structure Stamp where
  year : Numeral
  month : Numeral
  day : Numeral
  index : Numeral
  deriving DecidableEq

/-- The date and index in front, and what is behind them. -/
def scanStamp (s : Bytes) : Option (Stamp × Bytes) := do
  let (year, s) ← scanInt (some 4) s
  let s ← expect (chr '-') s
  let (month, s) ← scanInt (some 2) s
  let s ← expect (chr '-') s
  let (day, s) ← scanInt (some 2) s
  let s ← expect (chr '.') s
  let (index, s) ← scanInt none s
  some (⟨year, month, day, index⟩, s)

/-- The number that orders archives by date and index. -/
def Stamp.key (st : Stamp) : Int :=
  (st.year.value * 10000 + st.month.value * 100 + st.day.value) * 100000000 + st.index.value

def archiveOrderKey (fname pre : Bytes) (fallback : Int) : Int :=
  match scanStamp (fname.drop pre.length) with
  | some (st, _) => if 0 ≤ st.index.value then st.key else fallback
  | none => fallback

def hasPrefix (s pre : Bytes) : Bool := pre.isPrefixOf s

/-- The texts that `archive_name_match` accepts behind the index, each with the
value of `*compressed`. The buffers for them hold 65 and 69 characters. -/
def archiveTail (ext p : Bytes) : Option Bool :=
  if ext = [] then
    if p = [] then some false else if p = lit ".gz" then some true else none
  else if p = cut 66 (chr '.' :: ext) then some false
  else if p = cut 70 (chr '.' :: (ext ++ lit ".gz")) then some true
  else none

/-- `none` for a name that is no archive, otherwise `*compressed`. -/
def archiveNameMatch (fname pre ext : Bytes) : Option Bool :=
  if hasPrefix fname pre then
    match scanStamp (fname.drop pre.length) with
    | none => none
    | some (st, p) =>
      if st.index.value < 0 ∨ st.month.value < 1 ∨ 12 < st.month.value ∨ st.day.value < 1 ∨ 31 < st.day.value then none
      else archiveTail ext p
  else none

/-! ## The next index -/

/-- `index_cb` with `ic->max_index` as its state. -/
def indexCb (stem dateTag : Bytes) (maxIndex : Int) (fname : Bytes) : Int :=
  let needle := cut 300 (stem ++ chr '.' :: (dateTag ++ [chr '.']))
  if hasPrefix fname needle then max maxIndex (atoi (fname.drop needle.length)) else maxIndex

/-- `ic.max_index + 1` after a scan of the directory, as an `int`. -/
def nextIndex (stem dateTag : Bytes) (names : List Bytes) : Int :=
  Int.bmod (names.foldl (indexCb stem dateTag) 0 + 1) (2 ^ 32)

end HxClog
