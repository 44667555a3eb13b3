import HxClog.JsonLines
import HxClog.Lib.Framed
import HxClog.NewestKept

/-!
# A log of JSON lines reads back

Records that are logged as JSON go through rotation and retention as lines. What a reader
finds in the archives and in the active file are the records, in their order: all of
them as long as no archive has been removed, and the newest ones else.
-/

namespace HxClog

open C Json Scan

/-! ## Reading -/

/-- One object and nothing behind it. -/
def readLine (s : Bytes) : Option Json.Object := (readObject s).bind fun r => if r.2 = [] then some r.1 else none

/-- The objects of a file, one a line. -/
def readLog (s : Bytes) : Option (List Json.Object) := Framed.read (chr '\n') readLine s

theorem readLine_object (o : Json.Object) : readLine (objectText jsonCharText o) = some o := by
  have hread := readObject_text jsonCharText_undone o []
  rw [List.append_nil] at hread
  unfold readLine
  rw [hread]
  rfl

theorem readLog_objects {os : List Json.Object} : readLog (Framed.file (chr '\n') (os.map (objectText jsonCharText))) = some os :=
  Framed.read_file (fun o _ => readLine_object o) fun o _ hmem =>
    absurd (objectText_printable jsonCharText_printable o _ hmem) (by decide)

/-! ## Writing -/

/-- A record that is logged as JSON and written to a file, with a line that is not cut. -/
structure JsonWrite (e : Renderer) where
  writing : Writing
  record : Record
  k : Nat
  pattern : Option CStr
  fits : LineFits e.lineCap lineStackSize (jsonSize record (e.localtime record.timestampSec))
  room : jsonSize record (e.localtime record.timestampSec) < lineStackSize ∨
    ((e.heap k).malloc (jsonSize record (e.localtime record.timestampSec) + 1)).isSome

namespace JsonWrite

variable {e : Renderer}

/-- The line, as `format_with_retry` leaves it. -/
def line (w : JsonWrite e) : Bytes := e.line w.k ⟨w.pattern, .json, none⟩ w.record

def call (w : JsonWrite e) : Writing × Bytes := (w.writing, w.line)

/-- What a reader is to find. -/
def object (w : JsonWrite e) : Json.Object := writtenFields w.record (e.localtime w.record.timestampSec)

theorem line_eq (hstack : ∀ k, lineStackSize ≤ (e.stack k).length) (w : JsonWrite e) :
    w.line = objectText jsonCharText w.object ++ [chr '\n'] := by
  have hs : Fits (e.stack w.k) lineStackSize := ⟨by decide, hstack w.k, by decide⟩
  unfold object
  rw [← jsonText_written]
  refine formatWithRetry_whole hs (fun _ _ _ hm => hxFormatJsonRecord_spec e.localtime w.record hm) ?_ ?_
  · rw [jsonText_length]
    exact w.room
  · rw [jsonText_length]
    exact w.fits

/-- Every JSON line of a record that is dispatched is such a line, when it fits. -/
theorem of_dispatched {th : FmtCache} {rec : Record} {ovs : List OverrideSnap} {haveDefaultTargets : Bool} {l : Line}
    (h : JsonLine th e rec ovs haveDefaultTargets l) (wr : Writing)
    (hfits : LineFits e.lineCap lineStackSize (jsonSize rec (e.localtime rec.timestampSec)))
    (halloc : ∀ k n, ((e.heap k).malloc n).isSome) : ∃ w : JsonWrite e, w.record = rec ∧ w.call = (wr, l.bytes) := by
  obtain ⟨k, pattern, hline⟩ := jsonLine_rendered h
  refine ⟨⟨wr, rec, k, pattern, hfits, .inr (halloc k _)⟩, rfl, ?_⟩
  rw [hline]
  rfl

end JsonWrite

/-! ## From the records to a reader -/

/-- The archives in the order of their keys, at most `N` of them, and the active file behind them read back as the last
of these objects, in their order, and no object is in two files. Earlier ones are missing only where there are `N`
archives. -/
def ReadsBack (N : Nat) (s : FileSink × World) (objects : List Json.Object) : Prop :=
  ∀ files, ArchivesInOrder s.1 s.2.disk files → files.length ≤ N ∧
    ∃ (older : List Json.Object) (parts : List (List Json.Object)), older ++ parts.flatten = objects ∧
      (older ≠ [] → files.length = N) ∧
      (files.map (s.1.contentOf s.2.disk) ++ [contentAt s.2.disk s.1.activePath.bytes]).mapM readLog = some parts

theorem HoldsNewest.readsBack {N : Nat} {s : FileSink × World} {objects : List Json.Object}
    (h : HoldsNewest N s (objects.map fun o => objectText jsonCharText o ++ [chr '\n'])) : ReadsBack N s objects := by
  intro files hfiles
  obtain ⟨hlen, older, parts, hsplit, hfull, hcontents⟩ := h files hfiles
  obtain ⟨os, rest, hos, holder, hrest⟩ := List.map_eq_append_iff.mp hsplit.symm
  obtain ⟨read, hread, hparts⟩ := Framed.parts_of_map hrest.symm
  refine ⟨hlen, os, read, ?_, fun hne => hfull ?_, ?_⟩
  · rw [hos, hread]
  · rw [← holder]
    intro hnil
    exact hne (List.map_eq_nil_iff.mp hnil)
  · rw [hcontents, hparts, List.map_map]
    refine Framed.mapM_written fun part _ => ?_
    have hfile : (part.map fun o => objectText jsonCharText o ++ [chr '\n']).flatten =
        Framed.file (chr '\n') (part.map (objectText jsonCharText)) := by
      unfold Framed.file
      rw [List.flatMap_map]
      rfl
    rw [Function.comp_apply, hfile, readLog_objects]

/-- In every run that starts with a new file in such a directory and writes records as JSON, the files read back as the
records, but for those that went with an archive. -/
theorem json_log_reads_back {N : Nat} {e : Renderer} {create : Creating} {dir fileName : Option Bytes} {cfg : FileConfig}
    {w : World} {s : FileSink × World} {records : List (JsonWrite e)} {b : Logbook}
    (hstack : ∀ k, lineStackSize ≤ (e.stack k).length)
    (h : CappedStart e.localtime N create dir fileName cfg w s)
    (hcalls : Transition.Along (Logbook.write e.localtime) (Regular e.localtime) (.opened create.opening.now [] s)
      (records.map JsonWrite.call))
    (hr : Transition.run (Logbook.write e.localtime) (.opened create.opening.now [] s) (records.map JsonWrite.call) = some b) :
    ReadsBack N b.sink (records.map JsonWrite.object) := by
  obtain ⟨⟨xs, hxs⟩, hwritten⟩ := newest_run h.shelf hcalls hr
  refine HoldsNewest.readsBack ?_
  have hstart : (Logbook.opened create.opening.now [] s).written = [] := rfl
  have hlines : (records.map JsonWrite.object).map (fun o => objectText jsonCharText o ++ [chr '\n']) = b.written := by
    rw [hwritten, hstart, List.nil_append, List.map_map, List.map_map]
    refine List.map_congr_left fun w _ => ?_
    rw [Function.comp_apply, Function.comp_apply, JsonWrite.call, w.line_eq hstack]
  rw [hlines]
  exact hxs.holds

/-! ## Two records -/

def logRenderer : Renderer := { plainRenderer with localtime := january1970 }

theorem short_fits : jsonSize shortRecord (january1970 shortRecord.timestampSec) < lineStackSize := by decide +kernel

/-- The short record, written so and whole. -/
def writesShort (wr : Writing) : JsonWrite logRenderer where
  writing := { wr with written := lineStackSize }
  record := shortRecord
  k := 0
  pattern := none
  fits := .inl short_fits
  room := .inl short_fits

def shortWrites : List (JsonWrite logRenderer) :=
  [writesShort (writesAt 11 true), writesShort (writesTidied 12 [plainName] [plainName, firstArchive])]

theorem logRenderer_stack (k : Nat) : lineStackSize ≤ (logRenderer.stack k).length := Nat.le_of_eq List.length_replicate.symm

/-- Its line, written so. -/
def shortCall (wr : Writing) : Writing × Bytes := ({ wr with written := lineStackSize }, jsonText shortRecord (january1970 0))

theorem shortWrites_calls : shortWrites.map JsonWrite.call =
    [shortCall (writesAt 11 true), shortCall (writesTidied 12 [plainName] [plainName, firstArchive])] := by
  have hcall : ∀ wr, (writesShort wr).call = shortCall wr := by
    intro wr
    unfold JsonWrite.call shortCall
    rw [JsonWrite.line_eq logRenderer_stack, jsonText_written]
    rfl
  unfold shortWrites
  rw [List.map_cons, List.map_singleton, hcall, hcall]

theorem shortStart_isSome :
    (hxSinkFileCreate january1970 dailyCreate (some (lit "l")) (some (lit "a")) (some oneBackup) emptyWorld).isSome = true := by
  decide +kernel

def shortStart : FileSink × World :=
  (hxSinkFileCreate january1970 dailyCreate (some (lit "l")) (some (lit "a")) (some oneBackup) emptyWorld).get shortStart_isSome

theorem shortFirst_isSome : (Logbook.write january1970 (.opened 10 [] shortStart) (shortCall (writesAt 11 true))).isSome = true := by
  decide +kernel

/-- Behind the first record. -/
def shortFirst : Logbook :=
  (Logbook.write january1970 (.opened 10 [] shortStart) (shortCall (writesAt 11 true))).get shortFirst_isSome

theorem shortFirst_eq : Logbook.write january1970 (.opened 10 [] shortStart) (shortCall (writesAt 11 true)) = some shortFirst :=
  (Option.some_get shortFirst_isSome).symm

theorem shortSecond_isSome : (Logbook.write january1970 shortFirst
    (shortCall (writesTidied 12 [plainName] [plainName, firstArchive]))).isSome = true := by decide +kernel

/-- Behind the second record, for which the file is rotated. -/
def shortSecond : Logbook :=
  (Logbook.write january1970 shortFirst (shortCall (writesTidied 12 [plainName] [plainName, firstArchive]))).get
    shortSecond_isSome

theorem shortSecond_eq : Logbook.write january1970 shortFirst
    (shortCall (writesTidied 12 [plainName] [plainName, firstArchive])) = some shortSecond :=
  (Option.some_get shortSecond_isSome).symm

theorem shortWrites_run :
    Transition.run (Logbook.write january1970) (.opened 10 [] shortStart) (shortWrites.map JsonWrite.call) = some shortSecond := by
  rw [shortWrites_calls, Transition.run_cons, shortFirst_eq, Option.bind_some, Transition.run_cons, shortSecond_eq]
  rfl

theorem shortWrites_regular : Transition.Along (Logbook.write january1970) (Regular january1970) (.opened 10 [] shortStart)
    (shortWrites.map JsonWrite.call) := by
  rw [shortWrites_calls]
  refine Transition.Along.cons shortFirst_eq ?_ (Transition.Along.cons shortSecond_eq ?_ trivial)
  · exact regular_idle (by decide +kernel) (by decide +kernel) (by decide +kernel)
  · refine ⟨⟨by decide +kernel, by decide +kernel, fun _ => ⟨[plainName], rfl, listed_of_keys (by decide +kernel),
      by decide +kernel, ⟨by decide +kernel, by decide +kernel, ?_⟩⟩⟩, fun _ => ⟨by decide +kernel, by decide +kernel⟩,
      tidied_names rfl (by decide +kernel) (by decide +kernel) (by decide +kernel) (by decide +kernel) rfl
        (smooth_succeeds (by decide +kernel) (by decide +kernel)) (by decide +kernel)⟩
    intro names hn
    cases hn
    decide +kernel

theorem json_log_reads_back_two : ReadsBack 1 shortSecond.sink (shortWrites.map JsonWrite.object) := by
  have hstart : CappedStart january1970 1 dailyCreate (some (lit "l")) (some (lit "a")) oneBackup emptyWorld shortStart :=
    ⟨rfl, ⟨by decide, rfl, by decide⟩, fun _ => by decide, by decide +kernel, by decide +kernel, rfl,
      none_begins (by decide +kernel), by decide +kernel, (Option.some_get shortStart_isSome).symm⟩
  exact json_log_reads_back logRenderer_stack hstart shortWrites_regular shortWrites_run

end HxClog
