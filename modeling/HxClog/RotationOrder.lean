import HxClog.ArchiveNames
import HxClog.DaySeparation

/-!
# Rotation keeps the lines in order

Where no archive is compressed or removed, each archive gets a date and an index above
those of all others. The archives in the order of their keys, and the active file behind
them, hold every line that was written, in its order, and no line is in two of them.
-/

namespace HxClog

open C Posix Scan

variable {localtime : Int → Tm}

/-! ## Without limits -/

/-- No limit on the archives is set. -/
structure Unlimited (cfg : FileConfig) : Prop where
  files : cfg.maxBackupFiles ≤ 0
  days : cfg.maxBackupDays ≤ 0
  compressed : cfg.maxCompressedFiles ≤ 0

theorem cleanup_unlimited (env : Cleaning) {fs : FileSink} (w : World) (h : Unlimited fs.settings.1) :
    (hxRotateCleanup env fs w).disk = w.disk := by
  have hfiles : ¬fs.maxBackupFiles > 0 := not_lt.mpr h.files
  have hdays : ¬fs.maxBackupDays > 0 := not_lt.mpr h.days
  have hcompressed : ¬fs.maxCompressedFiles > 0 := not_lt.mpr h.compressed
  have hcap : ¬gzCap fs > 0 := by
    unfold gzCap
    rw [if_neg hcompressed]
    split
    · decide
    · exact hfiles
  unfold hxRotateCleanup agePass compressPass capPass
  simp only [if_neg hfiles, if_neg hdays, if_neg hcap]
  split
  · rfl
  · split
    · rfl
    · rfl

/-! ## The disk behind a write -/

section
variable {s : FileSink × World} {wr : Writing} {data : Bytes} {p : Path}

theorem append_lookup_ne (d : Disk) {p r : Path} (h : r ≠ p) (now : Int) (data : Bytes) :
    (d.append now p data).lookup r = d.lookup r := by
  unfold Disk.append
  split
  · exact Finmap.lookup_insert_of_ne d h
  · rfl

/-- Without a rotation only the active file changes. -/
theorem write_stays (hh : Home localtime s.1) (hs : (FileCall.write wr data).Succeeds localtime s)
    (hd : s.1.due localtime wr.rotating.now data.length.toUInt32 = false) (hp : resolve s.1.activePath.bytes = some p)
    {r : Path} (hr : r ≠ p) : ((FileCall.write wr data).run localtime s).2.2.disk.lookup r = s.2.disk.lookup r := by
  have hrun : (FileCall.write wr data).run localtime s = fwriteActive wr data s.1 s.2 := write_not_due hd
  have hok := hs.1
  rw [hrun] at hok ⊢
  obtain ⟨q, hq, heq⟩ := fwrite_ok hok
  rw [hh.fp, hp] at hq
  cases hq
  rw [heq]
  exact append_lookup_ne _ hr _ _

/-- A rotation moves the active file to its target, and no other file changes. -/
theorem write_moves (hh : Home localtime s.1) (hu : Unlimited s.1.settings.1)
    (hs : (FileCall.write wr data).Succeeds localtime s)
    (hd : s.1.due localtime wr.rotating.now data.length.toUInt32 = true) (hp : resolve s.1.activePath.bytes = some p) :
    ∃ q f, resolve (archiveTarget s.1 (s.1.archiveDate localtime wr.rotating.now) wr.rotating.listing) = some q ∧
      s.2.disk.lookup p = some f ∧
      (q ≠ p → ((FileCall.write wr data).run localtime s).2.2.disk.lookup q = some f) ∧
      ∀ r, r ≠ p → r ≠ q → ((FileCall.write wr data).run localtime s).2.2.disk.lookup r = s.2.disk.lookup r := by
  obtain ⟨t, harchive, hrun⟩ := write_archives hh.flat hs hd
  obtain ⟨hhome, hset, -⟩ := archive_home hh harchive
  obtain ⟨hren, p', w₁, hp', hdisk, hfs, hw⟩ := archive_disk harchive hs.2.2.2.1
  rw [hh.pathAt, hp] at hp'
  cases hp'
  obtain ⟨p', q, f, hp', hq, hf, hmoved⟩ := rename_ok hren
  rw [hp] at hp'
  cases hp'
  have hopened : t.2.disk = Disk.touched ((s.2.disk.erase p).insert q f) p wr.rotating.opening.now := by
    rw [hw, cleanup_unlimited _ _ (hset ▸ hu), hdisk, hmoved]
  have hok := hs.1
  rw [hrun] at hok ⊢
  obtain ⟨p', hp', heq⟩ := fwrite_ok hok
  have hfp : t.1.fp = some p := by
    rw [hfs]
    rfl
  rw [hfp] at hp'
  cases hp'
  have hafter : ∀ r, r ≠ p → (fwriteActive wr data t.1 t.2).2.2.disk.lookup r =
      ((s.2.disk.erase p).insert q f).lookup r := by
    intro r hr
    rw [heq]
    show (t.2.disk.append wr.mtime p data).lookup r = _
    rw [append_lookup_ne _ hr, hopened, touched_lookup_ne _ hr]
  refine ⟨q, f, hq, hf, fun hne => ?_, fun r hr hrq => ?_⟩
  · rw [hafter q hne, Finmap.lookup_insert]
  · rw [hafter r hr, Finmap.lookup_insert_of_ne _ hrq, Finmap.lookup_erase_ne hr]

end

/-! ## Names without a slash -/

section
variable {fs : FileSink} {cur tm : Tm} {i : Int} {n : FileName} {names : List FileName}

theorem splitName_clean {name : Bytes} (h : slash ∉ name) :
    slash ∉ (splitName name 256 64).1 ∧ slash ∉ (splitName name 256 64).2 := by
  unfold splitName cut
  split
  · exact ⟨fun hs => h (List.mem_of_mem_take hs), List.not_mem_nil⟩
  · exact ⟨fun hs => h (List.mem_of_mem_take hs), List.not_mem_nil⟩
  · exact ⟨fun hs => h (List.mem_of_mem_take (List.mem_of_mem_take hs)),
      fun hs => h (List.mem_of_mem_drop (List.mem_of_mem_take hs))⟩

theorem archiveText_indexed (fs : FileSink) (cur : Tm) (i : Int) :
    archiveText fs.baseName.bytes cur i = fs.indexed cur i ++ dotExt fs.ext := by
  unfold archiveText FileSink.indexed FileSink.stem FileSink.ext stemDot
  rw [Tm.stamp_text]
  simp

theorem archiveText_clean (h : slash ∉ fs.baseName.bytes) : slash ∉ archiveText fs.baseName.bytes cur i := by
  obtain ⟨hstem, hext⟩ := splitName_clean h
  have hdot : slash ∉ (dotExt fs.ext).take _ := (dotExt_clean hext (dotExt fs.ext).length).2
  rw [List.take_length] at hdot
  rw [archiveText_indexed, List.mem_append, not_or]
  exact ⟨indexed_clean hstem, hdot⟩

/-- The archive becomes an entry of the directory, under the name of its date and index. -/
theorem NamesFit.entry {env : Rotating} (h : NamesFit fs cur env) (hdir : fs.activeDir.bytes ≠ [])
    (hbase : slash ∉ fs.baseName.bytes) {q : Path} (hq : resolve (archiveTarget fs cur env.listing) = some q) :
    ∃ n : FileName, q = fs.path n ∧ n.bytes = archiveText fs.baseName.bytes cur (fs.nextIndex cur env.listing) := by
  rw [h.target_eq, ← archiveText_indexed] at hq
  by_cases hvalid : ValidName (archiveText fs.baseName.bytes cur (fs.nextIndex cur env.listing))
  · rw [show archiveText fs.baseName.bytes cur (fs.nextIndex cur env.listing) = (FileName.mk _ hvalid).bytes from rfl,
      resolve_join hdir] at hq
    exact ⟨_, (Option.some.inj hq).symm, rfl⟩
  · rw [resolve_join_none (archiveText_clean hbase) hvalid] at hq
    cases hq

/-- Where a name has more characters than the stem, the prefix of the archives is whole. -/
theorem pre_whole (h : (stemDot fs.stem).length < 256) : (collectInit fs).pre = stemDot fs.stem := cut_of_lt h

theorem ext_whole (fs : FileSink) : (collectInit fs).ext = fs.ext := cut_of_lt (splitName_lengths fs.baseName.bytes).2

/-- Cleanup knows such an entry, by its date and index. -/
theorem archive_known (hn : n.bytes = archiveText fs.baseName.bytes tm i) (htm : tm.FourDigits) (h₀ : 0 ≤ i)
    (h : i < 2 ^ 31) : fs.archive n = true ∧ fs.key n = tm.dateNum * 100000000 + i := by
  have hroom : (stemDot fs.stem).length < 256 := by
    have hlen := n.valid.2.2.2.2
    have hpos : 0 < ((tm.stamp i).text ++ dotExt fs.ext).length :=
      List.length_pos_of_mem (List.mem_append_left _ (dot_mem_stamp _))
    rw [hn, archiveText, List.length_append] at hlen
    unfold FileSink.stem
    unfold FileSink.ext at hpos
    omega
  unfold FileSink.archive FileSink.kind FileSink.key
  rw [pre_whole hroom, ext_whole, hn]
  exact ⟨Option.isSome_of_eq_some (archiveText_matches _ htm h₀ h), archiveText_key _ htm h₀ h 0⟩

/-- What cleanup takes for an archive begins with the stem and a dot. -/
theorem archive_begins (h : fs.archive n = true) : stemDot fs.stem <+: n.bytes := by
  unfold FileSink.archive FileSink.kind at h
  obtain ⟨st, p, hname, -⟩ := (archiveNameMatch_isSome _ _ _).mp h
  have hlen := n.valid.2.2.2.2
  have hpos : 0 < (st.text ++ p).length := List.length_pos_of_mem (List.mem_append_left _ (dot_mem_stamp st))
  have hcut : (collectInit fs).pre.length = min (256 - 1) (stemDot fs.stem).length := cut_length _ _
  rw [hname, List.length_append] at hlen
  have hwhole : (collectInit fs).pre = stemDot fs.stem := pre_whole (by omega)
  rw [hname, hwhole]
  exact List.prefix_append _ _

theorem dateText_congr {a b : Tm} (h : a.dateNum = b.dateNum) : dateText a = dateText b := by
  have hymd := (Tm.dateNum_eq_iff a b).mp h
  unfold Tm.ymd at hymd
  simp only [EmbeddingLike.apply_eq_iff_eq, Prod.mk.injEq] at hymd
  unfold dateText
  rw [hymd.1, hymd.2.1, hymd.2.2]

/-- The scan comes across every entry of its date. -/
theorem entry_counted (hn : n.bytes = archiveText fs.baseName.bytes tm i) (htm : tm.FourDigits) (h₀ : 0 ≤ i)
    (h : i < 2 ^ 31) (hdate : tm.dateNum = cur.dateNum) (hmem : n ∈ names) : i ≤ fs.largestIndex cur names := by
  refine scan_mem fs.stem (cut 16 (dateText cur)) (n := n.bytes) (fun m => ?_) _ 0 (List.mem_map_of_mem hmem)
  have hcount := archiveText_counts fs.baseName.bytes [] htm h₀ h (by rw [List.append_nil]; exact dotExt_noDigit _) m
  rwa [List.append_nil, dateText_congr hdate, ← hn] at hcount

end

/-! ## The archives in their order -/

/-- An archive and its name. -/
structure Shelved where
  archived : Archived
  name : FileName
  date : Tm
  index : Int

def Shelved.key (x : Shelved) : Int := x.date.dateNum * 100000000 + x.index

def FileSink.contentOf (fs : FileSink) (d : Disk) (n : FileName) : Bytes := ((d.lookup (fs.path n)).map File.content).getD []

/-- The archive is on the disk, under the name of its date and index. -/
structure Shelved.Stands (fs : FileSink) (d : Disk) (x : Shelved) : Prop where
  name : x.name.bytes = archiveText fs.baseName.bytes x.date x.index
  year : x.date.FourDigits
  first : 0 ≤ x.index
  last : x.index < 10 ^ 8
  there : (d.lookup (fs.path x.name)).isSome = true
  content : fs.contentOf d x.name = textOf x.archived.lines

/-- What the settings have to be: no limits, a directory, and a name without a slash whose path fits. -/
structure Suited (fs : FileSink) : Prop where
  unlimited : Unlimited fs.settings.1
  dir : fs.dir.bytes ≠ []
  base : slash ∉ fs.baseName.bytes
  room : (withSlash fs.dir.bytes ++ fs.baseName.bytes).length < pathMax

/-- The archives of a history are those on the disk. Their keys ascend, and the active file is of
no earlier date. -/
structure OnShelf (localtime : Int → Tm) (b : Logbook) (xs : List Shelved) : Prop where
  kept : b.Kept localtime
  suited : Suited b.sink.1
  found : b.found = []
  archives : xs.map Shelved.archived = b.archives
  stands : ∀ x ∈ xs, x.Stands b.sink.1 b.sink.2.disk
  order : xs.Pairwise fun x y => x.key < y.key
  past : ∀ x ∈ xs, x.date.dateNum ≤ (localtime b.sink.1.openedSec).dateNum
  all : ∀ n, b.sink.1.archive n = true → (b.sink.2.disk.lookup (b.sink.1.path n)).isSome = true → ∃ x ∈ xs, x.name = n

/-- The date in the name of the archive that the write makes if it rotates. -/
def Logbook.archiveDate (localtime : Int → Tm) (b : Logbook) (c : Writing × Bytes) : Tm :=
  b.sink.1.archiveDate localtime c.1.rotating.now

/-- The date does not go back, and a rotation finds the directory listed, an index in range, and
paths that fit. -/
structure Orderly (localtime : Int → Tm) (b : Logbook) (c : Writing × Bytes) : Prop where
  opened : (localtime b.sink.1.openedSec).dateNum ≤ (localtime c.1.rotating.now).dateNum
  reopens : (localtime c.1.rotating.now).dateNum ≤ (localtime c.1.rotating.opening.now).dateNum
  rotates : b.sink.1.due localtime c.1.rotating.now c.2.length.toUInt32 = true →
    ∃ names, c.1.rotating.listing = some names ∧ Listed b.sink.2.disk b.sink.1 names ∧
      b.sink.1.largestIndex (b.archiveDate localtime c) names + 1 < 10 ^ 8 ∧
      NamesFit b.sink.1 (b.archiveDate localtime c) c.1.rotating

/-- The year in the name of the archive has four characters. -/
def YearFits (localtime : Int → Tm) (b : Logbook) (c : Writing × Bytes) : Prop :=
  b.sink.1.due localtime c.1.rotating.now c.2.length.toUInt32 = true → (b.archiveDate localtime c).FourDigits

/-- The lines that were written. -/
def Logbook.written (b : Logbook) : List Bytes := (b.archives.flatMap Archived.lines ++ b.lines).map Entry.line

/-- What a settings record decides about names. -/
theorem same_names {fs fs' : FileSink} (hh : Home localtime fs) (hh' : Home localtime fs') (h : fs'.settings = fs.settings) :
    fs'.baseName.bytes = fs.baseName.bytes ∧ fs'.path = fs.path ∧ fs'.archive = fs.archive := by
  have hbase : fs'.baseName.bytes = fs.baseName.bytes := congrArg (fun s => s.2.2) h
  have hdir : fs'.dir.bytes = fs.dir.bytes := congrArg (fun s => s.2.1) h
  refine ⟨hbase, funext fun n => ?_, funext fun n => ?_⟩
  · unfold FileSink.path
    rw [hh.dir, hh'.dir, hdir]
  · unfold FileSink.archive FileSink.kind collectInit
    rw [hbase]

theorem Suited.congr {fs fs' : FileSink} (h : Suited fs) (hset : fs'.settings = fs.settings) : Suited fs' := by
  have hbase : fs'.baseName.bytes = fs.baseName.bytes := congrArg (fun s => s.2.2) hset
  have hdir : fs'.dir.bytes = fs.dir.bytes := congrArg (fun s => s.2.1) hset
  exact ⟨hset ▸ h.unlimited, hdir ▸ h.dir, hbase ▸ h.base, hdir ▸ hbase ▸ h.room⟩

/-- An archive stays where it is if its file does. -/
theorem Shelved.Stands.kept {fs fs' : FileSink} {d d' : Disk} {x : Shelved} (h : x.Stands fs d)
    (hbase : fs'.baseName.bytes = fs.baseName.bytes) (hpath : fs'.path = fs.path)
    (hd : d'.lookup (fs.path x.name) = d.lookup (fs.path x.name)) : x.Stands fs' d' where
  name := h.name.trans (by rw [hbase])
  year := h.year
  first := h.first
  last := h.last
  there := by
    rw [hpath, hd]
    exact h.there
  content := by
    unfold FileSink.contentOf
    rw [hpath, hd]
    exact h.content

theorem Shelved.Stands.known {fs : FileSink} {d : Disk} {x : Shelved} (h : x.Stands fs d) :
    fs.archive x.name = true ∧ fs.key x.name = x.key :=
  archive_known h.name h.year h.first (h.last.trans (by decide))

section
variable {b b' : Logbook} {c : Writing × Bytes} {xs : List Shelved}

theorem Orderly.apart (h : Orderly localtime b c) (hk : b.Kept localtime) (hdir : b.sink.1.dir.bytes ≠ []) :
    (FileCall.write c.1 c.2).Apart localtime b.sink := by
  intro target htarget
  rw [target_flat hk.home.flat] at htarget
  split at htarget
  · rename_i hd
    cases htarget
    obtain ⟨-, -, -, -, hfit⟩ := h.rotates hd
    obtain ⟨f, hf, -⟩ := hk.size
    obtain ⟨p, hp, -⟩ := Option.bind_eq_some_iff.mp hf
    exact hfit.apart hk.home hdir (hk.home.fp.symm.trans hp)
  · cases htarget

/-- The date of the archive lies between that of its file and today's. -/
theorem archiveDate_between (h : Orderly localtime b c) :
    (localtime b.sink.1.openedSec).dateNum ≤ (b.archiveDate localtime c).dateNum ∧
      (b.archiveDate localtime c).dateNum ≤ (localtime c.1.rotating.now).dateNum := by
  unfold Logbook.archiveDate FileSink.archiveDate
  split
  · exact ⟨le_refl _, h.opened⟩
  · exact ⟨h.opened, le_refl _⟩

theorem written_write {env : Writing} {data : Bytes}
    (h : Logbook.Stays localtime b b' env data ∨ Logbook.Rotates localtime b b' env data) :
    b'.written = b.written ++ [data] := by
  unfold Logbook.written
  rcases h with hstays | hrotates
  · rw [hstays.archives, hstays.lines, ← List.append_assoc, List.map_append]
    rfl
  · rw [hrotates.archives, hrotates.lines, List.flatMap_append, List.map_append]
    simp [Logbook.archivedAs]

/-- The file that the sink writes to. -/
theorem OnShelf.active (h : OnShelf localtime b xs) : ∃ p f, resolve b.sink.1.activePath.bytes = some p ∧
    b.sink.2.disk.lookup p = some f ∧ f.content = textOf b.lines := by
  obtain ⟨f, hf, -⟩ := h.kept.size
  obtain ⟨p, hp, hlookup⟩ := Option.bind_eq_some_iff.mp hf
  refine ⟨p, f, h.kept.home.fp.symm.trans hp, hlookup, ?_⟩
  rw [h.kept.text f hf, h.found, List.nil_append]

/-- The path of the active file is not that of an archive. -/
theorem OnShelf.active_apart (h : OnShelf localtime b xs) {p : Path} (hp : resolve b.sink.1.activePath.bytes = some p)
    {n : FileName} (hn : b.sink.1.archive n = true) : b.sink.1.path n ≠ p := by
  intro he
  have happart := h.kept.home.apart h.suited.dir h.suited.room hp (archive_dots hn)
  rw [hp, resolve_join h.suited.dir, ← he] at happart
  unfold FileSink.path at happart
  rw [h.kept.home.dir] at happart
  exact happart rfl

/-- The key of the next archive is above all others. -/
theorem OnShelf.next_above (h : OnShelf localtime b xs) (hc : Orderly localtime b c) {names : List FileName}
    (hall : Listed b.sink.2.disk b.sink.1 names) {x : Shelved} (hx : x ∈ xs) :
    x.key < (b.archiveDate localtime c).dateNum * 100000000 + (b.sink.1.largestIndex (b.archiveDate localtime c) names + 1) := by
  have hst := h.stands x hx
  have hfirst := hst.first
  have hlast := hst.last
  have hlarge := (largestIndex_range b.sink.1 (b.archiveDate localtime c) names).1
  unfold Shelved.key
  rcases lt_or_eq_of_le ((h.past x hx).trans (archiveDate_between hc).1) with hbefore | hsame
  · omega
  · have hcounted := entry_counted hst.name hst.year hfirst (hlast.trans (by decide)) hsame (hall x.name hst.there)
    omega

/-- The active file becomes the archive `x`, and no other archive changes. -/
structure Puts (b b' : Logbook) (x : Shelved) : Prop where
  archives : b'.archives = b.archives ++ [x.archived]
  stands : x.Stands b'.sink.1 b'.sink.2.disk
  others : ∀ n, b.sink.1.archive n = true → n ≠ x.name →
    b'.sink.2.disk.lookup (b.sink.1.path n) = b.sink.2.disk.lookup (b.sink.1.path n)

/-- A write that rotates puts the file behind all archives. -/
theorem OnShelf.puts (h : OnShelf localtime b xs) (hc : Orderly localtime b c) (hy : YearFits localtime b c)
    (hs : b.write localtime c = some b') (hrotates : Logbook.Rotates localtime b b' c.1 c.2) :
    ∃ x, Puts b b' x ∧ x.date = b.archiveDate localtime c ∧ ∀ y ∈ xs, y.key < x.key := by
  obtain ⟨hkept, hset⟩ := Logbook.step_kept h.kept hs (hc.apart h.kept h.suited.dir)
  obtain ⟨hok, hb⟩ := Logbook.step_some hs
  have hsink : b'.sink = ((FileCall.write c.1 c.2).run localtime b.sink).2 := congrArg Logbook.sink hb
  obtain ⟨hbase, hpath, -⟩ := same_names h.kept.home hkept.home hset
  obtain ⟨p, f, hp, hactive, hcontent⟩ := h.active
  obtain ⟨names, hlist, hall, hindex, hfit⟩ := hc.rotates hrotates.due
  obtain ⟨q, g, hq, hg, hmoved, hothers⟩ := write_moves h.kept.home h.suited.unlimited hok hrotates.due hp
  obtain ⟨n, rfl, hn⟩ := hfit.entry (h.kept.home.dir ▸ h.suited.dir) h.suited.base hq
  have hlarge := largestIndex_range b.sink.1 (b.archiveDate localtime c) names
  have hnext : b.sink.1.nextIndex (b.archiveDate localtime c) c.1.rotating.listing =
      b.sink.1.largestIndex (b.archiveDate localtime c) names + 1 := by
    unfold FileSink.nextIndex
    rw [hlist]
    show Int.bmod (b.sink.1.largestIndex (b.archiveDate localtime c) names + 1) (2 ^ 32) = _
    exact Int.bmod_eq_of_le (by omega) (by omega)
  have hpos : 0 ≤ b.sink.1.largestIndex (b.archiveDate localtime c) names + 1 := by omega
  rw [hnext] at hn
  obtain ⟨hknown, -⟩ := archive_known hn (hy hrotates.due) hpos (hindex.trans (by decide))
  have hthere : b'.sink.2.disk.lookup (b.sink.1.path n) = some f := by
    rw [hsink, hmoved (h.active_apart hp hknown), ← hg]
    exact hactive
  refine ⟨⟨b.archivedAs (archiveTarget b.sink.1 (b.archiveDate localtime c) c.1.rotating.listing), n,
    b.archiveDate localtime c, b.sink.1.largestIndex (b.archiveDate localtime c) names + 1⟩,
    ⟨hrotates.archives, ⟨hn.trans (by rw [hbase]), hy hrotates.due, hpos, hindex, ?_, ?_⟩, ?_⟩, rfl, fun y hy =>
      h.next_above hc hall hy⟩
  · rw [hpath, hthere]
    rfl
  · unfold FileSink.contentOf
    rw [hpath, hthere]
    exact hcontent
  · intro m hm hmn
    rw [hsink]
    exact hothers _ (h.active_apart hp hm) fun he => hmn (FileSink.path_inj he)

theorem OnShelf.rotates (h : OnShelf localtime b xs) (hc : Orderly localtime b c) (hs : b.write localtime c = some b')
    (hrotates : Logbook.Rotates localtime b b' c.1 c.2) {x : Shelved} (hx : Puts b b' x)
    (hdate : x.date = b.archiveDate localtime c) (habove : ∀ y ∈ xs, y.key < x.key) : OnShelf localtime b' (xs ++ [x]) := by
  obtain ⟨hkept, hset⟩ := Logbook.step_kept h.kept hs (hc.apart h.kept h.suited.dir)
  obtain ⟨hbase, hpath, harchive⟩ := same_names h.kept.home hkept.home hset
  have hne : ∀ y ∈ xs, y.name ≠ x.name := by
    intro y hy he
    have hkeys := habove y hy
    rw [← hx.stands.known.2, ← (h.stands y hy).known.2, he] at hkeys
    unfold FileSink.key collectInit at hkeys
    rw [hbase] at hkeys
    exact lt_irrefl _ hkeys
  constructor
  · exact hkept
  · exact h.suited.congr hset
  · exact hrotates.found
  · rw [List.map_append, h.archives, hx.archives]
    rfl
  · intro y hy
    rcases List.mem_append.mp hy with hy | hy
    · exact (h.stands y hy).kept hbase hpath (hx.others _ (h.stands y hy).known.1 (hne y hy))
    · rw [List.mem_singleton] at hy
      subst hy
      exact hx.stands
  · rw [List.pairwise_append]
    refine ⟨h.order, List.pairwise_singleton _ _, fun y hy z hz => ?_⟩
    rw [List.mem_singleton] at hz
    subst hz
    exact habove y hy
  · intro y hy
    rw [hrotates.opened]
    rcases List.mem_append.mp hy with hy | hy
    · exact (h.past y hy).trans (hc.opened.trans hc.reopens)
    · rw [List.mem_singleton] at hy
      subst hy
      rw [hdate]
      exact (archiveDate_between hc).2.trans hc.reopens
  · intro n hn hthere
    rw [harchive] at hn
    by_cases he : n = x.name
    · exact ⟨x, List.mem_append_right _ (List.mem_singleton_self _), he.symm⟩
    · rw [hpath, hx.others n hn he] at hthere
      obtain ⟨y, hy, hyn⟩ := h.all n hn hthere
      exact ⟨y, List.mem_append_left _ hy, hyn⟩

/-- A write that does not rotate leaves the archives alone. -/
theorem OnShelf.stays (h : OnShelf localtime b xs) (hc : Orderly localtime b c) (hs : b.write localtime c = some b')
    (hstays : Logbook.Stays localtime b b' c.1 c.2) : OnShelf localtime b' xs := by
  obtain ⟨hkept, hset⟩ := Logbook.step_kept h.kept hs (hc.apart h.kept h.suited.dir)
  obtain ⟨hok, hb⟩ := Logbook.step_some hs
  obtain ⟨hbase, hpath, harchive⟩ := same_names h.kept.home hkept.home hset
  obtain ⟨p, -, hp, -⟩ := h.active
  have hother : ∀ n : FileName, b.sink.1.archive n = true →
      b'.sink.2.disk.lookup (b.sink.1.path n) = b.sink.2.disk.lookup (b.sink.1.path n) := by
    intro n hn
    rw [show b'.sink = ((FileCall.write c.1 c.2).run localtime b.sink).2 from congrArg Logbook.sink hb]
    exact write_stays h.kept.home hok hstays.due hp (h.active_apart hp hn)
  constructor
  · exact hkept
  · exact h.suited.congr hset
  · exact hstays.found.trans h.found
  · exact h.archives.trans hstays.archives.symm
  · intro x hx
    exact (h.stands x hx).kept hbase hpath (hother _ (h.stands x hx).known.1)
  · exact h.order
  · intro x hx
    rw [hstays.opened]
    exact h.past x hx
  · intro n hn hthere
    rw [harchive] at hn
    rw [hpath, hother n hn] at hthere
    exact h.all n hn hthere

theorem shelf_write (h : OnShelf localtime b xs) (hc : Orderly localtime b c) (hy : YearFits localtime b c)
    (hs : b.write localtime c = some b') : (∃ ys, OnShelf localtime b' ys) ∧ b'.written = b.written ++ [c.2] := by
  obtain ⟨hcases, -⟩ := Logbook.write_cases h.kept.home hs (hc.apart h.kept h.suited.dir)
  refine ⟨?_, written_write hcases⟩
  rcases hcases with hstays | hrotates
  · exact ⟨xs, h.stays hc hs hstays⟩
  · obtain ⟨x, hx, hdate, habove⟩ := h.puts hc hy hs hrotates
    exact ⟨_, h.rotates hc hs hrotates hx hdate habove⟩

theorem shelf_run {calls : List (Writing × Bytes)} (h : OnShelf localtime b xs)
    (hc : Transition.Along (Logbook.write localtime) (fun b c => Orderly localtime b c ∧ YearFits localtime b c) b calls)
    (hr : Transition.run (Logbook.write localtime) b calls = some b') :
    (∃ ys, OnShelf localtime b' ys) ∧ b'.written = b.written ++ calls.map Prod.snd := by
  induction calls generalizing b xs with
  | nil =>
    cases hr
    exact ⟨⟨xs, h⟩, (List.append_nil _).symm⟩
  | cons c calls ih =>
    rw [Transition.run_cons] at hr
    obtain ⟨t, ht, hr⟩ := Option.bind_eq_some_iff.mp hr
    obtain ⟨⟨ys, hys⟩, hwritten⟩ := shelf_write h hc.1.1 hc.1.2 ht
    obtain ⟨hshelf, hrest⟩ := ih hys (hc.2 t ht) hr
    refine ⟨hshelf, ?_⟩
    rw [hrest, hwritten, List.append_assoc]
    rfl

end

/-! ## From a new file on -/

/-- The archives on the disk, each once, in the order of their keys. -/
structure ArchivesInOrder (fs : FileSink) (d : Disk) (files : List FileName) : Prop where
  nodup : files.Nodup
  mem : ∀ n, n ∈ files ↔ fs.archive n = true ∧ (d.lookup (fs.path n)).isSome = true
  order : files.Pairwise fun m n => fs.key m ≤ fs.key n

section
variable {b : Logbook} {xs : List Shelved} {files : List FileName}

/-- The keys tell the archives apart. -/
theorem OnShelf.keys (h : OnShelf localtime b xs) : (xs.map Shelved.key).Nodup :=
  (List.pairwise_map.mpr h.order).imp fun hlt => ne_of_lt hlt

theorem OnShelf.names (h : OnShelf localtime b xs) :
    (xs.map Shelved.name).Pairwise fun m n => b.sink.1.key m < b.sink.1.key n := by
  rw [List.pairwise_map]
  refine h.order.imp_of_mem fun {x y} hx hy hlt => ?_
  rwa [(h.stands x hx).known.2, (h.stands y hy).known.2]

/-- A list of the archives in the order of their keys is theirs. -/
theorem OnShelf.files_eq (h : OnShelf localtime b xs) (hfiles : ArchivesInOrder b.sink.1 b.sink.2.disk files) :
    files = xs.map Shelved.name := by
  have hmem : ∀ n, n ∈ files ↔ n ∈ xs.map Shelved.name := by
    intro n
    rw [hfiles.mem, List.mem_map]
    constructor
    · rintro ⟨hknown, hthere⟩
      exact h.all n hknown hthere
    · rintro ⟨x, hx, rfl⟩
      exact ⟨(h.stands x hx).known.1, (h.stands x hx).there⟩
  have hnodup : (xs.map Shelved.name).Nodup := by
    refine h.names.imp fun hlt he => ?_
    rw [he] at hlt
    exact lt_irrefl _ hlt
  refine List.Perm.eq_of_pairwise (fun m n hm hn hle hge => ?_) hfiles.order (h.names.imp le_of_lt)
    ((List.perm_ext_iff_of_nodup hfiles.nodup hnodup).mpr hmem)
  obtain ⟨x, hx, rfl⟩ := List.mem_map.mp ((hmem m).mp hm)
  obtain ⟨y, hy, rfl⟩ := List.mem_map.mp hn
  rw [(h.stands x hx).known.2, (h.stands y hy).known.2] at hle hge
  rw [List.inj_on_of_nodup_map h.keys hx hy (le_antisymm hle hge)]

end

/-- What is asked of a sink, its directory and its settings before the first write: no daily folders, no limit on
the archives, a path that fits, and no file that begins with the stem and a dot. -/
structure FreshStart (localtime : Int → Tm) (create : Creating) (dir fileName : Option Bytes) (cfg : FileConfig) (w : World)
    (s : FileSink × World) : Prop where
  flat : cfg.dateSubdir = false
  limits : Unlimited cfg
  mkdir : create.mkdirOk = true → dir ≠ some []
  room : (withSlash (newFileSink dir fileName (some cfg)).dir.bytes ++
    (newFileSink dir fileName (some cfg)).baseName.bytes).length < pathMax
  size : create.opening.sizeOk = true
  none : ∀ n : FileName, stemDot (newFileSink dir fileName (some cfg)).stem <+: n.bytes →
    w.disk.lookup ⟨dirKey (newFileSink dir fileName (some cfg)).dir.bytes, n⟩ = none
  create : hxSinkFileCreate localtime create dir fileName (some cfg) w = some s

/-- The archives in the order of their keys and the active file behind them hold these lines, in their
order, and no line is in two files. -/
def HoldsInOrder (s : FileSink × World) (lines : List Bytes) : Prop :=
  ∀ files, ArchivesInOrder s.1 s.2.disk files → ∃ parts : List (List Bytes), parts.flatten = lines ∧
    files.map (s.1.contentOf s.2.disk) ++ [contentAt s.2.disk s.1.activePath.bytes] = parts.map List.flatten

section
variable {create : Creating} {dir fileName : Option Bytes} {cfg : FileConfig} {w : World} {s : FileSink × World}

/-- A sink that finds neither an archive nor a line starts with an empty shelf. -/
theorem FreshStart.shelf (h : FreshStart localtime create dir fileName cfg w s)
    (hbase : slash ∉ (newFileSink dir fileName (some cfg)).baseName.bytes)
    (hempty : contentAt w.disk ((newFileSink dir fileName (some cfg)).pathAt localtime create.opening.now).bytes = []) :
    OnShelf localtime (.opened create.opening.now [] s) [] := by
  obtain ⟨hkept, hset, -⟩ := Logbook.created_kept h.create h.size hempty h.flat
  have hsettings : s.1.settings.1 = cfg := congrArg Prod.fst hset
  have hdir : s.1.dir.bytes = (newFileSink dir fileName (some cfg)).dir.bytes := congrArg (fun s => s.2.1) hset
  have hname : s.1.baseName.bytes = (newFileSink dir fileName (some cfg)).baseName.bytes := congrArg (fun s => s.2.2) hset
  have hhome : Home localtime s.1 := hkept.home
  have hnamed : s.1.dir.bytes ≠ [] := (created_alive h.mkdir h.create).named.1
  obtain ⟨ho, -⟩ := Logbook.created_opened h.create h.size hempty
  obtain ⟨p, f, hp, hdisk, -, -, hfs⟩ := open_spec ho h.size
  have hsuited : Suited s.1 := ⟨hsettings ▸ h.limits, hnamed, hname ▸ hbase, hdir ▸ hname ▸ h.room⟩
  constructor
  · exact hkept
  · exact hsuited
  · rfl
  · rfl
  · intro x hx
    cases hx
  · exact List.Pairwise.nil
  · intro x hx
    cases hx
  · intro n hn hthere
    have hfp : s.1.fp = some p := by
      rw [hfs]
      rfl
    have hactive : resolve s.1.activePath.bytes = some p := hhome.fp.symm.trans hfp
    have hpath : s.1.path n = ⟨dirKey (newFileSink dir fileName (some cfg)).dir.bytes, n⟩ := by
      unfold FileSink.path
      rw [hhome.dir, hdir]
    have hne : s.1.path n ≠ p := by
      intro he
      have happart := hhome.apart hnamed hsuited.room hactive (archive_dots hn)
      rw [hactive, resolve_join hnamed, ← he, hpath, hdir] at happart
      exact happart rfl
    have hbegins : stemDot (newFileSink dir fileName (some cfg)).stem <+: n.bytes := by
      have hstem := archive_begins hn
      unfold FileSink.stem at hstem ⊢
      rwa [← hname]
    rw [show (Logbook.opened create.opening.now [] s).sink = s from rfl, hdisk, touched_lookup_ne _ hne, hpath,
      h.none n hbegins] at hthere
    cases hthere

/-- In every run that starts with a new file in such a directory rotation loses, doubles and reorders nothing. -/
theorem rotation_keeps_order {calls : List (Writing × Bytes)} {b : Logbook}
    (h : FreshStart localtime create dir fileName cfg w s)
    (hbase : slash ∉ (newFileSink dir fileName (some cfg)).baseName.bytes)
    (hempty : contentAt w.disk ((newFileSink dir fileName (some cfg)).pathAt localtime create.opening.now).bytes = [])
    (hcalls : Transition.Along (Logbook.write localtime) (fun b c => Orderly localtime b c ∧ YearFits localtime b c)
      (.opened create.opening.now [] s) calls)
    (hr : Transition.run (Logbook.write localtime) (.opened create.opening.now [] s) calls = some b) :
    HoldsInOrder b.sink (calls.map Prod.snd) := by
  intro files hfiles
  obtain ⟨⟨xs, hxs⟩, hwritten⟩ := shelf_run (h.shelf hbase hempty) hcalls hr
  have hactive : contentAt b.sink.2.disk b.sink.1.activePath.bytes = textOf b.lines := by
    obtain ⟨p, f, hp, hlookup, hcontent⟩ := hxs.active
    rw [contentAt_resolve hp, hlookup]
    exact hcontent
  have hcontents : files.map (b.sink.1.contentOf b.sink.2.disk) = b.archives.map fun a => textOf a.lines := by
    rw [hxs.files_eq hfiles, ← hxs.archives, List.map_map, List.map_map]
    exact List.map_congr_left fun x hx => (hxs.stands x hx).content
  refine ⟨b.archives.map (fun a => a.lines.map Entry.line) ++ [b.lines.map Entry.line], ?_, ?_⟩
  · rw [show calls.map Prod.snd = b.written from hwritten.symm]
    unfold Logbook.written
    rw [List.flatten_append, List.flatten_singleton, List.map_append, List.map_flatMap]
    rfl
  · rw [hcontents, hactive, List.map_append, List.map_map, List.map_singleton]
    unfold textOf
    simp only [List.flatMap_def]
    rfl

end

/-! ## A run with an archive -/

section
variable {fs : FileSink} {d : Disk}

theorem no_archives (h : ∀ p ∈ d.keys, fs.archive p.name = false) : ArchivesInOrder fs d [] where
  nodup := List.nodup_nil
  mem n := by
    refine iff_of_false List.not_mem_nil ?_
    rintro ⟨hn, hthere⟩
    have hno := h _ (Finmap.mem_keys.mpr (Finmap.lookup_isSome.mp hthere))
    rw [show (fs.path n).name = n from rfl, hn] at hno
    cases hno
  order := List.Pairwise.nil

theorem none_begins {dir pre : Bytes} (h : ∀ p ∈ d.keys, ¬pre <+: p.name.bytes) (n : FileName) (hn : pre <+: n.bytes) :
    d.lookup ⟨dir, n⟩ = none := by
  by_contra hne
  exact h _ (Finmap.mem_keys.mpr (Finmap.lookup_isSome.mp (Option.isSome_iff_ne_none.mpr hne))) hn

theorem listed_empty (h : ∀ p ∈ d.keys, p.dir ≠ dirKey fs.activeDir.bytes) : Listed d fs [] := by
  intro n hn
  exact absurd rfl (h _ (Finmap.mem_keys.mpr (Finmap.lookup_isSome.mp hn)))

theorem fits_uncleaned {cur : Tm} {env : Rotating} (hactive : (withSlash fs.dir.bytes ++ fs.baseName.bytes).length < pathMax)
    (htarget : (fs.activeDir.bytes ++ slash :: (fs.indexed cur (fs.nextIndex cur env.listing) ++ dotExt fs.ext)).length < pathMax)
    (hnone : env.cleaning.listing = some []) : NamesFit fs cur env := by
  refine ⟨hactive, htarget, fun names hn m hm => ?_⟩
  rw [hnone] at hn
  cases hn
  cases hm

end

/-- A write that is not due asks for nothing but its date. -/
theorem orderly_idle {b : Logbook} {c : Writing × Bytes}
    (hopened : (localtime b.sink.1.openedSec).dateNum ≤ (localtime c.1.rotating.now).dateNum)
    (hreopens : (localtime c.1.rotating.now).dateNum ≤ (localtime c.1.rotating.opening.now).dateNum)
    (hd : b.sink.1.due localtime c.1.rotating.now c.2.length.toUInt32 = false) :
    Orderly localtime b c ∧ YearFits localtime b c := by
  refine ⟨⟨hopened, hreopens, fun h => ?_⟩, fun h => ?_⟩
  · rw [hd] at h
    cases h
  · rw [hd] at h
    cases h

theorem plainName_valid : ValidName (lit "a") := by decide

def plainName : FileName := ⟨lit "a", plainName_valid⟩

/-- A write at `now` that finds the active file listed. -/
def writesListed (now : Int) : Writing :=
  { writesAt now true with rotating := { rotatesAt now true with listing := some [plainName] } }

/-- A sink whose second line makes an archive. -/
theorem rotation_keeps_order_twice : ∃ s b, FreshStart january1970 dailyCreate (some (lit "l")) (some (lit "a")) tinyConfig
      emptyWorld s ∧
    Transition.run (Logbook.write january1970) (.opened 10 [] s) [(writesAt 11 true, [97]), (writesListed 12, [98])] = some b ∧
    HoldsInOrder b.sink [[97], [98]] := by
  have hstart : FreshStart january1970 dailyCreate (some (lit "l")) (some (lit "a")) tinyConfig emptyWorld _ :=
    ⟨rfl, ⟨by decide, by decide, by decide⟩, fun _ => by decide, by decide +kernel, rfl, none_begins (by decide +kernel), rfl⟩
  refine ⟨_, _, hstart, rfl, @rotation_keeps_order january1970 dailyCreate (some (lit "l")) (some (lit "a")) tinyConfig
    emptyWorld _ [(writesAt 11 true, [97]), (writesListed 12, [98])] _ hstart (by decide +kernel) (by decide +kernel)
    (Transition.Along.cons rfl ?_ (Transition.Along.cons rfl ?_ trivial)) rfl⟩
  · exact orderly_idle (by decide +kernel) (by decide +kernel) (by decide +kernel)
  · refine ⟨⟨by decide +kernel, by decide +kernel, fun _ => ⟨[plainName], rfl, listed_of_keys (by decide +kernel),
      by decide +kernel, ?_⟩⟩, fun _ => ⟨by decide +kernel, by decide +kernel⟩⟩
    exact fits_uncleaned (by decide +kernel) (by decide +kernel) rfl

/-! ## Where order is lost -/

theorem HoldsInOrder.content {s : FileSink × World} {lines : List Bytes} {files : List FileName} (h : HoldsInOrder s lines)
    (hfiles : ArchivesInOrder s.1 s.2.disk files) :
    lines.flatten = (files.map (s.1.contentOf s.2.disk)).flatten ++ contentAt s.2.disk s.1.activePath.bytes := by
  obtain ⟨parts, hparts, hcontents⟩ := h files hfiles
  have hall := congrArg List.flatten hcontents
  rw [List.flatten_append, List.flatten_singleton, ← List.flatten_flatten, hparts] at hall
  exact hall.symm

/-- A run of these calls on a file in a directory `l`, in which every write meets `P`, does not hold its lines. -/
def LosesOrder (localtime : Int → Tm) (P : Logbook → Writing × Bytes → Prop) (fileName : Bytes) (cfg : FileConfig) (w : World)
    (calls : List (Writing × Bytes)) : Prop :=
  ∃ s b, FreshStart localtime dailyCreate (some (lit "l")) (some fileName) cfg w s ∧
    Transition.Along (Logbook.write localtime) P (.opened 10 [] s) calls ∧
    Transition.run (Logbook.write localtime) (.opened 10 [] s) calls = some b ∧
    ¬HoldsInOrder b.sink (calls.map Prod.snd)

/-- A directory in which a file without an extension holds a line already. -/
def foundWorld : World := ⟨Finmap.singleton ⟨lit "l", plainName⟩ ⟨[120], 5⟩, [], 0⟩

theorem found_line_first : LosesOrder january1970 (fun b c => Orderly january1970 b c ∧ YearFits january1970 b c) (lit "a")
    dailyConfig foundWorld [(writesAt 12 true, [97])] := by
  refine ⟨_, _, ⟨rfl, ⟨by decide, by decide, by decide⟩, fun _ => by decide, by decide +kernel, rfl,
    none_begins (by decide +kernel), rfl⟩, Transition.Along.cons rfl ?_ trivial, rfl, fun h => ?_⟩
  · exact orderly_idle (by decide +kernel) (by decide +kernel) (by decide +kernel)
  · have hcontent := h.content (no_archives (by decide +kernel))
    revert hcontent
    decide +kernel

/-- With a slash in the name every archive gets the index 1. -/
theorem slash_overwrites : LosesOrder january1970 (fun b c => Orderly january1970 b c ∧ YearFits january1970 b c) (lit "d/a")
    tinyConfig emptyWorld [(writesAt 11 true, [97]), (writesAt 12 true, [98]), (writesAt 13 true, [99])] := by
  refine ⟨_, _, ⟨rfl, ⟨by decide, by decide, by decide⟩, fun _ => by decide, by decide +kernel, rfl,
    none_begins (by decide +kernel), rfl⟩,
    Transition.Along.cons rfl ?_ (Transition.Along.cons rfl ?_ (Transition.Along.cons rfl ?_ trivial)), rfl, fun h => ?_⟩
  · exact orderly_idle (by decide +kernel) (by decide +kernel) (by decide +kernel)
  · refine ⟨⟨by decide +kernel, by decide +kernel, fun _ => ⟨[], rfl, listed_empty (by decide +kernel), by decide +kernel, ?_⟩⟩,
      fun _ => ⟨by decide +kernel, by decide +kernel⟩⟩
    exact fits_uncleaned (by decide +kernel) (by decide +kernel) rfl
  · refine ⟨⟨by decide +kernel, by decide +kernel, fun _ => ⟨[], rfl, listed_empty (by decide +kernel), by decide +kernel, ?_⟩⟩,
      fun _ => ⟨by decide +kernel, by decide +kernel⟩⟩
    exact fits_uncleaned (by decide +kernel) (by decide +kernel) rfl
  · have hcontent := h.content (no_archives (by decide +kernel))
    revert hcontent
    decide +kernel

theorem year10000_range : (-2 ^ 31 : Int) ≤ 8100 ∧ (8100 : Int) + 1900 < 2 ^ 31 := by decide

/-- A January of the year 10000. -/
def january10000 (t : Int) : Tm := { january1970 t with year := 8100, year_range := year10000_range }

/-- The recognizer does not know the name of an archive whose year takes five characters. -/
theorem long_year_unknown : LosesOrder january10000 (Orderly january10000) (lit "a") tinyConfig emptyWorld
    [(writesAt 11 true, [97]), (writesListed 12, [98])] := by
  refine ⟨_, _, ⟨rfl, ⟨by decide, by decide, by decide⟩, fun _ => by decide, by decide +kernel, rfl,
    none_begins (by decide +kernel), rfl⟩, Transition.Along.cons rfl ?_ (Transition.Along.cons rfl ?_ trivial), rfl, fun h => ?_⟩
  · exact (orderly_idle (by decide +kernel) (by decide +kernel) (by decide +kernel)).1
  · refine ⟨by decide +kernel, by decide +kernel, fun _ => ⟨[plainName], rfl, listed_of_keys (by decide +kernel),
      by decide +kernel, ?_⟩⟩
    exact fits_uncleaned (by decide +kernel) (by decide +kernel) rfl
  · have hcontent := h.content (no_archives (by decide +kernel))
    revert hcontent
    decide +kernel

/-- Each of the three is needed: an active file without a line, a name without a slash, and years of four characters. -/
theorem rotation_loses_order :
    (LosesOrder january1970 (fun b c => Orderly january1970 b c ∧ YearFits january1970 b c) (lit "a") dailyConfig foundWorld
      [(writesAt 12 true, [97])]) ∧
    (LosesOrder january1970 (fun b c => Orderly january1970 b c ∧ YearFits january1970 b c) (lit "d/a") tinyConfig emptyWorld
      [(writesAt 11 true, [97]), (writesAt 12 true, [98]), (writesAt 13 true, [99])]) ∧
    LosesOrder january10000 (Orderly january10000) (lit "a") tinyConfig emptyWorld
      [(writesAt 11 true, [97]), (writesListed 12, [98])] :=
  ⟨found_line_first, slash_overwrites, long_year_unknown⟩

end HxClog
