import HxClog.RotationOrder

/-!
# What retention keeps over a run

With a limit on the archives, a library built without zlib keeps the newest of them at each
rotation. The archives in the order of their keys, and the active file behind them, hold
the last of the lines that were written, in their order, and lines are missing only where
as many archives stand as the limit allows.
-/

namespace HxClog

open C Posix Scan Sweep

variable {localtime : Int → Tm}

/-- A limit on the number of archives, and none on their age. -/
structure Capped (N : Nat) (cfg : FileConfig) : Prop where
  pos : 0 < N
  files : cfg.maxBackupFiles = N
  days : cfg.maxBackupDays ≤ 0

/-! ## Plain archives -/

section
variable {fs fs' : FileSink} {n : FileName} {tm : Tm} {i : Int}

/-- An archive under the name of its date and index is not compressed. -/
theorem archive_plain (hn : n.bytes = archiveText fs.baseName.bytes tm i) (htm : tm.FourDigits) (h₀ : 0 ≤ i) (h : i < 2 ^ 31) :
    fs.plain n = true := by
  have hroom : (stemDot fs.stem).length < 256 := by
    have hlen := n.valid.2.2.2.2
    have hpos : 0 < ((tm.stamp i).text ++ dotExt fs.ext).length :=
      List.length_pos_of_mem (List.mem_append_left _ (dot_mem_stamp _))
    rw [hn, archiveText, List.length_append] at hlen
    unfold FileSink.stem
    unfold FileSink.ext at hpos
    omega
  unfold FileSink.plain FileSink.kind
  rw [pre_whole hroom, ext_whole, hn]
  exact decide_eq_true (archiveText_matches _ htm h₀ h)

/-- What the recognizer says of names is decided by the base name. -/
theorem same_kinds (hbase : fs'.baseName.bytes = fs.baseName.bytes) : fs'.plain = fs.plain ∧ fs'.archive = fs.archive ∧ fs'.key = fs.key := by
  refine ⟨funext fun n => ?_, funext fun n => ?_, funext fun n => ?_⟩
  · unfold FileSink.plain FileSink.kind collectInit
    rw [hbase]
  · unfold FileSink.archive FileSink.kind collectInit
    rw [hbase]
  · unfold FileSink.key collectInit
    rw [hbase]

end

/-! ## The shelf -/

/-- The newest archives of a history are those on the disk, `N` of them as soon as older ones are gone. -/
structure KeepsNewest (localtime : Int → Tm) (N : Nat) (b : Logbook) (xs : List Shelved) : Prop where
  kept : b.Kept localtime
  capped : Capped N b.sink.1.settings.1
  dir : b.sink.1.dir.bytes ≠ []
  base : slash ∉ b.sink.1.baseName.bytes
  room : (withSlash b.sink.1.dir.bytes ++ b.sink.1.baseName.bytes).length < pathMax
  found : b.found = []
  archives : ∃ gone, b.archives = gone ++ xs.map Shelved.archived ∧ (gone ≠ [] → xs.length = N)
  few : xs.length ≤ N
  stands : ∀ x ∈ xs, x.Stands b.sink.1 b.sink.2.disk
  order : xs.Pairwise fun x y => x.key < y.key
  past : ∀ x ∈ xs, x.date.dateNum ≤ (localtime b.sink.1.openedSec).dateNum
  all : ∀ n, b.sink.1.archive n = true → (b.sink.2.disk.lookup (b.sink.1.path n)).isSome = true → ∃ x ∈ xs, x.name = n

/-- The same shelf, as that of a sink without limits that has made no other archives. -/
def Logbook.unlimited (b : Logbook) (xs : List Shelved) : Logbook :=
  { b with
    sink := ({ b.sink.1 with maxBackupFiles := 0, maxCompressedFiles := 0 }, b.sink.2)
    archives := xs.map Shelved.archived }

section
variable {N : Nat} {b b' : Logbook} {c : Writing × Bytes} {xs : List Shelved}

theorem KeepsNewest.unlimited (h : KeepsNewest localtime N b xs) : OnShelf localtime (b.unlimited xs) xs where
  kept := by
    refine ⟨⟨h.kept.home.flat, h.kept.home.dir, h.kept.home.path, h.kept.home.fp, h.kept.home.year, h.kept.home.yday,
      h.kept.home.failSec⟩, h.kept.size, h.kept.text, fun a ha => h.kept.archived a ?_⟩
    obtain ⟨gone, hgone, -⟩ := h.archives
    rw [hgone]
    exact List.mem_append_right _ ha
  suited := ⟨⟨le_refl _, h.capped.days, le_refl _⟩, h.dir, h.base, h.room⟩
  found := h.found
  archives := rfl
  stands := fun x hx => (h.stands x hx).kept rfl rfl rfl
  order := h.order
  past := h.past
  all := h.all

theorem KeepsNewest.active (h : KeepsNewest localtime N b xs) : ∃ p f, resolve b.sink.1.activePath.bytes = some p ∧
    b.sink.2.disk.lookup p = some f ∧ f.content = textOf b.lines := h.unlimited.active

theorem KeepsNewest.active_apart (h : KeepsNewest localtime N b xs) {p : Path} (hp : resolve b.sink.1.activePath.bytes = some p)
    {n : FileName} (hn : b.sink.1.archive n = true) : b.sink.1.path n ≠ p := h.unlimited.active_apart hp hn

theorem Orderly.unlimited (hc : Orderly localtime b c) : Orderly localtime (b.unlimited xs) c := by
  refine ⟨hc.opened, hc.reopens, fun hd => ?_⟩
  obtain ⟨names, hlist, hall, hindex, hfit⟩ := hc.rotates hd
  exact ⟨names, hlist, hall, hindex, hfit.active, hfit.target, hfit.cleaned⟩

/-- The cleanup behind a rotation finds the directory listed, with the new archive in it, and all that it does succeeds. -/
def Tidied (localtime : Int → Tm) (b : Logbook) (c : Writing × Bytes) : Prop :=
  b.sink.1.due localtime c.1.rotating.now c.2.length.toUInt32 = true →
    ∃ names, c.1.rotating.cleaning.listing = some names ∧ names.Nodup ∧
      (∀ n, n ∈ names ↔ (b.sink.2.disk.lookup (b.sink.1.path n)).isSome = true ∨
        resolve (archiveTarget b.sink.1 (b.archiveDate localtime c) c.1.rotating.listing) = some (b.sink.1.path n)) ∧
      c.1.rotating.cleaning.zlib = none ∧ AllSucceed b.sink.1 c.1.rotating.cleaning names ∧
      ∀ n ∈ names, b.sink.1.archive n = true → b.sink.1.activeDir.bytes.length + 1 + n.bytes.length + 3 < pathMax

end

/-! ## The disk behind a rotation -/

/-- The active file is at its target and a new one in its place; then cleanup works on the directory. -/
structure Moves (localtime : Int → Tm) (s : FileSink × World) (wr : Writing) (data : Bytes) (p q : Path) (f : File)
    (fs : FileSink) (w : World) : Prop where
  home : Home localtime fs
  settings : fs.settings = s.1.settings
  target : resolve (archiveTarget s.1 (s.1.archiveDate localtime wr.rotating.now) wr.rotating.listing) = some q
  active : s.2.disk.lookup p = some f
  reopened : (w.disk.lookup p).isSome = true
  moved : ∀ r, r ≠ p → w.disk.lookup r = if r = q then some f else s.2.disk.lookup r
  cleaned : ∀ r, r ≠ p → ((FileCall.write wr data).run localtime s).2.2.disk.lookup r =
    (hxRotateCleanup wr.rotating.cleaning fs w).disk.lookup r

theorem write_cleans {s : FileSink × World} {wr : Writing} {data : Bytes} {p : Path} (hh : Home localtime s.1)
    (hs : (FileCall.write wr data).Succeeds localtime s)
    (hd : s.1.due localtime wr.rotating.now data.length.toUInt32 = true) (hp : resolve s.1.activePath.bytes = some p) :
    ∃ q f fs w, Moves localtime s wr data p q f fs w := by
  obtain ⟨t, harchive, hrun⟩ := write_archives hh.flat hs hd
  obtain ⟨hhome, hset, -⟩ := archive_home hh harchive
  obtain ⟨hren, p', w₁, hp', hdisk, hfs, hw⟩ := archive_disk harchive hs.2.2.2.1
  rw [hh.pathAt, hp] at hp'
  cases hp'
  obtain ⟨p', q, f, hp', hq, hf, hmoved⟩ := rename_ok hren
  rw [hp] at hp'
  cases hp'
  have hok := hs.1
  rw [hrun] at hok
  obtain ⟨p', hp', heq⟩ := fwrite_ok hok
  have hfp : t.1.fp = some p := by
    rw [hfs]
    rfl
  rw [hfp] at hp'
  cases hp'
  refine ⟨q, f, t.1, w₁, hhome, hset, hq, hf, ?_, fun r hr => ?_, fun r hr => ?_⟩
  · obtain ⟨g, hg, -⟩ := touched_lookup ((s.2.disk.erase p).insert q f) p wr.rotating.opening.now
    rw [hdisk, hmoved, hg]
    rfl
  · rw [hdisk, hmoved, touched_lookup_ne _ hr]
    by_cases hrq : r = q
    · rw [if_pos hrq, hrq, Finmap.lookup_insert]
    · rw [if_neg hrq, Finmap.lookup_insert_of_ne _ hrq, Finmap.lookup_erase_ne hr]
  · rw [hrun, heq, ← hw]
    exact append_lookup_ne _ hr _ _

/-! ## What cleanup leaves of a shelf -/

/-- A shelf as a directory holds it: all its archives, in the order of their keys. -/
structure Shelf (fs : FileSink) (d : Disk) (zs : List Shelved) : Prop where
  stands : ∀ z ∈ zs, z.Stands fs d
  order : zs.Pairwise fun y z => y.key < z.key
  all : ∀ n, fs.archive n = true → (d.lookup (fs.path n)).isSome = true → ∃ z ∈ zs, z.name = n

section
variable {N : Nat} {fs : FileSink} {env : Cleaning} {w : World} {names : List FileName} {zs : List Shelved}

theorem Shelved.Stands.plain {d : Disk} {z : Shelved} (h : z.Stands fs d) : fs.plain z.name = true :=
  archive_plain h.name h.year h.first (h.last.trans (by decide))

theorem remaining_young (hdays : fs.maxBackupDays ≤ 0) (d : Disk) : remaining fs env d names = names.filter fs.archive := by
  unfold remaining FileSink.young FileSink.aged
  refine List.filter_eq_self.mpr fun n _ => ?_
  simp [not_lt.mpr hdays]

/-- The plain archives are those of the shelf. -/
theorem Shelf.plains (h : Shelf fs w.disk zs) (env : Cleaning) (hdays : fs.maxBackupDays ≤ 0) (hd : Directory fs w.disk names) :
    (plains fs env w.disk names).Perm (zs.map Shelved.name) := by
  unfold HxClog.plains
  rw [remaining_young hdays]
  have hnodup : (zs.map Shelved.name).Nodup := by
    rw [List.nodup_iff_pairwise_ne, List.pairwise_map]
    refine h.order.imp_of_mem fun {y z} hy hz hlt he => ?_
    rw [← (h.stands y hy).known.2, ← (h.stands z hz).known.2, he] at hlt
    exact lt_irrefl _ hlt
  refine (List.perm_ext_iff_of_nodup ((hd.nodup.filter _).filter _) hnodup).mpr fun n => ?_
  rw [List.mem_filter, List.mem_filter, hd.listed, ← Finmap.lookup_isSome, List.mem_map]
  constructor
  · rintro ⟨⟨hthere, harch⟩, -⟩
    exact h.all n harch hthere
  · rintro ⟨z, hz, rfl⟩
    exact ⟨⟨(h.stands z hz).there, (h.stands z hz).known.1⟩, (h.stands z hz).plain⟩

/-- An archive of the shelf is among the newest names when it is among the newest of the shelf. -/
theorem Shelf.isNewest (h : Shelf fs w.disk zs) {z : Shelved} (hz : z ∈ zs) {ns : List FileName}
    (hperm : ns.Perm (zs.map Shelved.name)) : IsNewest fs.key N ns z.name = true ↔ z ∈ newest N zs := by
  have hrank : ((zs.map Shelved.name).filter (fs.key z.name < fs.key ·)).length = (zs.filter (z.key < Shelved.key ·)).length := by
    rw [List.filter_map, List.length_map]
    refine congrArg List.length (List.filter_congr fun y hy => ?_)
    simp only [Function.comp, (h.stands z hz).known.2, (h.stands y hy).known.2]
  rw [isNewest_perm hperm, mem_newest_iff h.order, IsNewest, hrank]
  simp [hz]

/-- Cleanup leaves the newest of the shelf, as they are, and no other archive. -/
theorem Shelf.cleaned (h : Shelf fs w.disk zs) (hc : Capped N fs.settings.1) (hd : Directory fs w.disk names)
    (hlist : env.listing = some names) (hz : env.zlib = none) (hok : AllSucceed fs env names) :
    (∀ z ∈ newest N zs, (hxRotateCleanup env fs w).disk.lookup (fs.path z.name) = w.disk.lookup (fs.path z.name)) ∧
    ∀ n, fs.archive n = true → ((hxRotateCleanup env fs w).disk.lookup (fs.path n)).isSome = true →
      ∃ z ∈ newest N zs, z.name = n := by
  have hright := cleanup_keeps_right_set env w hd hlist hok
  have hdays : fs.maxBackupDays ≤ 0 := hc.days
  have hperm := h.plains env hdays hd
  have hstays : ∀ z ∈ zs, staysPlain fs env w.disk names z.name = true ↔ z ∈ newest N zs := by
    intro z hz'
    rw [← h.isNewest hz' hperm, staysPlain, show fs.maxBackupFiles = N from hc.files]
    simp [hc.pos.ne']
  have hplain : ∀ z ∈ zs, z.name ∈ HxClog.plains fs env w.disk names := fun z hz' =>
    hperm.symm.subset (List.mem_map_of_mem hz')
  refine ⟨fun z hz' => ?_, fun n hn hthere => ?_⟩
  · have hmem : z ∈ zs := List.mem_of_mem_drop hz'
    rw [hright.plain z.name (hplain z hmem), if_pos ((hstays z hmem).mpr hz')]
  · by_cases hin : n ∈ names
    · obtain ⟨z, hz', rfl⟩ := h.all n hn (Finmap.lookup_isSome.mpr ((hd.listed n).mp hin))
      refine ⟨z, ?_, rfl⟩
      by_contra hnot
      rw [hright.plain z.name (hplain z hz'), if_neg fun hs => hnot ((hstays z hz').mp hs)] at hthere
      cases hthere
    · rw [hright.nothing_else n hn hin (fun m _ hsome => by rw [hz] at hsome; cases hsome)] at hthere
      cases hthere

end

/-! ## Rotations -/

section
variable {N : Nat} {b b' : Logbook} {c : Writing × Bytes} {xs : List Shelved}

/-- The archive that a rotation makes, as the directory has it before the cleanup. -/
structure NewArchive (localtime : Int → Tm) (b : Logbook) (c : Writing × Bytes) (xs : List Shelved) (p : Path) (x : Shelved)
    (fs : FileSink) (w : World) : Prop where
  moves : ∃ f, Moves localtime b.sink c.1 c.2 p (b.sink.1.path x.name) f fs w ∧ f.content = textOf x.archived.lines
  made : x.archived = b.archivedAs (archiveTarget b.sink.1 (b.archiveDate localtime c) c.1.rotating.listing)
  name : x.name.bytes = archiveText b.sink.1.baseName.bytes x.date x.index
  year : x.date.FourDigits
  first : 0 ≤ x.index
  last : x.index < 10 ^ 8
  date : x.date = b.archiveDate localtime c
  above : ∀ y ∈ xs, y.key < x.key

theorem KeepsNewest.newArchive (h : KeepsNewest localtime N b xs) (hc : Orderly localtime b c) (hy : YearFits localtime b c)
    (hs : (FileCall.write c.1 c.2).Succeeds localtime b.sink)
    (hd : b.sink.1.due localtime c.1.rotating.now c.2.length.toUInt32 = true) {p : Path}
    (hp : resolve b.sink.1.activePath.bytes = some p) : ∃ x fs w, NewArchive localtime b c xs p x fs w := by
  obtain ⟨q, f, fs, w, hm⟩ := write_cleans h.kept.home hs hd hp
  obtain ⟨names, hlist, hall, hindex, hfit⟩ := hc.rotates hd
  obtain ⟨n, rfl, hn⟩ := hfit.entry (h.kept.home.dir ▸ h.dir) h.base hm.target
  have hlarge := largestIndex_range b.sink.1 (b.archiveDate localtime c) names
  have hnext : b.sink.1.nextIndex (b.archiveDate localtime c) c.1.rotating.listing =
      b.sink.1.largestIndex (b.archiveDate localtime c) names + 1 := by
    unfold FileSink.nextIndex
    rw [hlist]
    show Int.bmod (b.sink.1.largestIndex (b.archiveDate localtime c) names + 1) (2 ^ 32) = _
    exact Int.bmod_eq_of_le (by omega) (by omega)
  have hpos : 0 ≤ b.sink.1.largestIndex (b.archiveDate localtime c) names + 1 := by omega
  rw [hnext] at hn
  obtain ⟨p', g, hp', hg, hcontent⟩ := h.active
  have hpp : p' = p := Option.some.inj (hp'.symm.trans hp)
  subst hpp
  have hfg : g = f := Option.some.inj (hg.symm.trans hm.active)
  subst hfg
  exact ⟨⟨b.archivedAs (archiveTarget b.sink.1 (b.archiveDate localtime c) c.1.rotating.listing), n,
    b.archiveDate localtime c, b.sink.1.largestIndex (b.archiveDate localtime c) names + 1⟩, fs, w,
    ⟨g, hm, hcontent⟩, rfl, hn, hy hd, hpos, hindex, rfl, fun y hy' => h.unlimited.next_above hc.unlimited hall hy'⟩

/-- With the new archive the shelf goes on, for the sink that has reopened its file. -/
theorem NewArchive.shelf {p : Path} {x : Shelved} {fs : FileSink} {w : World} (h : KeepsNewest localtime N b xs)
    (hx : NewArchive localtime b c xs p x fs w) (hp : resolve b.sink.1.activePath.bytes = some p) :
    Shelf fs w.disk (xs ++ [x]) := by
  obtain ⟨f, hm, hcontent⟩ := hx.moves
  obtain ⟨hbase, hpath, harchive⟩ := same_names h.kept.home hm.home hm.settings
  have hknown : b.sink.1.archive x.name = true := (archive_known hx.name hx.year hx.first (hx.last.trans (by decide))).1
  have hthere : w.disk.lookup (b.sink.1.path x.name) = some f := by
    rw [hm.moved _ (h.active_apart hp hknown), if_pos rfl]
  have hother : ∀ n, b.sink.1.archive n = true → n ≠ x.name →
      w.disk.lookup (b.sink.1.path n) = b.sink.2.disk.lookup (b.sink.1.path n) := by
    intro n hn hne
    rw [hm.moved _ (h.active_apart hp hn), if_neg fun he => hne (FileSink.path_inj he)]
  have hne : ∀ y ∈ xs, y.name ≠ x.name := by
    intro y hy he
    have hkeys := hx.above y hy
    rw [← (h.stands y hy).known.2, he, (archive_known hx.name hx.year hx.first (hx.last.trans (by decide))).2] at hkeys
    exact lt_irrefl _ hkeys
  constructor
  · intro z hz
    rcases List.mem_append.mp hz with hz | hz
    · exact (h.stands z hz).kept hbase hpath (hother _ (h.stands z hz).known.1 (hne z hz))
    · rw [List.mem_singleton] at hz
      subst hz
      refine ⟨hx.name.trans (by rw [hbase]), hx.year, hx.first, hx.last, ?_, ?_⟩
      · rw [hpath, hthere]
        rfl
      · unfold FileSink.contentOf
        rw [hpath, hthere]
        exact hcontent
  · rw [List.pairwise_append]
    refine ⟨h.order, List.pairwise_singleton _ _, fun y hy z hz => ?_⟩
    rw [List.mem_singleton] at hz
    subst hz
    exact hx.above y hy
  · intro n hn hlookup
    rw [harchive] at hn
    by_cases he : n = x.name
    · exact ⟨x, List.mem_append_right _ (List.mem_singleton_self _), he.symm⟩
    · rw [hpath, hother n hn he] at hlookup
      obtain ⟨y, hy, hyn⟩ := h.all n hn hlookup
      exact ⟨y, List.mem_append_left _ hy, hyn⟩

/-- The directory that the cleanup finds. -/
theorem NewArchive.directory {p : Path} {x : Shelved} {fs : FileSink} {w : World} {names : List FileName}
    (h : KeepsNewest localtime N b xs) (hx : NewArchive localtime b c xs p x fs w)
    (hp : resolve b.sink.1.activePath.bytes = some p) (hnodup : names.Nodup)
    (hlisted : ∀ n, n ∈ names ↔ (b.sink.2.disk.lookup (b.sink.1.path n)).isSome = true ∨
      resolve (archiveTarget b.sink.1 (b.archiveDate localtime c) c.1.rotating.listing) = some (b.sink.1.path n))
    (hfits : ∀ n ∈ names, b.sink.1.archive n = true → b.sink.1.activeDir.bytes.length + 1 + n.bytes.length + 3 < pathMax) :
    Directory fs w.disk names := by
  have hshelf := hx.shelf h hp
  obtain ⟨f, hm, -⟩ := hx.moves
  obtain ⟨hbase, hpath, harchive⟩ := same_names h.kept.home hm.home hm.settings
  have hdir : fs.activeDir.bytes = b.sink.1.activeDir.bytes := by
    rw [hm.home.dir, h.kept.home.dir]
    exact congrArg (fun s => s.2.1) hm.settings
  have hthere : ∀ n, n ∈ names ↔ (w.disk.lookup (fs.path n)).isSome = true := by
    intro n
    rw [hlisted, hpath]
    by_cases hn : b.sink.1.path n = p
    · rw [hn, hm.active]
      simp [hm.reopened]
    · have htarget : resolve (archiveTarget b.sink.1 (b.archiveDate localtime c) c.1.rotating.listing) =
          some (b.sink.1.path x.name) := hm.target
      rw [hm.moved _ hn, htarget]
      by_cases he : b.sink.1.path n = b.sink.1.path x.name
      · simp [he]
      · rw [if_neg he]
        simp [Ne.symm he]
  constructor
  · rw [hdir, h.kept.home.dir]
    exact h.dir
  · exact hnodup
  · intro n
    rw [hthere, Finmap.lookup_isSome]
  · intro n hn harch
    rw [hdir]
    exact hfits n hn (harchive ▸ harch)
  · intro n hn m hm' han ham hkey
    obtain ⟨y, hy, rfl⟩ := hshelf.all n han ((hthere n).mp hn)
    obtain ⟨z, hz, rfl⟩ := hshelf.all m ham ((hthere m).mp hm')
    rw [(hshelf.stands y hy).known.2, (hshelf.stands z hz).known.2] at hkey
    have hkeys : ((xs ++ [x]).map Shelved.key).Nodup := (List.pairwise_map.mpr hshelf.order).imp fun hlt => ne_of_lt hlt
    rw [List.inj_on_of_nodup_map hkeys hy hz hkey]

theorem AllSucceed.congr {fs fs' : FileSink} {env : Cleaning} {names : List FileName} (h : AllSucceed fs env names)
    (hplain : fs'.plain = fs.plain) (harchive : fs'.archive = fs.archive) : AllSucceed fs' env names where
  room := by
    rw [harchive]
    exact h.room
  removals := h.removals
  calls n hn hp := h.calls n hn (hplain ▸ hp)
  fits n hn hp := h.fits n hn (hplain ▸ hp)

/-- What a shelf loses at its old end is gone. -/
theorem newest_split {zs : List Shelved} {archives gone : List Archived} (h : archives = gone ++ xs.map Shelved.archived)
    (hfull : gone ≠ [] → xs.length = N) {x : Shelved} (hz : zs = xs ++ [x]) :
    ∃ gone', archives ++ [x.archived] = gone' ++ (newest N zs).map Shelved.archived ∧
      (gone' ≠ [] → (newest N zs).length = N) := by
  subst hz
  refine ⟨gone ++ ((xs ++ [x]).take ((xs ++ [x]).length - N)).map Shelved.archived, ?_, fun hne => ?_⟩
  · rw [h, newest, List.append_assoc, List.append_assoc, ← List.map_append, List.take_append_drop, List.map_append]
    rfl
  · rw [newest, List.length_drop]
    rw [List.length_append, List.length_singleton] at hne ⊢
    by_cases hgone : gone = []
    · have hlt : 0 < xs.length + 1 - N := by
        by_contra hzero
        apply hne
        rw [hgone, show xs.length + 1 - N = 0 by omega]
        rfl
      omega
    · have hlen := hfull hgone
      omega

/-- A write that rotates puts the file behind the archives, and the oldest may go. -/
theorem KeepsNewest.rotates (h : KeepsNewest localtime N b xs) (hc : Orderly localtime b c) (hy : YearFits localtime b c)
    (ht : Tidied localtime b c) (hs : b.write localtime c = some b') (hrotates : Logbook.Rotates localtime b b' c.1 c.2) :
    ∃ x, KeepsNewest localtime N b' (newest N (xs ++ [x])) := by
  obtain ⟨hkept, hset⟩ := Logbook.step_kept h.kept hs (hc.apart h.kept h.dir)
  obtain ⟨hok, hb⟩ := Logbook.step_some hs
  obtain ⟨hbase, hpath, harchive⟩ := same_names h.kept.home hkept.home hset
  obtain ⟨p, -, hp, -⟩ := h.active
  obtain ⟨x, fs, w, hx⟩ := h.newArchive hc hy hok hrotates.due hp
  obtain ⟨names, hlist, hnodup, hlisted, hzlib, hall, hfits⟩ := ht hrotates.due
  obtain ⟨f, hm, -⟩ := hx.moves
  obtain ⟨hbase', hpath', harchive'⟩ := same_names h.kept.home hm.home hm.settings
  have hshelf := hx.shelf h hp
  obtain ⟨hstays, honly⟩ := hshelf.cleaned (hm.settings ▸ h.capped) (hx.directory h hp hnodup hlisted hfits) hlist hzlib
    (hall.congr (same_kinds hbase').1 harchive')
  have hdisk : ∀ n, b.sink.1.archive n = true → b'.sink.2.disk.lookup (b.sink.1.path n) =
      (hxRotateCleanup c.1.rotating.cleaning fs w).disk.lookup (fs.path n) := by
    intro n hn
    rw [show b'.sink = ((FileCall.write c.1 c.2).run localtime b.sink).2 from congrArg Logbook.sink hb, hpath']
    exact hm.cleaned _ (h.active_apart hp hn)
  have hmem : ∀ z ∈ newest N (xs ++ [x]), z ∈ xs ++ [x] := fun z hz => List.mem_of_mem_drop hz
  obtain ⟨gone, harchives, hfull⟩ := h.archives
  obtain ⟨gone', hsplit, hfull'⟩ := newest_split (N := N) harchives hfull (x := x) rfl
  refine ⟨x, ?_⟩
  constructor
  · exact hkept
  · exact hset ▸ h.capped
  · rw [show b'.sink.1.dir.bytes = b.sink.1.dir.bytes from congrArg (fun s => s.2.1) hset]
    exact h.dir
  · rw [hbase]
    exact h.base
  · rw [hbase, show b'.sink.1.dir.bytes = b.sink.1.dir.bytes from congrArg (fun s => s.2.1) hset]
    exact h.room
  · exact hrotates.found
  · refine ⟨gone', ?_, hfull'⟩
    rw [hrotates.archives, ← hsplit, hx.made]
    rfl
  · rw [newest, List.length_drop]
    omega
  · intro z hz
    have hst := hshelf.stands z (hmem z hz)
    refine hst.kept (hbase.trans hbase'.symm) (hpath.trans hpath'.symm) ?_
    rw [hpath', hdisk z.name (harchive' ▸ hst.known.1), hstays z hz, hpath']
  · exact hshelf.order.sublist (List.drop_sublist _ _)
  · intro z hz
    rw [hrotates.opened]
    rcases List.mem_append.mp (hmem z hz) with hz | hz
    · exact (h.past z hz).trans (hc.opened.trans hc.reopens)
    · rw [List.mem_singleton] at hz
      subst hz
      rw [hx.date]
      exact (archiveDate_between hc).2.trans hc.reopens
  · intro n hn hthere
    rw [harchive] at hn
    rw [hpath, hdisk n hn] at hthere
    exact honly n (harchive' ▸ hn) hthere

/-- A write that does not rotate leaves the archives alone. -/
theorem KeepsNewest.stays (h : KeepsNewest localtime N b xs) (hc : Orderly localtime b c) (hs : b.write localtime c = some b')
    (hstays : Logbook.Stays localtime b b' c.1 c.2) : KeepsNewest localtime N b' xs := by
  obtain ⟨hkept, hset⟩ := Logbook.step_kept h.kept hs (hc.apart h.kept h.dir)
  obtain ⟨hok, hb⟩ := Logbook.step_some hs
  obtain ⟨hbase, hpath, harchive⟩ := same_names h.kept.home hkept.home hset
  obtain ⟨p, -, hp, -⟩ := h.active
  have hother : ∀ n : FileName, b.sink.1.archive n = true →
      b'.sink.2.disk.lookup (b.sink.1.path n) = b.sink.2.disk.lookup (b.sink.1.path n) := by
    intro n hn
    rw [show b'.sink = ((FileCall.write c.1 c.2).run localtime b.sink).2 from congrArg Logbook.sink hb]
    exact write_stays h.kept.home hok hstays.due hp (h.active_apart hp hn)
  have hdir : b'.sink.1.dir.bytes = b.sink.1.dir.bytes := congrArg (fun s => s.2.1) hset
  constructor
  · exact hkept
  · exact hset ▸ h.capped
  · rw [hdir]
    exact h.dir
  · rw [hbase]
    exact h.base
  · rw [hbase, hdir]
    exact h.room
  · exact hstays.found.trans h.found
  · rw [hstays.archives]
    exact h.archives
  · exact h.few
  · intro x hx
    exact (h.stands x hx).kept hbase hpath (hother _ (h.stands x hx).known.1)
  · exact h.order
  · intro x hx
    rw [hstays.opened]
    exact h.past x hx
  · intro n hn hthere
    rw [harchive] at hn
    rw [hpath, hother n hn] at hthere
    exact h.all n hn hthere

/-- What is asked of each write. -/
structure Regular (localtime : Int → Tm) (b : Logbook) (c : Writing × Bytes) : Prop where
  orderly : Orderly localtime b c
  year : YearFits localtime b c
  tidied : Tidied localtime b c

theorem newest_run {calls : List (Writing × Bytes)} (h : KeepsNewest localtime N b xs)
    (hc : Transition.Along (Logbook.write localtime) (Regular localtime) b calls)
    (hr : Transition.run (Logbook.write localtime) b calls = some b') :
    (∃ ys, KeepsNewest localtime N b' ys) ∧ b'.written = b.written ++ calls.map Prod.snd := by
  induction calls generalizing b xs with
  | nil =>
    cases hr
    exact ⟨⟨xs, h⟩, (List.append_nil _).symm⟩
  | cons c calls ih =>
    rw [Transition.run_cons] at hr
    obtain ⟨t, ht, hr⟩ := Option.bind_eq_some_iff.mp hr
    have hreg := hc.1
    obtain ⟨hcases, -⟩ := Logbook.write_cases h.kept.home ht (hreg.orderly.apart h.kept h.dir)
    have hwritten := written_write hcases
    obtain ⟨ys, hys⟩ : ∃ ys, KeepsNewest localtime N t ys := by
      rcases hcases with hstays | hrotates
      · exact ⟨xs, h.stays hreg.orderly ht hstays⟩
      · obtain ⟨x, hx⟩ := h.rotates hreg.orderly hreg.year hreg.tidied ht hrotates
        exact ⟨_, hx⟩
    obtain ⟨hshelf, hrest⟩ := ih hys (hc.2 t ht) hr
    refine ⟨hshelf, ?_⟩
    rw [hrest, hwritten, List.append_assoc]
    rfl

/-- A list of the archives in the order of their keys is that of the shelf. -/
theorem KeepsNewest.files_eq (h : KeepsNewest localtime N b xs) {files : List FileName}
    (hfiles : ArchivesInOrder b.sink.1 b.sink.2.disk files) : files = xs.map Shelved.name := by
  refine h.unlimited.files_eq ⟨hfiles.nodup, hfiles.mem, ?_⟩
  exact hfiles.order

end

/-! ## From a new file on -/

/-- What is asked of a sink, its directory and its settings before the first write: no daily folders, a limit on the number
of archives, a path that fits, and no file that begins with the stem and a dot. -/
structure CappedStart (localtime : Int → Tm) (N : Nat) (create : Creating) (dir fileName : Option Bytes) (cfg : FileConfig)
    (w : World) (s : FileSink × World) : Prop where
  flat : cfg.dateSubdir = false
  capped : Capped N cfg
  mkdir : create.mkdirOk = true → dir ≠ some []
  base : slash ∉ (newFileSink dir fileName (some cfg)).baseName.bytes
  room : (withSlash (newFileSink dir fileName (some cfg)).dir.bytes ++
    (newFileSink dir fileName (some cfg)).baseName.bytes).length < pathMax
  size : create.opening.sizeOk = true
  none : ∀ n : FileName, stemDot (newFileSink dir fileName (some cfg)).stem <+: n.bytes →
    w.disk.lookup ⟨dirKey (newFileSink dir fileName (some cfg)).dir.bytes, n⟩ = none
  empty : contentAt w.disk ((newFileSink dir fileName (some cfg)).pathAt localtime create.opening.now).bytes = []
  create : hxSinkFileCreate localtime create dir fileName (some cfg) w = some s

/-- The archives in the order of their keys, at most `N` of them, and the active file behind them hold the last of these
lines, in their order, and no line is in two files. Earlier lines are missing only where there are `N` archives. -/
def HoldsNewest (N : Nat) (s : FileSink × World) (lines : List Bytes) : Prop :=
  ∀ files, ArchivesInOrder s.1 s.2.disk files → files.length ≤ N ∧
    ∃ (older : List Bytes) (parts : List (List Bytes)), older ++ parts.flatten = lines ∧ (older ≠ [] → files.length = N) ∧
      files.map (s.1.contentOf s.2.disk) ++ [contentAt s.2.disk s.1.activePath.bytes] = parts.map List.flatten

section
variable {N : Nat} {create : Creating} {dir fileName : Option Bytes} {cfg : FileConfig} {w : World} {s : FileSink × World}

theorem CappedStart.shelf (h : CappedStart localtime N create dir fileName cfg w s) :
    KeepsNewest localtime N (.opened create.opening.now [] s) [] := by
  obtain ⟨hkept, hset, -⟩ := Logbook.created_kept h.create h.size h.empty h.flat
  have hsettings : s.1.settings.1 = cfg := congrArg Prod.fst hset
  have hdir : s.1.dir.bytes = (newFileSink dir fileName (some cfg)).dir.bytes := congrArg (fun s => s.2.1) hset
  have hname : s.1.baseName.bytes = (newFileSink dir fileName (some cfg)).baseName.bytes := congrArg (fun s => s.2.2) hset
  have hhome : Home localtime s.1 := hkept.home
  have hnamed : s.1.dir.bytes ≠ [] := (created_alive h.mkdir h.create).named.1
  have hroom : (withSlash s.1.dir.bytes ++ s.1.baseName.bytes).length < pathMax := by
    rw [hdir, hname]
    exact h.room
  obtain ⟨ho, -⟩ := Logbook.created_opened h.create h.size h.empty
  obtain ⟨p, f, hp, hdisk, -, -, hfs⟩ := open_spec ho h.size
  have hactive : resolve s.1.activePath.bytes = some p := by
    rw [← hhome.fp, hfs]
    rfl
  constructor
  · exact hkept
  · exact hsettings ▸ h.capped
  · exact hnamed
  · exact hname ▸ h.base
  · exact hroom
  · rfl
  · exact ⟨[], rfl, fun hne => absurd rfl hne⟩
  · exact Nat.zero_le _
  · intro x hx
    cases hx
  · exact List.Pairwise.nil
  · intro x hx
    cases hx
  · intro n hn hthere
    have hpath : s.1.path n = ⟨dirKey (newFileSink dir fileName (some cfg)).dir.bytes, n⟩ := by
      unfold FileSink.path
      rw [hhome.dir, hdir]
    have hne : s.1.path n ≠ p := by
      intro he
      have happart := hhome.apart hnamed hroom hactive (archive_dots hn)
      rw [hactive, resolve_join hnamed, ← he, hpath, hdir] at happart
      exact happart rfl
    have hbegins : stemDot (newFileSink dir fileName (some cfg)).stem <+: n.bytes := by
      have hstem := archive_begins hn
      unfold FileSink.stem at hstem ⊢
      rwa [← hname]
    rw [show (Logbook.opened create.opening.now [] s).sink = s from rfl, hdisk, touched_lookup_ne _ hne, hpath,
      h.none n hbegins] at hthere
    cases hthere

/-- A shelf that is kept to its newest archives holds the last lines. -/
theorem KeepsNewest.holds {b : Logbook} {xs : List Shelved} (h : KeepsNewest localtime N b xs) : HoldsNewest N b.sink b.written := by
  intro files hfiles
  obtain ⟨gone, hgone, hfull⟩ := h.archives
  have hactive : contentAt b.sink.2.disk b.sink.1.activePath.bytes = textOf b.lines := by
    obtain ⟨p, f, hp, hlookup, hcontent⟩ := h.active
    rw [contentAt_resolve hp, hlookup]
    exact hcontent
  have hcontents : files.map (b.sink.1.contentOf b.sink.2.disk) = xs.map fun x => textOf x.archived.lines := by
    rw [h.files_eq hfiles, List.map_map]
    exact List.map_congr_left fun x hx => (h.stands x hx).content
  have hlen : files.length = xs.length := by rw [h.files_eq hfiles, List.length_map]
  refine ⟨hlen ▸ h.few, (gone.flatMap Archived.lines).map Entry.line,
    xs.map (fun x => x.archived.lines.map Entry.line) ++ [b.lines.map Entry.line], ?_, fun hne => ?_, ?_⟩
  · unfold Logbook.written
    rw [hgone, List.flatten_append, List.flatten_singleton, List.flatMap_append, List.append_assoc, List.map_append,
      List.map_append, List.flatMap_map, List.map_flatMap (l := xs)]
    rfl
  · rw [hlen]
    refine hfull fun hnil => hne ?_
    rw [hnil]
    rfl
  · rw [hcontents, hactive, List.map_append, List.map_map, List.map_singleton]
    unfold textOf
    simp only [List.flatMap_def]
    rfl

/-- In every run that starts with a new file in such a directory, the newest archives and the active file hold the last lines. -/
theorem retention_keeps_newest {calls : List (Writing × Bytes)} {b : Logbook}
    (h : CappedStart localtime N create dir fileName cfg w s)
    (hcalls : Transition.Along (Logbook.write localtime) (Regular localtime) (.opened create.opening.now [] s) calls)
    (hr : Transition.run (Logbook.write localtime) (.opened create.opening.now [] s) calls = some b) :
    HoldsNewest N b.sink (calls.map Prod.snd) := by
  obtain ⟨⟨xs, hxs⟩, hwritten⟩ := newest_run h.shelf hcalls hr
  rw [show calls.map Prod.snd = b.written from hwritten.symm]
  exact hxs.holds

end

/-! ## A run that removes an archive -/

theorem tidied_names {b : Logbook} {c : Writing × Bytes} {names : List FileName}
    (hlist : c.1.rotating.cleaning.listing = some names) (hnodup : names.Nodup)
    (hmem : ∀ n ∈ names, (b.sink.2.disk.lookup (b.sink.1.path n)).isSome = true ∨
      resolve (archiveTarget b.sink.1 (b.archiveDate localtime c) c.1.rotating.listing) = some (b.sink.1.path n))
    (hkeys : ∀ p ∈ b.sink.2.disk.keys, p.name ∈ names)
    (htarget : ∀ q ∈ resolve (archiveTarget b.sink.1 (b.archiveDate localtime c) c.1.rotating.listing), q.name ∈ names)
    (hzlib : c.1.rotating.cleaning.zlib = none) (hok : AllSucceed b.sink.1 c.1.rotating.cleaning names)
    (hfits : ∀ n ∈ names, b.sink.1.archive n = true → b.sink.1.activeDir.bytes.length + 1 + n.bytes.length + 3 < pathMax) :
    Tidied localtime b c := by
  intro _
  refine ⟨names, hlist, hnodup, fun n => ⟨hmem n, ?_⟩, hzlib, hok, hfits⟩
  rintro (hthere | htar)
  · exact hkeys _ (Finmap.mem_keys.mpr (Finmap.lookup_isSome.mp hthere))
  · exact htarget _ htar

theorem regular_idle {b : Logbook} {c : Writing × Bytes}
    (hopened : (localtime b.sink.1.openedSec).dateNum ≤ (localtime c.1.rotating.now).dateNum)
    (hreopens : (localtime c.1.rotating.now).dateNum ≤ (localtime c.1.rotating.opening.now).dateNum)
    (hd : b.sink.1.due localtime c.1.rotating.now c.2.length.toUInt32 = false) : Regular localtime b c := by
  obtain ⟨horderly, hyear⟩ := orderly_idle hopened hreopens hd
  refine ⟨horderly, hyear, fun h => ?_⟩
  rw [hd] at h
  cases h

theorem firstArchive_valid : ValidName (lit "a.1970-01-01.1") := by decide

theorem secondArchive_valid : ValidName (lit "a.1970-01-01.2") := by decide

def firstArchive : FileName := ⟨lit "a.1970-01-01.1", firstArchive_valid⟩

def secondArchive : FileName := ⟨lit "a.1970-01-01.2", secondArchive_valid⟩

/-- A write at `now` that finds these names, and whose cleanup finds those. -/
def writesTidied (now : Int) (found left : List FileName) : Writing :=
  { writesAt now true with
    rotating := { rotatesAt now true with listing := some found, cleaning := { Cleaning.smooth left with zlib := none } } }

def oneBackup : FileConfig := { tinyConfig with maxBackupFiles := 1 }

theorem smooth_succeeds {fs : FileSink} {names : List FileName} (hroom : (names.filter fs.archive).length ≤ room fun _ => true)
    (hfits : ∀ n ∈ names, fs.plain n = true → n.bytes.length + 3 ≤ 255) :
    AllSucceed fs { Cleaning.smooth names with zlib := none } names where
  room := hroom
  removals _ := ⟨rfl, rfl⟩
  calls _ _ _ := ⟨rfl, rfl, fun _ => ⟨rfl, rfl⟩, rfl, rfl⟩
  fits := hfits

/-- Of three lines the first is removed with its archive. -/
theorem retention_keeps_newest_one : ∃ s b,
    CappedStart january1970 1 dailyCreate (some (lit "l")) (some (lit "a")) oneBackup emptyWorld s ∧
    Transition.run (Logbook.write january1970) (.opened 10 [] s) [(writesAt 11 true, [97]),
      (writesTidied 12 [plainName] [plainName, firstArchive], [98]),
      (writesTidied 13 [plainName, firstArchive] [plainName, firstArchive, secondArchive], [99])] = some b ∧
    b.sink.2.disk.lookup (b.sink.1.path firstArchive) = none ∧ HoldsNewest 1 b.sink [[97], [98], [99]] := by
  have hstart : CappedStart january1970 1 dailyCreate (some (lit "l")) (some (lit "a")) oneBackup emptyWorld _ :=
    ⟨rfl, ⟨by decide, rfl, by decide⟩, fun _ => by decide, by decide +kernel, by decide +kernel, rfl,
      none_begins (by decide +kernel), by decide +kernel, rfl⟩
  refine ⟨_, _, hstart, rfl, by decide +kernel, @retention_keeps_newest january1970 1 dailyCreate (some (lit "l"))
    (some (lit "a")) oneBackup emptyWorld _ [(writesAt 11 true, [97]),
      (writesTidied 12 [plainName] [plainName, firstArchive], [98]),
      (writesTidied 13 [plainName, firstArchive] [plainName, firstArchive, secondArchive], [99])] _ hstart
    (Transition.Along.cons rfl ?_ (Transition.Along.cons rfl ?_ (Transition.Along.cons rfl ?_ trivial))) rfl⟩
  · exact regular_idle (by decide +kernel) (by decide +kernel) (by decide +kernel)
  · refine ⟨⟨by decide +kernel, by decide +kernel, fun _ => ⟨[plainName], rfl, listed_of_keys (by decide +kernel),
      by decide +kernel, ⟨by decide +kernel, by decide +kernel, ?_⟩⟩⟩, fun _ => ⟨by decide +kernel, by decide +kernel⟩,
      tidied_names rfl (by decide +kernel) (by decide +kernel) (by decide +kernel) (by decide +kernel) rfl
        (smooth_succeeds (by decide +kernel) (by decide +kernel)) (by decide +kernel)⟩
    intro names hn
    cases hn
    decide +kernel
  · refine ⟨⟨by decide +kernel, by decide +kernel, fun _ => ⟨[plainName, firstArchive], rfl, listed_of_keys (by decide +kernel),
      by decide +kernel, ⟨by decide +kernel, by decide +kernel, ?_⟩⟩⟩, fun _ => ⟨by decide +kernel, by decide +kernel⟩,
      tidied_names rfl (by decide +kernel) (by decide +kernel) (by decide +kernel) (by decide +kernel) rfl
        (smooth_succeeds (by decide +kernel) (by decide +kernel)) (by decide +kernel)⟩
    intro names hn
    cases hn
    decide +kernel

end HxClog
