/-
# Archive index and archive reader

`GetFromStore` looks a file up in the configured zip archives. It asks
`MapFileToArchive` which archive should hold the file, reads that archive, and
on a miss walks the archive list with an iterator that the index lookup never
advanced: the walk starts again at the first archive. Opened archives are kept
in the shared `zipfile_cache`.

The model keeps that iterator exactly. Over it, `getFromStoreResult` says what a
lookup returns once every cached handle is the one the file system opens, and
`getFromStore_sat` proves the program returns it on every run that keeps the
handle cache consistent. The index is then compared with a plain linear scan.
-/

import MemcacheZipserve.Compare
import MemcacheZipserve.Prog

namespace MemcacheZipserve

/-- One entry of `zipfilenames` as `create_handler` leaves it: the archive's file
name, and optionally the first member it holds. -/
structure ArchiveEntry where
  name : Str
  firstPath : Option Str
  deriving DecidableEq

/-- A configured handler and its external collaborators. `openZip` is
`zipfile.ZipFile`, `none` for the `IOError` or `RuntimeError` that `LoadZipFile`
logs and swallows; `guessType` is `mimetypes.guess_type`. `create_handler`
refuses an empty archive list. -/
structure Site where
  zipfilenames : List ArchiveEntry
  zipfilenames_ne_nil : zipfilenames ≠ []
  openZip : Str → Option Archive
  guessType : Str → Option Str

/-! ### `create_handler` -/

/-- An item of the `zip_files` argument of `create_handler`: a file name, or a
list of a file name and the first member of the archive. -/
inductive ZipFilesItem
  | name (zipfilename : Str)
  | list (items : List Str)
  deriving DecidableEq

/-- The item as a list: a file name is the list of itself. -/
def ZipFilesItem.toList : ZipFilesItem → List Str
  | .name zipfilename => [zipfilename]
  | .list items => items

/-- The body of `create_handler`'s loop at index `i`: an item that is not a
list becomes the one-element list of itself, in place. -/
def wrapItem (zipFiles : List ZipFilesItem) (i : Nat) : List ZipFilesItem :=
  match zipFiles[i]? with
  | some (.name zipfilename) => zipFiles.set i (.list [zipfilename])
  | _ => zipFiles

/-- The loop `while num_items > 0`, from the last item down. -/
def normalizeZipFiles : Nat → List ZipFilesItem → List ZipFilesItem
  | 0, zipFiles => zipFiles
  | numItems + 1, zipFiles => normalizeZipFiles numItems (wrapItem zipFiles numItems)

/-- `create_handler`: the `ValueError` for an empty argument, and otherwise the
list of lists the handler's `zipfilenames` is. -/
def createHandler (zipFiles : List ZipFilesItem) : Except PyError (List ZipFilesItem) :=
  if zipFiles = [] then .error .valueError
  else .ok (normalizeZipFiles zipFiles.length zipFiles)

theorem getElem?_wrapItem (zipFiles : List ZipFilesItem) (i j : Nat) :
    (wrapItem zipFiles i)[j]? =
      zipFiles[j]?.map fun item => if j = i then .list item.toList else item := by
  unfold wrapItem
  split
  · next zipfilename hi =>
      rw [List.getElem?_set]
      by_cases hj : j = i
      · subst hj
        simp [hi, (List.getElem?_eq_some_iff.mp hi).1, ZipFilesItem.toList]
      · simp [Ne.symm hj, hj]
  · next hi =>
      rcases hz : zipFiles[j]? with _ | item
      · rfl
      · by_cases hj : j = i
        · subst hj
          cases item with
          | name zipfilename => exact absurd hz (hi zipfilename)
          | list items => simp [ZipFilesItem.toList]
        · simp [hj]

/-- The loop run for `k` rounds has wrapped exactly the items below `k`. -/
theorem getElem?_normalizeZipFiles (k : Nat) (zipFiles : List ZipFilesItem) (j : Nat) :
    (normalizeZipFiles k zipFiles)[j]? =
      zipFiles[j]?.map fun item => if j < k then .list item.toList else item := by
  induction k generalizing zipFiles with
  | zero => simp [normalizeZipFiles]
  | succ k ih =>
      rw [normalizeZipFiles, ih, getElem?_wrapItem, Option.map_map]
      congr 1
      funext item
      by_cases hj : j = k
      · subst hj
        cases item <;> simp [ZipFilesItem.toList]
      · by_cases hk : j < k
        · simp [hj, hk, Nat.lt_succ_of_lt hk]
        · simp [hj, hk, show ¬j < k + 1 by omega]

/-- `create_handler` refuses exactly the empty argument, and its in-place loop
from the last item down is a plain map: every file name becomes the
one-element list of itself, and every list is kept. -/
theorem createHandler_eq (zipFiles : List ZipFilesItem) :
    createHandler zipFiles = if zipFiles = [] then .error .valueError
      else .ok (zipFiles.map fun item => .list item.toList) := by
  unfold createHandler
  split
  · rfl
  · refine congrArg Except.ok (List.ext_getElem? fun j => ?_)
    rw [getElem?_normalizeZipFiles, List.getElem?_map]
    rcases hz : zipFiles[j]? with _ | item
    · rfl
    · simp [(List.getElem?_eq_some_iff.mp hz).1]

example : createHandler [.name "a.zip".toList, .list ["b.zip".toList, "b/index.html".toList]] =
    .ok [.list ["a.zip".toList], .list ["b.zip".toList, "b/index.html".toList]] := rfl

/-! ### The program -/

/-- `MapFileToArchive`: the name of the last archive whose declared first path
is at or before the file; `some none` is the source's `None` and `none` the
`IndexError` of `CompareFilenames`. The loop runs from the last entry down, so
the entries after `target` are consulted first. -/
def mapFileToArchive (filePath : Str) : List ArchiveEntry → Option (Option Str)
  | [] => some none
  | target :: later =>
      match mapFileToArchive filePath later with
      | some none =>
          match target.firstPath with
          | none => some none
          | some first =>
              (compareFilenames first filePath).map fun c =>
                if 0 ≤ c then some target.name else none
      | result => result

/-- `self.zipfile_cache.get(name)` -/
def zipfileGet (name : Str) : Prog (Option Archive) := .call (.zipfileGet name) .pure

/-- `self.zipfile_cache[name] = archive` -/
def zipfileSet (name : Str) (archive : Archive) : Prog Unit :=
  .call (.zipfileSet name archive) .pure

/-- `LoadZipFile`: the cached archive, or the archive opened now and cached. -/
def loadZipFile (site : Site) (name : Str) : Prog (Option Archive) := do
  match ← zipfileGet name with
  | some archive => pure (some archive)
  | none =>
      match site.openZip name with
      | some archive => do zipfileSet name archive; pure (some archive)
      | none => pure none

/-- One pass of the `while` loop's body: load the archive and read the file from
it; a failed load or a missing member leaves `resp_data` at `None`. -/
def readArchive (site : Site) (filePath archiveName : Str) : Prog (Option Str) := do
  let archive ← loadZipFile site archiveName
  pure (archive.bind (·.read filePath))

/-- The `while` loop of `GetFromStore`: `archiveName` is the archive read next
and the list what `file_itr` has not yielded. The loop stops at the first archive
that holds the file, at an empty (false) archive name, or when the iterator
runs out (`StopIteration` sets `archive_name = False`). -/
def readArchives (site : Site) (filePath : Str) : Str → List ArchiveEntry → Prog (Option Str)
  | archiveName, [] => if archiveName = [] then pure none else readArchive site filePath archiveName
  | archiveName, next :: rest =>
      if archiveName = [] then pure none
      else do
        match ← readArchive site filePath archiveName with
        | some data => pure (some data)
        | none => readArchives site filePath next.name rest

/-- Where the loop of `GetFromStore` starts: the archive it reads first and the
entries left in `file_itr`, or the exception raised before. A false index answer
takes the first archive from `file_itr`; a true one leaves the iterator at the
start, so after a miss in the indexed archive the loop reads every archive. -/
def loopStart (site : Site) (filePath : Str) : Except PyError (Str × List ArchiveEntry) :=
  match mapFileToArchive filePath site.zipfilenames with
  | none => .error .indexError
  | some mapped =>
      match mapped.filter (· ≠ []), site.zipfilenames with
      | some name, entries => .ok (name, entries)
      | none, [] => .error .stopIteration
      | none, first :: rest => .ok (first.name, rest)

/-- `GetFromStore` -/
def getFromStore (site : Site) (filePath : Str) : Prog (Option Str) :=
  match loopStart site filePath with
  | .error e => .raise e
  | .ok (name, rest) => readArchives site filePath name rest

/-! ### What a lookup returns -/

/-- The contents of `filePath` in the archive the file system opens under
`name`, if it opens and holds the file. -/
def readStore (site : Site) (filePath name : Str) : Option Str :=
  (site.openZip name).bind (·.read filePath)

/-- The contents from the first of `names` that holds the file, stopping at an
empty name as the loop does. -/
def firstHolding (site : Site) (filePath : Str) : List Str → Option Str
  | [] => none
  | name :: names =>
      if name = [] then none
      else
        match readStore site filePath name with
        | some data => some data
        | none => firstHolding site filePath names

/-- What `GetFromStore` returns when every handle is the one the file system
opens; `none` when it raises. -/
def getFromStoreResult (site : Site) (filePath : Str) : Option (Option Str) :=
  match loopStart site filePath with
  | .error _ => none
  | .ok (name, rest) => some (firstHolding site filePath (name :: rest.map (·.name)))

/-- The handle cache holds only archives as the file system opens them. -/
def ZipfilesConsistent (site : Site) (w : World) : Prop :=
  ∀ name archive, w.zipfileCache name = some archive → site.openZip name = some archive

/-- The discipline of a site: the handle cache answers, and is given, only
archives the file system opens; memcache calls are allowed as `cacheOk` says. -/
def siteDiscipline (site : Site) (cacheOk : Op → Prop) : Discipline where
  allowed
    | .zipfileGet _ => True
    | .zipfileSet name archive => site.openZip name = some archive
    | op => cacheOk op
  admissible
    | .zipfileGet name => fun r => ∀ a, r = some a → site.openZip name = some a
    | _ => fun _ => True

@[simp] theorem siteDiscipline_zipfileSet {site : Site} {cacheOk : Op → Prop} {name : Str}
    {archive : Archive} :
    (siteDiscipline site cacheOk).allowed (.zipfileSet name archive) ↔
      site.openZip name = some archive := Iff.rfl

@[simp] theorem siteDiscipline_zipfileGet {site : Site} {cacheOk : Op → Prop} {name : Str}
    {r : Option Archive} :
    (siteDiscipline site cacheOk).admissible (.zipfileGet name) r ↔
      ∀ a, r = some a → site.openZip name = some a := Iff.rfl

section Refinement

variable {site : Site} {cacheOk : Op → Prop} {filePath : Str}

theorem loadZipFile_sat (name : Str) :
    (loadZipFile site name).Sat (siteDiscipline site cacheOk) (· = site.openZip name) := by
  refine ⟨trivial, fun r hr => ?_⟩
  cases r with
  | some archive => exact (hr archive rfl).symm
  | none =>
      cases hopen : site.openZip name with
      | none => rfl
      | some archive => exact ⟨hopen, fun _ _ => rfl⟩

theorem readArchive_sat (name : Str) :
    (readArchive site filePath name).Sat (siteDiscipline site cacheOk)
      (· = readStore site filePath name) :=
  Prog.Sat.bind ((loadZipFile_sat name).mono fun _ h => by simp [h, readStore])

/-- The loop returns the contents from the first archive it reaches that holds
the file. -/
theorem readArchives_sat (name : Str) (rest : List ArchiveEntry) :
    (readArchives site filePath name rest).Sat (siteDiscipline site cacheOk)
      (· = firstHolding site filePath (name :: rest.map (·.name))) := by
  induction rest generalizing name with
  | nil =>
      by_cases h : name = []
      · simp [readArchives, firstHolding, h]
      · simp only [readArchives, h, if_false]
        refine (readArchive_sat name).mono fun r hr => ?_
        cases hs : readStore site filePath name <;> simp_all [firstHolding]
  | cons next rest ih =>
      by_cases h : name = []
      · simp [readArchives, firstHolding, h]
      · simp only [readArchives, h, if_false]
        refine Prog.Sat.bind ((readArchive_sat name).mono fun r hr => ?_)
        subst hr
        cases hs : readStore site filePath name with
        | some data => simp [firstHolding, h, hs]
        | none => simpa [firstHolding, h, hs] using ih next.name

/-- `GetFromStore` returns `getFromStoreResult` on every run in which the
handle cache answers as the file system opens. -/
theorem getFromStore_sat :
    (getFromStore site filePath).Sat (siteDiscipline site cacheOk)
      (fun r => getFromStoreResult site filePath = some r) := by
  unfold getFromStore getFromStoreResult
  rcases loopStart site filePath with e | ⟨name, rest⟩
  · trivial
  · exact (readArchives_sat name rest).mono fun r hr => by simp [hr]

/-- Consistency reads only the handle cache. -/
theorem ZipfilesConsistent.of_zipfileCache_eq {w w' : World} (hw : ZipfilesConsistent site w)
    (h : w'.zipfileCache = w.zipfileCache) : ZipfilesConsistent site w' :=
  fun n a ha => hw n a (h ▸ ha)

/-- Every discipline of a site keeps the handle cache consistent. -/
theorem siteDiscipline_keeps : (siteDiscipline site cacheOk).Keeps (ZipfilesConsistent site) := by
  intro op w hw
  cases op with
  | zipfileGet name => exact ⟨fun a ha => hw name a ha, fun _ => hw⟩
  | zipfileSet name archive =>
      refine ⟨trivial, fun hopen n a ha => ?_⟩
      simp only [Op.perform, World.putZipfile] at ha
      split_ifs at ha with hn
      · cases ha
        exact hn ▸ hopen
      · exact hw n a ha
  | cacheGet key => exact ⟨trivial, fun _ => hw⟩
  | cacheAdd key value =>
      refine ⟨trivial, fun _ => hw.of_zipfileCache_eq ?_⟩
      simp only [Op.perform]
      split_ifs <;> rfl
  | cacheReplace key value =>
      refine ⟨trivial, fun _ => hw.of_zipfileCache_eq ?_⟩
      simp only [Op.perform]
      split_ifs <;> rfl

theorem loadZipFile_noRaise (name : Str) : (loadZipFile site name).NoRaise := by
  refine Prog.NoRaise.bind (fun _ => trivial) fun r => ?_
  rcases r with _ | archive
  · rcases site.openZip name with _ | archive
    · trivial
    · exact Prog.NoRaise.bind (fun _ => trivial) fun _ => trivial
  · trivial

theorem readArchives_noRaise (name : Str) (rest : List ArchiveEntry) :
    (readArchives site filePath name rest).NoRaise := by
  have hread : ∀ name, (readArchive site filePath name).NoRaise := fun name =>
    (loadZipFile_noRaise name).bind fun _ => trivial
  induction rest generalizing name with
  | nil => by_cases h : name = [] <;> simp [readArchives, h, hread, Prog.NoRaise]
  | cons next rest ih =>
      by_cases h : name = []
      · simp [readArchives, h, Prog.NoRaise]
      · simp only [readArchives, h, if_false]
        exact (hread name).bind fun r => by cases r <;> simp [ih, Prog.NoRaise]

/-- The archive reader touches only the handle cache. -/
theorem loadZipFile_keepsMemcache (name : Str) : (loadZipFile site name).KeepsMemcache := by
  have hzip : ∀ op : Op, (∀ w, (op.perform w).2.memcache = w.memcache) →
      (Prog.call op Pure.pure).KeepsMemcache := fun _ hop =>
    Prog.KeepsMemcache.call hop Prog.KeepsMemcache.pure
  refine (hzip (.zipfileGet name) fun _ => rfl).bind fun r => ?_
  rcases r with _ | archive
  · rcases site.openZip name with _ | archive
    · exact Prog.KeepsMemcache.pure _
    · exact (hzip (.zipfileSet name archive) fun _ => rfl).bind fun _ => Prog.KeepsMemcache.pure _
  · exact Prog.KeepsMemcache.pure _

theorem getFromStore_keepsMemcache : (getFromStore site filePath).KeepsMemcache := by
  have hread : ∀ name, (readArchive site filePath name).KeepsMemcache := fun name =>
    (loadZipFile_keepsMemcache name).bind fun _ => Prog.KeepsMemcache.pure _
  have hloop : ∀ name rest, (readArchives site filePath name rest).KeepsMemcache := by
    intro name rest
    induction rest generalizing name with
    | nil => by_cases h : name = [] <;> simp [readArchives, h, hread, Prog.KeepsMemcache.pure]
    | cons next rest ih =>
        by_cases h : name = []
        · simp [readArchives, h, Prog.KeepsMemcache.pure]
        · simp only [readArchives, h, if_false]
          exact (hread name).bind fun r => by cases r <;> simp [ih, Prog.KeepsMemcache.pure]
  unfold getFromStore
  rcases loopStart site filePath with e | ⟨name, rest⟩
  · exact fun _ => rfl
  · exact hloop name rest

/-- On a consistent handle cache, a run of `GetFromStore` raises exactly when
`getFromStoreResult` says so, and otherwise returns it. -/
theorem run_getFromStore {w : World} (hw : ZipfilesConsistent site w) (r : Option Str)
    (hr : getFromStoreResult site filePath = some r) :
    ((getFromStore site filePath).run w).1 = .ok r := by
  have hstart : ∃ name rest, loopStart site filePath = .ok (name, rest) := by
    unfold getFromStoreResult at hr
    rcases h : loopStart site filePath with e | ⟨name, rest⟩
    · simp [h] at hr
    · exact ⟨name, rest, rfl⟩
  obtain ⟨name, rest, hstart⟩ := hstart
  obtain ⟨a, ha⟩ : ∃ a, ((getFromStore site filePath).run w).1 = .ok a := by
    simpa [getFromStore, hstart] using (readArchives_noRaise name rest).run_ok w
  have hpost := (Prog.run_sat (@siteDiscipline_keeps site fun _ => True)
    getFromStore_sat hw).2 a ha
  rw [ha, Option.some_inj.mp (hpost.symm.trans hr)]

end Refinement

/-! ### The first archive the loop loads -/

/-- With non-empty archive names, the loop of `GetFromStore` starts at a
non-empty name: the index's answer is filtered, and otherwise the iterator
yields the first archive. -/
theorem loopStart_name_ne_nil {site : Site} (hnames : ∀ e ∈ site.zipfilenames, e.name ≠ [])
    {filePath name : Str} {rest : List ArchiveEntry} (h : loopStart site filePath = .ok (name, rest)) :
    name ≠ [] := by
  unfold loopStart at h
  rcases hmap : mapFileToArchive filePath site.zipfilenames with _ | mapped <;> rw [hmap] at h
  · cases h
  · rcases hf : mapped.filter (· ≠ []) with _ | found
    · rcases hz : site.zipfilenames with _ | ⟨first, rest'⟩ <;>
        simp only [hf, hz, reduceCtorEq, Except.ok.injEq, Prod.mk.injEq] at h
      rw [← h.1]
      exact hnames first (hz ▸ List.mem_cons_self _ _)
    · simp only [hf] at h
      cases h
      exact of_decide_eq_true (Option.filter_eq_some.mp hf).2

/-- A pass of the loop at a non-empty name begins by asking the handle cache for
that archive. -/
theorem trace_readArchives_head (site : Site) (filePath : Str) {name : Str} (h : name ≠ [])
    (rest : List ArchiveEntry) (w : World) :
    ((readArchives site filePath name rest).trace w).head? = some (.zipfileGet name) := by
  cases rest <;> simp only [readArchives, h, if_false] <;> rfl

/-! ### The index against a linear scan -/

/-- The plain linear scan: the contents from the first archive, in list order,
that opens and holds the file. -/
def linearScan (site : Site) (filePath : Str) : List ArchiveEntry → Option Str
  | [] => none
  | entry :: rest =>
      match readStore site filePath entry.name with
      | some data => some data
      | none => linearScan site filePath rest

section LinearScan

variable {site : Site} {filePath : Str}

theorem linearScan_eq_none_iff {entries : List ArchiveEntry} :
    linearScan site filePath entries = none ↔
      ∀ e ∈ entries, readStore site filePath e.name = none := by
  induction entries with
  | nil => simp [linearScan]
  | cons e rest ih => cases h : readStore site filePath e.name <;> simp_all [linearScan]

/-- With at most one archive name holding the file, the scan returns that
archive's contents. -/
theorem linearScan_eq_of_unique {entries : List ArchiveEntry} {e : ArchiveEntry}
    (he : e ∈ entries) (hheld : readStore site filePath e.name ≠ none)
    (hunique : ∀ e' ∈ entries, readStore site filePath e'.name ≠ none → e'.name = e.name) :
    linearScan site filePath entries = readStore site filePath e.name := by
  induction entries with
  | nil => simp at he
  | cons x rest ih =>
      cases hx : readStore site filePath x.name with
      | some data =>
          rw [← hunique x (List.mem_cons_self x rest) (by simp [hx]), hx]
          simp [linearScan, hx]
      | none =>
          have he' : e ∈ rest := by
            rcases List.mem_cons.mp he with rfl | h
            · exact absurd hx hheld
            · exact h
          simpa [linearScan, hx] using
            ih he' fun e' h' => hunique e' (List.mem_cons_of_mem x h')

/-- With non-empty archive names, stopping at an empty name never happens. -/
theorem firstHolding_map_name {entries : List ArchiveEntry} (hnames : ∀ e ∈ entries, e.name ≠ []) :
    firstHolding site filePath (entries.map (·.name)) = linearScan site filePath entries := by
  induction entries with
  | nil => rfl
  | cons e rest ih =>
      simp only [List.map_cons, firstHolding, linearScan, hnames e (List.mem_cons_self e rest),
        if_false, ih fun e' h => hnames e' (List.mem_cons_of_mem e h)]

theorem mapFileToArchive_mem {entries : List ArchiveEntry} {name : Str}
    (h : mapFileToArchive filePath entries = some (some name)) : ∃ e ∈ entries, e.name = name := by
  induction entries with
  | nil => simp [mapFileToArchive] at h
  | cons target later ih =>
      unfold mapFileToArchive at h
      rcases hl : mapFileToArchive filePath later with _ | _ | found
      · simp [hl] at h
      · rw [hl] at h
        rcases hf : target.firstPath with _ | first
        · simp [hf] at h
        · rw [hf] at h
          obtain ⟨c, -, hc⟩ := Option.map_eq_some'.mp h
          exact ⟨target, List.mem_cons_self _ _, by split_ifs at hc; simp_all⟩
      · obtain ⟨e, he, hname⟩ := ih (by simpa [hl] using h)
        exact ⟨e, List.mem_cons_of_mem _ he, hname⟩

/-- The index is only an accelerator. Wherever `MapFileToArchive` returns, and
whatever first paths are declared, `GetFromStore` finds the file exactly when
the linear scan does, and returns the same contents when at most one archive
holds the file. -/
theorem getFromStore_linearScan (hnames : ∀ e ∈ site.zipfilenames, e.name ≠ [])
    (hmap : mapFileToArchive filePath site.zipfilenames ≠ none) {w : World}
    (hw : ZipfilesConsistent site w) :
    ∃ r, ((getFromStore site filePath).run w).1 = .ok r ∧
      (r = none ↔ linearScan site filePath site.zipfilenames = none) ∧
      ((∀ e ∈ site.zipfilenames, ∀ e' ∈ site.zipfilenames, readStore site filePath e.name ≠ none →
          readStore site filePath e'.name ≠ none → e.name = e'.name) →
        r = linearScan site filePath site.zipfilenames) := by
  obtain ⟨mapped, hmapped⟩ := Option.ne_none_iff_exists'.mp hmap
  have hscan := @firstHolding_map_name site filePath _ hnames
  rcases hfilter : mapped.filter (· ≠ []) with _ | name
  · obtain ⟨first, rest, hentries⟩ := List.exists_cons_of_ne_nil site.zipfilenames_ne_nil
    have hresult : getFromStoreResult site filePath =
        some (linearScan site filePath site.zipfilenames) := by
      simp only [getFromStoreResult, loopStart, hmapped, hfilter]
      rw [← hscan]
      simp [hentries]
    exact ⟨_, run_getFromStore hw _ hresult, Iff.rfl, fun _ => rfl⟩
  · obtain ⟨hsome, hname⟩ := Option.filter_eq_some.mp hfilter
    obtain ⟨e, he, rfl⟩ := mapFileToArchive_mem (hmapped.trans (congrArg some hsome))
    have hresult : getFromStoreResult site filePath =
        some (match readStore site filePath e.name with
          | some data => some data
          | none => linearScan site filePath site.zipfilenames) := by
      simp only [getFromStoreResult, loopStart, hmapped, hfilter]
      rw [← hscan]
      simp [firstHolding, of_decide_eq_true hname]
    refine ⟨_, run_getFromStore hw _ hresult, ?_, fun hunique => ?_⟩
    · cases hread : readStore site filePath e.name with
      | none => exact Iff.rfl
      | some data =>
          simp only [reduceCtorEq, false_iff, ne_eq, linearScan_eq_none_iff, not_forall]
          exact ⟨e, he, by simp [hread]⟩
    · cases hread : readStore site filePath e.name with
      | none => rfl
      | some data =>
          have hheld : readStore site filePath e.name ≠ none := by simp [hread]
          rw [linearScan_eq_of_unique he hheld fun e' h' held => hunique e' h' e he held hheld,
            hread]

end LinearScan

/-- A two-archive site: the guide in the first archive, the reference in the
second, which declares its first member. -/
def guideSite : Site where
  zipfilenames :=
    [⟨"guide.zip".toList, none⟩, ⟨"reference.zip".toList, some "reference/index.html".toList⟩]
  zipfilenames_ne_nil := by simp
  openZip name :=
    if name = "guide.zip".toList then some ⟨[("guide/start.html".toList, "start".toList)]⟩
    else if name = "reference.zip".toList then
      some ⟨[("reference/index.html".toList, "index".toList)]⟩
    else none
  guessType _ := none

theorem getFromStore_linearScan_guide :
    (∀ e ∈ guideSite.zipfilenames, e.name ≠ []) ∧
    mapFileToArchive "guide/start.html".toList guideSite.zipfilenames ≠ none ∧
    ZipfilesConsistent guideSite World.empty ∧
    ∃ r, ((getFromStore guideSite "guide/start.html".toList).run World.empty).1 = .ok r ∧
      (r = none ↔ linearScan guideSite "guide/start.html".toList guideSite.zipfilenames = none) ∧
      ((∀ e ∈ guideSite.zipfilenames, ∀ e' ∈ guideSite.zipfilenames,
          readStore guideSite "guide/start.html".toList e.name ≠ none →
          readStore guideSite "guide/start.html".toList e'.name ≠ none → e.name = e'.name) →
        r = linearScan guideSite "guide/start.html".toList guideSite.zipfilenames) :=
  have hnames : ∀ e ∈ guideSite.zipfilenames, e.name ≠ [] := by decide
  have hmap : mapFileToArchive "guide/start.html".toList guideSite.zipfilenames ≠ none := by
    decide
  have hw : ZipfilesConsistent guideSite World.empty := fun _ _ h => nomatch h
  ⟨hnames, hmap, hw, getFromStore_linearScan hnames hmap hw⟩

end MemcacheZipserve
