/-
# The archive index

`MapFileToArchive` assumes that the archives, concatenated in order, list their
members in the depth-first order of `CompareFilenames`, and that every archive
after the first declares its first member as its first path. Under that packing
invariant the first archive `GetFromStore` reads for a member is the archive
that holds it, whenever `MapFileToArchive` returns. The first archive's
declared path is left free by the invariant, and it decides whether
`MapFileToArchive` returns at all.
-/

import Mathlib.Data.List.Chain
import MemcacheZipserve.Archive

namespace MemcacheZipserve

/-! ### The packing invariant -/

/-- The names of an archive's members, in the order the archive lists them; none
when it does not open. -/
def memberNames (site : Site) (entry : ArchiveEntry) : List Str :=
  ((site.openZip entry.name).map fun archive => archive.members.map (·.1)).getD []

/-- Every archive's members, archive after archive. -/
def allMembers (site : Site) : List Str := (site.zipfilenames.map (memberNames site)).flatten

/-- `CompareFilenames(m, m') > 0`: `m` comes first. -/
def isBefore (m m' : Str) : Bool :=
  match compareFilenames m m' with
  | some c => decide (0 < c)
  | none => false

/-- The packing invariant of `MapFileToArchive`'s documentation, with the file
tree's condition that no member's segments are a proper prefix of another's. -/
structure Packed (site : Site) : Prop where
  increasing : (allMembers site).Chain' fun m m' => isBefore m m' = true
  noProperPrefix : ∀ m ∈ allMembers site, ∀ m' ∈ allMembers site,
    m.splitOn '/' <+: m'.splitOn '/' → m = m'
  firstPaths : ∀ e ∈ site.zipfilenames.tail,
    e.firstPath ≠ none ∧ e.firstPath = (memberNames site e).head?

section Packed

variable {site : Site}

/-- Members of a packed site are always comparable. -/
theorem Packed.compareFilenames_ne_none (hp : Packed site) {m m' : Str}
    (hm : m ∈ allMembers site) (hm' : m' ∈ allMembers site) : compareFilenames m m' ≠ none := by
  unfold compareFilenames
  rw [ne_eq, compareSegments_eq_none_iff (splitOn_ne_nil m) (splitOn_ne_nil m')]
  rintro (⟨hpre, hlen⟩ | ⟨hpre, hlen⟩)
  · rw [hp.noProperPrefix m hm m' hm' hpre] at hlen
    omega
  · rw [hp.noProperPrefix m' hm' m hm hpre] at hlen
    omega

/-- Where the comparator returns, its sign is the order of the keys. -/
theorem compareFilenames_pos_iff {m m' : Str} {c : Int} (h : compareFilenames m m' = some c) :
    0 < c ↔ pathKey m < pathKey m' := by
  rw [← keyCompare_eq_one_iff, ← referenceCompare, ← sign_compareFilenames h, Int.sign_eq_one_iff_pos]

theorem compareFilenames_nonneg_iff {m m' : Str} {c : Int} (h : compareFilenames m m' = some c) :
    0 ≤ c ↔ pathKey m ≤ pathKey m' := by
  have hs := sign_compareFilenames h
  unfold referenceCompare keyCompare at hs
  rcases lt_trichotomy (pathKey m) (pathKey m') with hlt | heq | hgt
  · simp only [hlt, if_true, Int.sign_eq_one_iff_pos] at hs
    exact ⟨fun _ => hlt.le, fun _ => hs.le⟩
  · simp only [heq, lt_irrefl, if_false, Int.sign_eq_zero_iff_zero] at hs
    exact ⟨fun _ => heq.le, fun _ => hs.ge⟩
  · simp only [not_lt_of_gt hgt, hgt, if_false, if_true, Int.sign_eq_neg_one_iff_neg] at hs
    exact ⟨fun h0 => absurd h0 (not_le.mpr hs), fun hle => absurd hle (not_le.mpr hgt)⟩

/-- The members of a packed site are strictly increasing in key. -/
theorem Packed.sorted (hp : Packed site) :
    (allMembers site).Pairwise fun m m' => pathKey m < pathKey m' := by
  have hchain : ((allMembers site).map pathKey).Chain' (· < ·) := by
    rw [List.chain'_map]
    refine (List.Chain'.iff_mem.mp hp.increasing).imp fun m m' ⟨hm, hm', hb⟩ => ?_
    obtain ⟨c, hc⟩ := Option.ne_none_iff_exists'.mp (hp.compareFilenames_ne_none hm hm')
    simp only [isBefore, hc, decide_eq_true_eq] at hb
    exact (compareFilenames_pos_iff hc).mp hb
  exact List.pairwise_map.mp (List.chain'_iff_pairwise.mp hchain)

theorem mem_allMembers {e : ArchiveEntry} (he : e ∈ site.zipfilenames) {m : Str}
    (hm : m ∈ memberNames site e) : m ∈ allMembers site :=
  List.mem_flatten.mpr ⟨_, List.mem_map_of_mem _ he, hm⟩

/-- Within one archive, the first member comes first. -/
theorem Packed.head_le (hp : Packed site) {e : ArchiveEntry} (he : e ∈ site.zipfilenames)
    {first m : Str} (hfirst : (memberNames site e).head? = some first)
    (hm : m ∈ memberNames site e) : pathKey first ≤ pathKey m := by
  obtain ⟨rest, hrest⟩ := List.head?_eq_some_iff.mp hfirst
  have hsub : List.Sublist (memberNames site e) (allMembers site) :=
    List.sublist_flatten_of_mem (List.mem_map_of_mem _ he)
  have hpair := hp.sorted.sublist hsub
  rw [hrest] at hpair hm
  rcases List.mem_cons.mp hm with rfl | hm
  · exact le_rfl
  · exact (List.rel_of_pairwise_cons hpair hm).le

/-- The members of the archives after `e` come after those of `e`. -/
theorem Packed.lt_of_after (hp : Packed site) {pre post : List ArchiveEntry} {e : ArchiveEntry}
    (hsplit : site.zipfilenames = pre ++ e :: post) {m : Str} (hm : m ∈ memberNames site e)
    {e' : ArchiveEntry} (he' : e' ∈ post) {m' : Str} (hm' : m' ∈ memberNames site e') :
    pathKey m < pathKey m' := by
  have hpair := hp.sorted
  rw [allMembers, hsplit, List.map_append, List.map_cons, List.flatten_append,
    List.flatten_cons] at hpair
  exact (List.pairwise_append.mp (List.pairwise_append.mp hpair).2.1).2.2 m hm m'
    (List.mem_flatten.mpr ⟨_, List.mem_map_of_mem _ he', hm'⟩)

end Packed

/-! ### The scan of `MapFileToArchive` -/

/-- Entries whose declared paths all come after the file leave the scan going. -/
theorem mapFileToArchive_of_after {filePath : Str} {entries : List ArchiveEntry}
    (h : ∀ e ∈ entries, ∀ first, e.firstPath = some first →
      ∃ c, compareFilenames first filePath = some c ∧ c < 0) :
    mapFileToArchive filePath entries = some none := by
  induction entries with
  | nil => rfl
  | cons target later ih =>
      rw [mapFileToArchive, ih fun e he => h e (List.mem_cons_of_mem _ he)]
      rcases hf : target.firstPath with _ | first
      · rfl
      · obtain ⟨c, hc, hneg⟩ := h target (List.mem_cons_self _ _) first hf
        simp [hc, not_le.mpr hneg]

/-- What the scan finds later in the list overrides what it finds before. -/
theorem mapFileToArchive_append (filePath : Str) (pre : List ArchiveEntry)
    {rest : List ArchiveEntry} {name : Str} (h : mapFileToArchive filePath rest = some (some name)) :
    mapFileToArchive filePath (pre ++ rest) = some (some name) := by
  induction pre with
  | nil => exact h
  | cons target pre ih => rw [List.cons_append, mapFileToArchive, ih]

/-- In a packed site the index answers for a member of `e` with the name of `e`,
or with none when `e` is the first archive, whenever `MapFileToArchive` returns:
no later archive declares a first path at or before the member. -/
theorem mapFileToArchive_of_packed {site : Site} (hp : Packed site) {e : ArchiveEntry}
    (he : e ∈ site.zipfilenames) {p : Str} (hm : p ∈ memberNames site e)
    (hmap : mapFileToArchive p site.zipfilenames ≠ none) :
    mapFileToArchive p site.zipfilenames = some (some e.name) ∨
      site.zipfilenames.head? = some e ∧ mapFileToArchive p site.zipfilenames = some none := by
  obtain ⟨pre, post, hsplit⟩ := List.append_of_mem he
  have hpost : mapFileToArchive p post = some none := by
    refine mapFileToArchive_of_after fun e' he' first hfirst => ?_
    have htail : e' ∈ site.zipfilenames.tail := by
      rw [hsplit]
      cases pre <;> simp [he']
    have hin : e' ∈ site.zipfilenames := List.mem_of_mem_tail htail
    have hhead := (hp.firstPaths e' htail).2
    rw [hfirst] at hhead
    have hfm : first ∈ memberNames site e' := List.mem_of_mem_head? hhead.symm
    obtain ⟨c, hc⟩ := Option.ne_none_iff_exists'.mp
      (hp.compareFilenames_ne_none (mem_allMembers hin hfm) (mem_allMembers he hm))
    refine ⟨c, hc, not_le.mp fun h0 => ?_⟩
    exact ((compareFilenames_nonneg_iff hc).mp h0).not_lt (hp.lt_of_after hsplit hm he' hfm)
  rcases pre with _ | ⟨a, pre⟩
  · -- `e` is the first archive: its own first path decides
    rw [hsplit] at hmap ⊢
    simp only [List.nil_append, mapFileToArchive, hpost, List.head?_cons, true_and] at hmap ⊢
    rcases hf : e.firstPath with _ | first
    · exact .inr rfl
    · rw [hf] at hmap
      rcases hc : compareFilenames first p with _ | c
      · simp [hc] at hmap
      · by_cases h0 : 0 ≤ c <;> simp [hc, h0]
  · -- a later archive: its first path is at or before the member
    have htail : e ∈ site.zipfilenames.tail := by simp [hsplit]
    obtain ⟨hne, hhead⟩ := hp.firstPaths e htail
    obtain ⟨first, hf⟩ := Option.ne_none_iff_exists'.mp hne
    rw [hf] at hhead
    have hfm : first ∈ memberNames site e := List.mem_of_mem_head? hhead.symm
    obtain ⟨c, hc⟩ := Option.ne_none_iff_exists'.mp
      (hp.compareFilenames_ne_none (mem_allMembers he hfm) (mem_allMembers he hm))
    have h0 : 0 ≤ c := (compareFilenames_nonneg_iff hc).mpr (hp.head_le he hhead.symm hm)
    have hfound : mapFileToArchive p (e :: post) = some (some e.name) := by
      simp [mapFileToArchive, hpost, hf, hc, h0]
    rw [hsplit, mapFileToArchive_append p _ hfound]
    exact .inl rfl

/-- The loop of `GetFromStore` starts at the archive the index names, and at
the first archive when the index names none. -/
theorem loopStart_of_index {site : Site} {p : Str} {e : ArchiveEntry} (hname : e.name ≠ [])
    (h : mapFileToArchive p site.zipfilenames = some (some e.name) ∨
      site.zipfilenames.head? = some e ∧ mapFileToArchive p site.zipfilenames = some none) :
    ∃ rest, loopStart site p = .ok (e.name, rest) := by
  rcases h with h | ⟨hhead, h⟩
  · exact ⟨site.zipfilenames, by simp [loopStart, h, Option.filter, hname]⟩
  · obtain ⟨rest, hzs⟩ := List.head?_eq_some_iff.mp hhead
    refine ⟨rest, ?_⟩
    unfold loopStart
    rw [h]
    simp [Option.filter, hzs]

/-- In a packed site, the first archive `GetFromStore` reads for a member is
the archive that holds it, whenever `MapFileToArchive` returns. -/
theorem loopStart_of_packed {site : Site} (hp : Packed site)
    (hnames : ∀ e ∈ site.zipfilenames, e.name ≠ []) {e : ArchiveEntry}
    (he : e ∈ site.zipfilenames) {p : Str} (hm : p ∈ memberNames site e)
    (hmap : mapFileToArchive p site.zipfilenames ≠ none) :
    ∃ rest, loopStart site p = .ok (e.name, rest) :=
  loopStart_of_index (hnames e he) (mapFileToArchive_of_packed hp he hm hmap)

/-- Two archives packed in order, the first declaring the directory `d` as its
first path. -/
def packedSite : Site where
  zipfilenames := [⟨"a.zip".toList, some "d".toList⟩, ⟨"b.zip".toList, some "d/g/h.html".toList⟩]
  zipfilenames_ne_nil := List.cons_ne_nil _ _
  openZip name :=
    if name = "a.zip".toList then some ⟨[("d/e/f.html".toList, "e".toList)]⟩
    else if name = "b.zip".toList then some ⟨[("d/g/h.html".toList, "g".toList)]⟩
    else none
  guessType _ := none

theorem packedSite_packed : Packed packedSite where
  increasing := List.chain'_pair.mpr (by decide)
  noProperPrefix := by decide
  firstPaths := by decide

theorem loopStart_of_packed_second :
    Packed packedSite ∧ (∀ e ∈ packedSite.zipfilenames, e.name ≠ []) ∧
      (⟨"b.zip".toList, some "d/g/h.html".toList⟩ : ArchiveEntry) ∈ packedSite.zipfilenames ∧
      "d/g/h.html".toList ∈ memberNames packedSite ⟨"b.zip".toList, some "d/g/h.html".toList⟩ ∧
      mapFileToArchive "d/g/h.html".toList packedSite.zipfilenames ≠ none ∧
      ∃ rest, loopStart packedSite "d/g/h.html".toList = .ok ("b.zip".toList, rest) :=
  have hnames : ∀ e ∈ packedSite.zipfilenames, e.name ≠ [] := by decide
  have he : (⟨"b.zip".toList, some "d/g/h.html".toList⟩ : ArchiveEntry) ∈ packedSite.zipfilenames :=
    by decide
  have hm : "d/g/h.html".toList ∈ memberNames packedSite ⟨"b.zip".toList, some "d/g/h.html".toList⟩ :=
    by decide
  have hmap : mapFileToArchive "d/g/h.html".toList packedSite.zipfilenames ≠ none := by decide
  ⟨packedSite_packed, hnames, he, hm, hmap, loopStart_of_packed packedSite_packed hnames he hm hmap⟩

/-! ### What the index spares -/

/-- A member of an archive is read from it. -/
theorem Archive.read_isSome {archive : Archive} {name : Str}
    (h : name ∈ archive.members.map (·.1)) : (archive.read name).isSome := by
  obtain ⟨m, hm, rfl⟩ := List.mem_map.mp h
  simp only [Archive.read, Option.isSome_map', List.find?_isSome, List.mem_reverse]
  exact ⟨m, hm, decide_eq_true rfl⟩

/-- The index spares the other archives: in a packed site, whenever
`MapFileToArchive` returns, `GetFromStore` looks a member up in the archive that
holds it and in no other. It asks the handle cache for that archive and,
exactly when the handle is not cached yet, stores the handle the file system
opens. -/
theorem getFromStore_packed_trace {site : Site} (hp : Packed site)
    (hnames : ∀ e ∈ site.zipfilenames, e.name ≠ []) {e : ArchiveEntry}
    (he : e ∈ site.zipfilenames) {p : Str} (hm : p ∈ memberNames site e)
    (hmap : mapFileToArchive p site.zipfilenames ≠ none) {w : World}
    (hw : ZipfilesConsistent site w) :
    ∃ archive, site.openZip e.name = some archive ∧
      (getFromStore site p).trace w =
        if (w.zipfileCache e.name).isSome then [.zipfileGet e.name]
        else [.zipfileGet e.name, .zipfileSet e.name archive] := by
  obtain ⟨rest, hstart⟩ := loopStart_of_index (hnames e he) (mapFileToArchive_of_packed hp he hm hmap)
  obtain ⟨archive, hopen, hmem⟩ :
      ∃ archive, site.openZip e.name = some archive ∧ p ∈ archive.members.map (·.1) := by
    unfold memberNames at hm
    rcases hopen : site.openZip e.name with _ | archive <;> rw [hopen] at hm
    · exact absurd hm (List.not_mem_nil _)
    · exact ⟨archive, rfl, hm⟩
  obtain ⟨data, hread⟩ := Option.isSome_iff_exists.mp (Archive.read_isSome hmem)
  have hname := hnames e he
  -- the handle is not cached yet, and is opened and cached, or it is the archive itself
  have hcached : w.zipfileCache e.name = none ∨ w.zipfileCache e.name = some archive := by
    rcases hc : w.zipfileCache e.name with _ | cached
    exacts [.inl rfl, .inr ((hw _ _ hc).symm.trans hopen)]
  refine ⟨archive, hopen, ?_⟩
  simp only [getFromStore, hstart]
  rcases hcached with hc | hc <;> cases rest <;> simp only [readArchives, hname, if_false,
    readArchive, loadZipFile, zipfileGet, hopen, zipfileSet, Prog.call_bind, Prog.pure_ctor_bind,
    Prog.trace_call, Op.perform, hc, Prog.pure_bind, Option.some_bind, hread, Prog.trace_pure,
    Option.isSome_none, Option.isSome_some, Bool.false_eq_true, if_true]

theorem getFromStore_packed_trace_second :
    Packed packedSite ∧ (∀ e ∈ packedSite.zipfilenames, e.name ≠ []) ∧
      (⟨"b.zip".toList, some "d/g/h.html".toList⟩ : ArchiveEntry) ∈ packedSite.zipfilenames ∧
      "d/g/h.html".toList ∈ memberNames packedSite ⟨"b.zip".toList, some "d/g/h.html".toList⟩ ∧
      mapFileToArchive "d/g/h.html".toList packedSite.zipfilenames ≠ none ∧
      ZipfilesConsistent packedSite World.empty ∧
      ∃ archive, packedSite.openZip "b.zip".toList = some archive ∧
        (getFromStore packedSite "d/g/h.html".toList).trace World.empty =
          if (World.empty.zipfileCache "b.zip".toList).isSome then [.zipfileGet "b.zip".toList]
          else [.zipfileGet "b.zip".toList, .zipfileSet "b.zip".toList archive] :=
  have hnames : ∀ e ∈ packedSite.zipfilenames, e.name ≠ [] := by decide
  have he : (⟨"b.zip".toList, some "d/g/h.html".toList⟩ : ArchiveEntry) ∈ packedSite.zipfilenames :=
    by decide
  have hm : "d/g/h.html".toList ∈ memberNames packedSite ⟨"b.zip".toList, some "d/g/h.html".toList⟩ :=
    by decide
  have hmap : mapFileToArchive "d/g/h.html".toList packedSite.zipfilenames ≠ none := by decide
  have hw : ZipfilesConsistent packedSite World.empty := fun _ _ h => (nomatch h)
  ⟨packedSite_packed, hnames, he, hm, hmap, hw,
    getFromStore_packed_trace packedSite_packed hnames he hm hmap hw⟩

/-- The packed site holds `d/e/f.html` in its first archive, yet `GetFromStore`
raises before it reads any archive: `CompareFilenames("d", "d/e/f.html")`
indexes past the one segment of `d`. -/
theorem getFromStore_packed_indexError (w : World) :
    Packed packedSite ∧
      "d/e/f.html".toList ∈ memberNames packedSite ⟨"a.zip".toList, some "d".toList⟩ ∧
      (getFromStore packedSite "d/e/f.html".toList).run w = (.error .indexError, w) :=
  ⟨packedSite_packed, by decide, rfl⟩

end MemcacheZipserve
