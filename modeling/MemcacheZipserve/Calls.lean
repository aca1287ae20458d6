/-
# What memcache spares the archives

Memcache is there so that a file is read from the archives once, not at every
request. The trace of a sequential run, the calls it makes in order, says when
that holds. On caches that agree with the archives, a request whose first
lookup the archives answer without sending it to the fallback leaves an entry
for the name, provided found contents fit in memcache, and the same request
served next is answered by memcache gets alone: one get for found contents,
two for a missing file. A valid intl name that no archive holds is never
remembered: as long as no negative entry shadows it, the first lookup of every
run of the request reads the archives again, before the fallback, and leaves it
unshadowed. Found contents over memcache's item size are never stored either,
and are read from the archives at every request.
-/

import MemcacheZipserve.Repeat

namespace MemcacheZipserve

section Entries

variable {site : Site} {w : World} {name : Str}

/-- Agreeing caches have no positive entry for a file the archives do not hold. -/
theorem CachesAgree.positive_eq_none (hw : CachesAgree site w)
    (hr : getFromStoreResult site name = some none) : w.memcache (cachePrefix ++ name) = none := by
  rcases hc : w.memcache (cachePrefix ++ name) with _ | v
  · rfl
  · obtain ⟨data, -, hres⟩ := (hw.entries _ v hc).1 name rfl
    cases hr.symm.trans hres

/-- Agreeing caches have no negative entry for a file the archives hold. -/
theorem CachesAgree.negative_eq_none (hw : CachesAgree site w) {data : Str}
    (hr : getFromStoreResult site name = some (some data)) :
    w.memcache (negCachePrefix ++ name) = none := by
  rcases hn : w.memcache (negCachePrefix ++ name) with _ | v
  · rfl
  · cases hr.symm.trans ((hw.entries _ v hn).2 name rfl)

end Entries

/-! ### What a lookup leaves in memcache -/

/-- After `StoreOrUpdateInCache` of contents that fit in memcache the positive
entry is there, whether `add` stored it or `replace` did. -/
theorem run_storeOrUpdateInCache_isSome (filename : Str) {data : CacheValue}
    (hsize : data.size ≤ maxItemSize) (w : World) :
    (((storeOrUpdateInCache filename data).run w).2.memcache (cachePrefix ++ filename)).isSome := by
  have hfit : ¬maxItemSize < data.size := not_lt.mpr hsize
  rcases hk : w.memcache (cachePrefix ++ filename) with _ | v
  · -- `add` stores it
    simp only [storeOrUpdateInCache, cacheAdd, Prog.call_bind, Prog.pure_ctor_bind, Prog.run_call,
      Op.perform, hfit, if_false, hk, Option.isSome_none, Bool.false_eq_true, World.put, if_true,
      Prog.run_pure, Option.isSome_some]
  · -- `add` finds it, and `replace` stores it again
    simp only [storeOrUpdateInCache, cacheAdd, cacheReplace, Prog.call_bind, Prog.pure_ctor_bind,
      Prog.run_call, Op.perform, hfit, if_false, hk, Option.isSome_some, if_true, World.put,
      Prog.run_pure]

/-- After `StoreInNegativeCache` the negative entry is there. -/
theorem run_storeInNegativeCache_isSome (filename : Str) (w : World) :
    (((storeInNegativeCache filename).run w).2.memcache (negCachePrefix ++ filename)).isSome := by
  have hsize : ¬maxItemSize < (CacheValue.int (-1)).size := by decide
  rcases hk : w.memcache (negCachePrefix ++ filename) with _ | v
  · simp only [storeInNegativeCache, cacheAdd, Prog.call_bind, Prog.pure_ctor_bind, Prog.run_call,
      Op.perform, hsize, if_false, hk, Option.isSome_none, Bool.false_eq_true, World.put, if_true,
      Prog.run_pure, Option.isSome_some]
  · simp only [storeInNegativeCache, cacheAdd, Prog.call_bind, Prog.pure_ctor_bind, Prog.run_call,
      Op.perform, hsize, if_false, hk, Option.isSome_some, if_true, Prog.run_pure]

section Lookup

variable {site : Site} {w : World} {name : Str}

/-- On agreeing caches, a lookup of a file the archives hold leaves its positive
entry, when the contents fit in memcache. -/
theorem run_lookup_positive (hw : CachesAgree site w) {data : Str}
    (hr : getFromStoreResult site name = some (some data)) (hfit : data.length ≤ maxItemSize)
    (isValidIntl : Bool) :
    (((lookup site name isValidIntl).run w).2.memcache (cachePrefix ++ name)).isSome := by
  rcases hc : w.memcache (cachePrefix ++ name) with _ | v
  · have hs := run_getFromStore hw.zipfiles _ hr
    rcases hrun : (getFromStore site name).run w with ⟨r, w1⟩
    rw [hrun] at hs
    cases hs
    have h := @Prog.isSome_run_bind _ _ _ (fun _ => pure (Lookup.found (.str data))) _ _
      (@run_storeOrUpdateInCache_isSome name (.str data) hfit w1)
    simpa only [lookup, Prog.run_bind, run_getFromCache, run_getFromNegativeCache, hc,
      hw.negative_eq_none hr, hrun] using h
  · exact Prog.run_isSome _ (by simp [hc])

/-- On agreeing caches, a lookup of a missing file that is not valid intl leaves
its negative entry. -/
theorem run_lookup_negative (hw : CachesAgree site w) (hr : getFromStoreResult site name = some none) :
    (((lookup site name false).run w).2.memcache (negCachePrefix ++ name)).isSome := by
  rcases hn : w.memcache (negCachePrefix ++ name) with _ | v
  · have hs := run_getFromStore hw.zipfiles _ hr
    rcases hrun : (getFromStore site name).run w with ⟨r, w1⟩
    rw [hrun] at hs
    cases hs
    have h := @Prog.isSome_run_bind _ _ _ (fun _ => pure Lookup.notFound) _ _
      (run_storeInNegativeCache_isSome name w1)
    simpa only [lookup, Prog.run_bind, run_getFromCache, run_getFromNegativeCache,
      hw.positive_eq_none hr, hn, hrun, Bool.false_eq_true, if_false] using h
  · exact Prog.run_isSome _ (by simp [hn])

end Lookup

/-! ### The calls of a request that memcache answers -/

@[simp] theorem trace_getFromCache (name : Str) (w : World) :
    (getFromCache name).trace w = [.cacheGet (cachePrefix ++ name)] := rfl

@[simp] theorem trace_getFromNegativeCache (name : Str) (w : World) :
    (getFromNegativeCache name).trace w = [.cacheGet (negCachePrefix ++ name)] := rfl

section Trace

variable {site : Site} {w : World} {req : Request} {p : Prepared}

/-- An entry the first lookup leaves stays through the rest of `TrueGet`. -/
theorem isSome_run_trueGet (hr : route req = .clean p ∨ route req = .invalidIntl p) {key : Str}
    (h : (((lookup site p.name p.isValidIntl).run w).2.memcache key).isSome) :
    (((trueGet site req).run w).2.memcache key).isSome := by
  rcases hr with hr | hr <;> simp only [trueGet, hr] <;>
    exact Prog.isSome_run_bind (Prog.isSome_run_bind h)

/-- When its first lookup does not ask for a retry, `TrueGet` makes the calls of
that lookup and no other. -/
theorem trace_trueGet_of_ne_retry (hr : route req = .clean p ∨ route req = .invalidIntl p)
    {outcome : Lookup} {w' : World} (h : (lookup site p.name p.isValidIntl).run w = (.ok outcome, w'))
    (hne : outcome ≠ .retry) :
    (trueGet site req).trace w = (lookup site p.name p.isValidIntl).trace w := by
  rcases hr with hr | hr <;> simp only [trueGet, hr] <;>
    rw [Prog.trace_bind, trace_createResponse, run_createResponse, h] <;> cases outcome
  -- found contents and the 404 page end the request; a retry is excluded
  all_goals first | exact List.append_nil _ | exact absurd rfl hne

section Lookup

variable {name : Str} {isValidIntl : Bool} {v : CacheValue}

theorem run_lookup_of_positive (h : w.memcache (cachePrefix ++ name) = some v) :
    (lookup site name isValidIntl).run w = (.ok (.found v), w) := by
  simp only [lookup, Prog.run_bind, run_getFromCache, h]
  rfl

theorem trace_lookup_of_positive (h : w.memcache (cachePrefix ++ name) = some v) :
    (lookup site name isValidIntl).trace w = [.cacheGet (cachePrefix ++ name)] := by
  simp only [lookup, Prog.trace_bind, trace_getFromCache, run_getFromCache, h]
  rfl

theorem run_lookup_of_negative (hc : w.memcache (cachePrefix ++ name) = none)
    (hn : w.memcache (negCachePrefix ++ name) = some v) :
    (lookup site name isValidIntl).run w = (.ok .notFound, w) := by
  simp only [lookup, Prog.run_bind, run_getFromCache, run_getFromNegativeCache, hc, hn]
  rfl

theorem trace_lookup_of_negative (hc : w.memcache (cachePrefix ++ name) = none)
    (hn : w.memcache (negCachePrefix ++ name) = some v) :
    (lookup site name isValidIntl).trace w =
      [.cacheGet (cachePrefix ++ name), .cacheGet (negCachePrefix ++ name)] := by
  simp only [lookup, Prog.trace_bind, trace_getFromCache, run_getFromCache, hc,
    trace_getFromNegativeCache, run_getFromNegativeCache, hn]
  rfl

end Lookup

/-- A positive entry for the name of its first lookup answers `TrueGet` with one
memcache get. -/
theorem trace_trueGet_of_positive (hr : route req = .clean p ∨ route req = .invalidIntl p)
    {v : CacheValue} (h : w.memcache (cachePrefix ++ p.name) = some v) :
    (trueGet site req).trace w = [.cacheGet (cachePrefix ++ p.name)] := by
  rw [trace_trueGet_of_ne_retry hr (run_lookup_of_positive h) Lookup.noConfusion,
    trace_lookup_of_positive h]

/-- A negative entry alone answers it with two. -/
theorem trace_trueGet_of_negative (hr : route req = .clean p ∨ route req = .invalidIntl p)
    (hc : w.memcache (cachePrefix ++ p.name) = none) {v : CacheValue}
    (hn : w.memcache (negCachePrefix ++ p.name) = some v) :
    (trueGet site req).trace w =
      [.cacheGet (cachePrefix ++ p.name), .cacheGet (negCachePrefix ++ p.name)] := by
  rw [trace_trueGet_of_ne_retry hr (run_lookup_of_negative hc hn) Lookup.noConfusion,
    trace_lookup_of_negative hc hn]

end Trace

/-! ### Memcache holds only what fits -/

/-- Every value memcache holds fits its item size. -/
def Fits (w : World) : Prop := ∀ k v, w.memcache k = some v → v.size ≤ maxItemSize

/-- memcache refuses what does not fit, so no call stores it. -/
theorem Op.perform_fits (op : Op) {w : World} (hw : Fits w) : Fits (op.perform w).2 := by
  intro k v hk
  cases op
  case cacheAdd key value =>
    simp only [Op.perform] at hk
    split_ifs at hk with hbig
    · exact hw k v hk
    · exact hw k v hk
    · simp only [World.put] at hk
      split_ifs at hk
      · cases hk
        exact not_lt.mp hbig
      · exact hw k v hk
  case cacheReplace key value =>
    simp only [Op.perform] at hk
    split_ifs at hk with hbig
    · exact hw k v hk
    · simp only [World.put] at hk
      split_ifs at hk
      · cases hk
        exact not_lt.mp hbig
      · exact hw k v hk
    · exact hw k v hk
  all_goals exact hw k v hk

/-- The step lemma: every step of the server keeps memcache within its item size. -/
theorem Step.fits {site : Site} {s s' : Server} (h : Step site s s') (hs : Fits s.world) :
    Fits s'.world := by
  cases h with
  | arrive => exact hs
  | call w pre post req op next => exact op.perform_fits hs
  | finish => exact hs
  | evict w inFlight key =>
      intro k v hk
      simp only [World.evict] at hk
      split_ifs at hk
      exact hs k v hk

/-- The run lemma: memcache holds only what fits, in every reachable state. -/
theorem Reachable.fits {site : Site} {s : Server} (h : Reachable site s) : Fits s.world := by
  induction h with
  | refl => exact fun _ _ h => (nomatch h)
  | tail _ hstep ih => exact hstep.fits ih

/-! ### When the archives are read again -/

section Loads

variable {site : Site} {w : World} {req : Request} {p : Prepared}

/-- With non-empty archive names, `GetFromStore` asks the handle cache for an
archive unless `MapFileToArchive` raises. -/
theorem zipfileGet_mem_trace_getFromStore (hnames : ∀ e ∈ site.zipfilenames, e.name ≠ [])
    {filePath : Str} {r : Option Str} (hres : getFromStoreResult site filePath = some r) (w : World) :
    ∃ archive, Op.zipfileGet archive ∈ (getFromStore site filePath).trace w := by
  unfold getFromStoreResult at hres
  rcases hstart : loopStart site filePath with e | ⟨name, rest⟩
  · rw [hstart] at hres
    cases hres
  · refine ⟨name, ?_⟩
    simp only [getFromStore, hstart]
    exact List.mem_of_mem_head? (trace_readArchives_head site filePath
      (loopStart_name_ne_nil hnames hstart) rest w)

/-- A lookup that misses both tiers reads the archives. -/
theorem zipfileGet_mem_trace_lookup (hnames : ∀ e ∈ site.zipfilenames, e.name ≠ []) {name : Str}
    {r : Option Str} (hres : getFromStoreResult site name = some r)
    (hc : w.memcache (cachePrefix ++ name) = none) (hn : w.memcache (negCachePrefix ++ name) = none)
    (isValidIntl : Bool) :
    ∃ archive, Op.zipfileGet archive ∈ (lookup site name isValidIntl).trace w := by
  obtain ⟨archive, hmem⟩ := zipfileGet_mem_trace_getFromStore hnames hres w
  refine ⟨archive, Prog.mem_trace_bind_right (run_getFromCache _ _) ?_⟩
  rw [hc]
  refine Prog.mem_trace_bind_right (run_getFromNegativeCache _ _) ?_
  rw [hn]
  exact Prog.mem_trace_bind_left hmem

/-- A first lookup that misses both tiers reads the archives. -/
theorem zipfileGet_mem_trace_trueGet (hnames : ∀ e ∈ site.zipfilenames, e.name ≠ [])
    (hr : route req = .clean p ∨ route req = .invalidIntl p) {r : Option Str}
    (hres : getFromStoreResult site p.name = some r) (hc : w.memcache (cachePrefix ++ p.name) = none)
    (hn : w.memcache (negCachePrefix ++ p.name) = none) :
    ∃ archive, Op.zipfileGet archive ∈ (trueGet site req).trace w := by
  obtain ⟨archive, hlookup⟩ := zipfileGet_mem_trace_lookup hnames hres hc hn p.isValidIntl
  refine ⟨archive, ?_⟩
  rcases hr with hr | hr <;> simp only [trueGet, hr] <;>
    exact Prog.mem_trace_bind_left (Prog.mem_trace_bind_left hlookup)

end Loads

/-! ### What the same request costs the next time -/

section Repeat

variable {site : Site} {s : Server} {req : Request} {p : Prepared}

/-- Memcache does its work: in every reachable state, once a request has been
served whose first lookup the archives answer without a fallback, with found
contents that fit in memcache, the same request served next makes only
memcache gets, one for found contents and two for a missing file, and reads no
archive. -/
theorem reachable_trueGet_repeat_trace (hs : Reachable site s)
    (hr : route req = .clean p ∨ route req = .invalidIntl p) {r : Option Str}
    (hres : getFromStoreResult site p.name = some r) (hretry : r = none → p.isValidIntl = false)
    (hfit : ∀ data, r = some data → data.length ≤ maxItemSize) :
    (trueGet site req).trace ((trueGet site req).run s.world).2 =
      match r with
      | some _ => [.cacheGet (cachePrefix ++ p.name)]
      | none => [.cacheGet (cachePrefix ++ p.name), .cacheGet (negCachePrefix ++ p.name)] := by
  have hw := hs.serverOk.agree
  have hw1 : CachesAgree site ((trueGet site req).run s.world).2 :=
    (Prog.run_sat (handlerDiscipline_keeps site) (trueGet_sat req) hw).1
  rcases r with _ | data
  · -- a missing file: its negative entry answers
    have hneg := run_lookup_negative hw hres
    rw [← hretry rfl] at hneg
    obtain ⟨v, hv⟩ := Option.isSome_iff_exists.mp (isSome_run_trueGet hr hneg)
    exact trace_trueGet_of_negative hr (hw1.positive_eq_none hres) hv
  · -- found contents: their positive entry answers
    obtain ⟨v, hv⟩ := Option.isSome_iff_exists.mp
      (isSome_run_trueGet hr (run_lookup_positive hw hres (hfit data rfl) _))
    exact trace_trueGet_of_positive hr hv

/-- A request for the default-language page, without a cookie. -/
def pageRequest : Request := ⟨"page.html".toList, none, [], []⟩

theorem reachable_trueGet_repeat_trace_page :
    Reachable pageSite Server.init ∧
      (route pageRequest = .clean ⟨"page.html".toList, "en".toList, true, false, false, none⟩ ∨
        route pageRequest = .invalidIntl ⟨"page.html".toList, "en".toList, true, false, false, none⟩) ∧
      getFromStoreResult pageSite "page.html".toList = some (some "<p>page</p>".toList) ∧
      (some "<p>page</p>".toList = none → false = false) ∧
      (∀ data, some "<p>page</p>".toList = some data → data.length ≤ maxItemSize) ∧
      (trueGet pageSite pageRequest).trace ((trueGet pageSite pageRequest).run Server.init.world).2 =
        [.cacheGet (cachePrefix ++ "page.html".toList)] :=
  have hs : Reachable pageSite Server.init := Relation.ReflTransGen.refl
  have hr : route pageRequest = .clean ⟨"page.html".toList, "en".toList, true, false, false, none⟩ ∨
      route pageRequest = .invalidIntl ⟨"page.html".toList, "en".toList, true, false, false, none⟩ :=
    .inl rfl
  have hres : getFromStoreResult pageSite "page.html".toList = some (some "<p>page</p>".toList) := rfl
  have hretry : some "<p>page</p>".toList = none → false = false := fun _ => rfl
  have hfit : ∀ data, some "<p>page</p>".toList = some data → data.length ≤ maxItemSize := by
    rintro _ ⟨⟩
    decide
  ⟨hs, hr, hres, hretry, hfit, reachable_trueGet_repeat_trace hs hr hres hretry hfit⟩

/-- A valid intl name that no archive holds is never remembered: in every
reachable state in which no negative entry shadows it, the first lookup of
`TrueGet` reads the archives for it and asks for the fallback, whose calls come
after its own, and the request leaves the name unshadowed, so that the same
request served next reads the archives again. -/
theorem reachable_trueGet_fallback_loads (hs : Reachable site s)
    (hnames : ∀ e ∈ site.zipfilenames, e.name ≠ []) (hr : route req = .clean p)
    (hv : p.isValidIntl = true) (hres : getFromStoreResult site p.name = some none)
    (hn : s.world.memcache (negCachePrefix ++ p.name) = none) :
    ((lookup site p.name p.isValidIntl).run s.world).1 = .ok .retry ∧
      (∃ archive, Op.zipfileGet archive ∈ (lookup site p.name p.isValidIntl).trace s.world) ∧
      (lookup site p.name p.isValidIntl).trace s.world <+: (trueGet site req).trace s.world ∧
      ((trueGet site req).run s.world).2.memcache (negCachePrefix ++ p.name) = none := by
  have hw := hs.serverOk.agree
  have hc := hw.positive_eq_none hres
  refine ⟨hv ▸ run_lookup_of_misses ⟨hc, hn, run_getFromStore hw.zipfiles none hres⟩,
    zipfileGet_mem_trace_lookup hnames hres hc hn _, ?_,
    (trueGet_writesOnly site req _ _ (not_trueGetKeys_shadow hr hv)).trans hn⟩
  rw [trace_trueGet_clean site hr]
  exact List.prefix_append _ _

/-- The caches after `fallbackRequest` has been served once from empty caches. -/
def fallbackWorld : World := ((trueGet pageSite fallbackRequest).run World.empty).2

theorem reachable_trueGet_fallback_loads_page :
    Reachable pageSite ⟨fallbackWorld, []⟩ ∧ (∀ e ∈ pageSite.zipfilenames, e.name ≠ []) ∧
      route fallbackRequest =
        .clean ⟨"intl/fr/page.html".toList, "fr".toList, true, true, true, some "page.html".toList⟩ ∧
      getFromStoreResult pageSite "intl/fr/page.html".toList = some none ∧
      fallbackWorld.memcache (negCachePrefix ++ "intl/fr/page.html".toList) = none ∧
      ((lookup pageSite "intl/fr/page.html".toList true).run fallbackWorld).1 = .ok .retry ∧
      (∃ archive, Op.zipfileGet archive ∈
        (lookup pageSite "intl/fr/page.html".toList true).trace fallbackWorld) ∧
      (lookup pageSite "intl/fr/page.html".toList true).trace fallbackWorld <+:
        (trueGet pageSite fallbackRequest).trace fallbackWorld ∧
      ((trueGet pageSite fallbackRequest).run fallbackWorld).2.memcache
        (negCachePrefix ++ "intl/fr/page.html".toList) = none :=
  have hs : Reachable pageSite ⟨fallbackWorld, []⟩ := Reachable.serve Relation.ReflTransGen.refl _
  have hnames : ∀ e ∈ pageSite.zipfilenames, e.name ≠ [] := by decide
  have hr : route fallbackRequest =
      .clean ⟨"intl/fr/page.html".toList, "fr".toList, true, true, true, some "page.html".toList⟩ := rfl
  have hres : getFromStoreResult pageSite "intl/fr/page.html".toList = some none := rfl
  have hn : fallbackWorld.memcache (negCachePrefix ++ "intl/fr/page.html".toList) = none := rfl
  have hloads := reachable_trueGet_fallback_loads hs hnames hr rfl hres hn
  ⟨hs, hnames, hr, hres, hn, hloads⟩

/-- Contents over memcache's item size are never cached: in every reachable
state, a request whose first lookup finds them reads the archives. -/
theorem reachable_trueGet_oversized_loads (hs : Reachable site s)
    (hnames : ∀ e ∈ site.zipfilenames, e.name ≠ [])
    (hr : route req = .clean p ∨ route req = .invalidIntl p) {data : Str}
    (hres : getFromStoreResult site p.name = some (some data)) (hbig : maxItemSize < data.length) :
    ∃ archive, Op.zipfileGet archive ∈ (trueGet site req).trace s.world := by
  have hw := hs.serverOk.agree
  refine zipfileGet_mem_trace_trueGet hnames hr hres ?_ (hw.negative_eq_none hres)
  rcases hc : s.world.memcache (cachePrefix ++ p.name) with _ | v
  · rfl
  · obtain ⟨data', rfl, hres'⟩ := (hw.entries _ v hc).1 p.name rfl
    cases hres.symm.trans hres'
    exact absurd (hs.fits _ _ hc) (not_le.mpr hbig)

/-- Contents one character over memcache's item size. -/
def bigData : Str := List.replicate (maxItemSize + 1) 'a'

/-- One archive holding a file too large for memcache. -/
def bigSite : Site where
  zipfilenames := [⟨"big.zip".toList, none⟩]
  zipfilenames_ne_nil := List.cons_ne_nil _ _
  openZip name := if name = "big.zip".toList then some ⟨[("big.bin".toList, bigData)]⟩ else none
  guessType _ := some "application/octet-stream".toList

/-- A request for the large file, without a cookie. -/
def bigRequest : Request := ⟨"big.bin".toList, none, [], []⟩

/-- The server after `bigRequest` has been served once from empty caches. -/
def bigServer : Server := ⟨((trueGet bigSite bigRequest).run World.empty).2, []⟩

theorem reachable_trueGet_oversized_loads_big :
    Reachable bigSite bigServer ∧ (∀ e ∈ bigSite.zipfilenames, e.name ≠ []) ∧
      (route bigRequest = .clean ⟨"big.bin".toList, "en".toList, true, false, false, none⟩ ∨
        route bigRequest = .invalidIntl ⟨"big.bin".toList, "en".toList, true, false, false, none⟩) ∧
      getFromStoreResult bigSite "big.bin".toList = some (some bigData) ∧
      maxItemSize < bigData.length ∧
      ∃ archive, Op.zipfileGet archive ∈ (trueGet bigSite bigRequest).trace bigServer.world :=
  have hs : Reachable bigSite bigServer := Reachable.serve Relation.ReflTransGen.refl _
  have hnames : ∀ e ∈ bigSite.zipfilenames, e.name ≠ [] := by decide
  have hr : route bigRequest = .clean ⟨"big.bin".toList, "en".toList, true, false, false, none⟩ ∨
      route bigRequest = .invalidIntl ⟨"big.bin".toList, "en".toList, true, false, false, none⟩ :=
    .inl rfl
  have hres : getFromStoreResult bigSite "big.bin".toList = some (some bigData) := rfl
  have hbig : maxItemSize < bigData.length := by
    rw [bigData, List.length_replicate]
    exact Nat.lt_succ_self _
  ⟨hs, hnames, hr, hres, hbig,
    reachable_trueGet_oversized_loads hs hnames hr hres hbig⟩

end Repeat

end MemcacheZipserve
