/-
# Concurrent requests

Each request runs `TrueGet` as a program of single-key memcache calls and
handle-cache calls. The server interleaves the calls of the requests in flight
in any order, and memcache evicts any key at any time; `Step` is that
interleaving and `Reachable` its runs from empty caches. The two-tier invariant
`CachesAgree` is kept by every call a request of `TrueGet` can make, so it holds
in every reachable state; and since agreeing caches only answer as the archives
would, every request in flight is on its way to an answer `AnswerOk` allows. A
sequential run of one request is one run of the server among many.
-/

import Mathlib.Logic.Relation
import MemcacheZipserve.Meaning

namespace MemcacheZipserve

/-! ### The two-tier invariant -/

/-- A memcache entry that agrees with the archives: under `cache://p` the
contents `GetFromStore` returns for `p`, under `noncache://p` anything, for a
`p` that `GetFromStore` does not find. -/
def EntryOk (site : Site) (key : Str) (value : CacheValue) : Prop :=
  (∀ p, key = cachePrefix ++ p → ∃ data, value = .str data ∧
    getFromStoreResult site p = some (some data)) ∧
  (∀ p, key = negCachePrefix ++ p → getFromStoreResult site p = some none)

/-- The caches agree with the archives. -/
structure CachesAgree (site : Site) (w : World) : Prop where
  zipfiles : ZipfilesConsistent site w
  entries : ∀ key value, w.memcache key = some value → EntryOk site key value

/-- The memcache calls that keep the caches agreeing: reads, and writes of
agreeing entries. -/
def WriteOk (site : Site) : Op → Prop
  | .cacheAdd key value => EntryOk site key value
  | .cacheReplace key value => EntryOk site key value
  | _ => True

/-- The discipline of `TrueGet`'s calls: those of the site with writes of
agreeing entries, and memcache answers that agree with the archives. -/
def handlerDiscipline (site : Site) : Discipline where
  allowed := (siteDiscipline site (WriteOk site)).allowed
  admissible
    | .cacheGet key => fun r => ∀ v, r = some v → EntryOk site key v
    | op => (siteDiscipline site (WriteOk site)).admissible op

theorem cachePrefix_append_ne (p q : Str) : cachePrefix ++ p ≠ negCachePrefix ++ q := by
  simp [cachePrefix, negCachePrefix]

/-- The positive entry of what `GetFromStore` found. -/
theorem entryOk_positive {site : Site} {name data : Str}
    (h : getFromStoreResult site name = some (some data)) :
    EntryOk site (cachePrefix ++ name) (.str data) := by
  refine ⟨fun p hp => ?_, fun p hp => absurd hp (cachePrefix_append_ne _ _)⟩
  rw [List.append_cancel_left hp] at h
  exact ⟨data, rfl, h⟩

/-- The negative entry of what `GetFromStore` did not find. -/
theorem entryOk_negative {site : Site} {name : Str} (value : CacheValue)
    (h : getFromStoreResult site name = some none) :
    EntryOk site (negCachePrefix ++ name) value := by
  refine ⟨fun p hp => absurd hp.symm (cachePrefix_append_ne _ _), fun p hp => ?_⟩
  rwa [← List.append_cancel_left hp]

theorem entries_put {site : Site} {w : World} {key : Str} {value : CacheValue}
    (hw : ∀ key value, w.memcache key = some value → EntryOk site key value)
    (hv : EntryOk site key value) :
    ∀ k v, (w.put key value).memcache k = some v → EntryOk site k v := by
  intro k v hk
  by_cases hkey : k = key
  · subst hkey
    simp only [World.put, if_true, Option.some.injEq] at hk
    rwa [← hk]
  · exact hw k v (by simpa [World.put, hkey] using hk)

/-- Agreeing caches answer as the discipline admits, and every call `TrueGet`
may make keeps them agreeing. -/
theorem handlerDiscipline_keeps (site : Site) :
    (handlerDiscipline site).Keeps (CachesAgree site) := by
  intro op w hw
  obtain ⟨hadm, hzip⟩ := siteDiscipline_keeps op w hw.zipfiles
  cases op with
  | cacheGet key => exact ⟨fun v hv => hw.entries key v hv, fun _ => hw⟩
  | cacheAdd key value =>
      refine ⟨hadm, fun hallowed => ⟨hzip hallowed, ?_⟩⟩
      simp only [Op.perform]
      split_ifs
      · exact hw.entries
      · exact hw.entries
      · exact entries_put hw.entries hallowed
  | cacheReplace key value =>
      refine ⟨hadm, fun hallowed => ⟨hzip hallowed, ?_⟩⟩
      simp only [Op.perform]
      split_ifs
      · exact hw.entries
      · exact entries_put hw.entries hallowed
      · exact hw.entries
  | zipfileGet name => exact ⟨hadm, fun hallowed => ⟨hzip hallowed, hw.entries⟩⟩
  | zipfileSet name archive => exact ⟨hadm, fun hallowed => ⟨hzip hallowed, hw.entries⟩⟩

/-! ### `TrueGet` keeps to the discipline -/

section Handler

variable {site : Site}

theorem storeOrUpdateInCache_sat {name data : Str}
    (h : getFromStoreResult site name = some (some data)) :
    (storeOrUpdateInCache name (.str data)).Sat (handlerDiscipline site) fun _ => True := by
  refine Prog.Sat.bind ⟨entryOk_positive h, fun r _ => ?_⟩
  rcases r with _ | _ | _
  · trivial
  · exact Prog.Sat.bind ⟨entryOk_positive h, fun _ _ => trivial⟩
  · trivial

theorem storeInNegativeCache_sat {name : Str} (h : getFromStoreResult site name = some none) :
    (storeInNegativeCache name).Sat (handlerDiscipline site) fun _ => True :=
  Prog.Sat.bind ⟨entryOk_negative _ h, fun r _ => by rcases r with _ | _ <;> trivial⟩

/-- `GetFromStore` makes no memcache call, so it keeps to the handler's
discipline as to the site's. -/
theorem getFromStore_handler_sat (name : Str) :
    (getFromStore site name).Sat (handlerDiscipline site)
      (fun r => getFromStoreResult site name = some r) :=
  getFromStore_sat.restrict (fun _ h => h) fun op r h => by cases op <;> trivial

/-- The lookup writes only agreeing entries, caching what `GetFromStore`
returned and marking as missing only what it did not find; its outcome is one
that agreeing caches allow. -/
theorem lookup_sat (name : Str) (isValidIntl : Bool) :
    (lookup site name isValidIntl).Sat (handlerDiscipline site)
      (LookupOk site name isValidIntl) := by
  refine Prog.Sat.bind ⟨trivial, fun cached hcached => ?_⟩
  rcases cached with _ | v
  · refine Prog.Sat.bind ⟨trivial, fun marked hmarked => ?_⟩
    rcases marked with _ | v
    · -- neither tier: the archives decide
      refine Prog.Sat.bind ((getFromStore_handler_sat name).mono fun r hr => ?_)
      have hspec := lookupSpec_of_getFromStoreResult hr isValidIntl
      rcases r with _ | data
      · cases isValidIntl with
        | true => exact .inl hspec
        | false => exact Prog.Sat.bind ((storeInNegativeCache_sat hr).mono fun _ _ => .inl hspec)
      · exact Prog.Sat.bind ((storeOrUpdateInCache_sat hr).mono fun _ _ => .inl hspec)
    · -- a negative entry: the archives do not have the name
      have hspec := lookupSpec_of_getFromStoreResult ((hmarked v rfl).2 name rfl) isValidIntl
      cases isValidIntl with
      | true => exact .inr ⟨rfl, hspec⟩
      | false => exact .inl hspec
  · -- a positive entry: the contents the archives hold
    obtain ⟨data, rfl, hres⟩ := (hcached v rfl).1 name rfl
    exact .inl (lookupSpec_of_getFromStoreResult hres isValidIntl)

theorem createResponse_sat (name langName : Str) (isValidIntl reset : Bool) (expires : Str)
    (resp : Response) :
    (createResponse site name langName isValidIntl reset expires resp).Sat
      (handlerDiscipline site) (CreateOk site name langName isValidIntl reset expires resp) :=
  Prog.Sat.bind ((lookup_sat name isValidIntl).mono fun _ h => h.createOk langName reset expires resp)

/-- Every call `TrueGet` makes keeps the caches agreeing, and its answer is one
that agreeing caches allow. -/
theorem trueGet_sat (req : Request) :
    (trueGet site req).Sat (handlerDiscipline site) (AnswerOk site req) := by
  rcases hr : route req with uri | _ | e | p | p | uri
  · simp only [trueGet, hr, Prog.sat_pure]
    exact .inl (by simp only [trueGetSpec, hr])
  · simp only [trueGet, hr, Prog.sat_pure]
    exact .inl (by simp only [trueGetSpec, hr])
  · simp only [trueGet, hr, Prog.sat_raise]
  · -- a clean route: the first call, and the fallback when it returns `False`
    simp only [trueGet, hr]
    refine Prog.Sat.bind ((createResponse_sat ..).mono fun ⟨found, resp⟩ h1 => ?_)
    cases found with
    | false =>
        have h1 : createResponseSpec site p.name p.langName p.isValidIntl p.resetLangCookie
            req.expires Response.empty = .ok (false, resp) :=
          h1.resolve_right fun ⟨h, _⟩ => by cases h
        rcases hc : p.contentUri with _ | contentUri
        · simp only [hc, Bool.false_eq_true, if_false, Prog.sat_raise]
        · simp only [hc, Bool.false_eq_true, if_false]
          refine Prog.Sat.bind ((createResponse_sat ..).mono fun ⟨_, resp2⟩ h2 => .inl ?_)
          simp only [trueGetSpec, hr, h1, hc, h2.eq_spec, Except.map]
    | true =>
        rcases h1 with h1 | ⟨h1, hretry⟩
        · exact .inl (by simp only [trueGetSpec, hr, h1])
        · cases h1
          exact .inr ⟨p, hr, hretry, rfl⟩
  · -- an intl route that is not clean: one call, on a name that is not valid intl
    simp only [trueGet, hr]
    have hv := (route_eq_invalidIntl hr).1
    refine Prog.Sat.bind ((createResponse_sat ..).mono fun ⟨_, resp⟩ h1 => .inl ?_)
    rw [hv] at h1
    simp only [trueGetSpec, hr, hv, h1.eq_spec, Except.map]
  · simp only [trueGet, hr, Prog.sat_pure]
    exact .inl (by simp only [trueGetSpec, hr])

end Handler

/-! ### The server -/

/-- The server: the shared caches, and the requests in flight, each with what
is left of its handler's program. -/
structure Server where
  world : World
  inFlight : List (Request × Prog Response)

/-- The server as it starts: empty caches and no request. -/
def Server.init : Server := ⟨World.empty, []⟩

/-- A program that has returned or raised. -/
def Prog.Done {α : Type} : Prog α → Prop
  | .call _ _ => False
  | _ => True

/-- One step of the server. -/
inductive Step (site : Site) : Server → Server → Prop
  /-- a request arrives and starts `TrueGet` -/
  | arrive (w : World) (inFlight : List (Request × Prog Response)) (req : Request) :
      Step site ⟨w, inFlight⟩ ⟨w, (req, trueGet site req) :: inFlight⟩
  /-- a request in flight makes its next call, atomically -/
  | call (w : World) (pre post : List (Request × Prog Response)) (req : Request) (op : Op)
      (next : op.Answer → Prog Response) :
      Step site ⟨w, pre ++ (req, .call op next) :: post⟩
        ⟨(op.perform w).2, pre ++ (req, next (op.perform w).1) :: post⟩
  /-- a request that has returned or raised leaves -/
  | finish (w : World) (pre post : List (Request × Prog Response)) (req : Request)
      (p : Prog Response) (hp : p.Done) :
      Step site ⟨w, pre ++ (req, p) :: post⟩ ⟨w, pre ++ post⟩
  /-- memcache evicts a key -/
  | evict (w : World) (inFlight : List (Request × Prog Response)) (key : Str) :
      Step site ⟨w, inFlight⟩ ⟨w.evict key, inFlight⟩

/-- The states of the runs of the server. -/
def Reachable (site : Site) (s : Server) : Prop := Relation.ReflTransGen (Step site) Server.init s

/-! ### Requests served one after another -/

/-- A program running alone: its calls, one after another, are steps of the
server, after which it holds what its run ended with. -/
theorem Reachable.runCalls {site : Site} {w : World} {pre post : List (Request × Prog Response)}
    {req : Request} {p : Prog Response} (h : Reachable site ⟨w, pre ++ (req, p) :: post⟩) :
    Reachable site ⟨(p.run w).2, pre ++ (req, Prog.ofExcept (p.run w).1) :: post⟩ := by
  induction p generalizing w with
  | pure a => exact h
  | raise e => exact h
  | call op next ih => exact ih _ (h.tail (.call w pre post req op next))

/-- A program running alone runs to its end and leaves. -/
theorem Reachable.run {site : Site} {w : World} {pre post : List (Request × Prog Response)}
    {req : Request} {p : Prog Response} (h : Reachable site ⟨w, pre ++ (req, p) :: post⟩) :
    Reachable site ⟨(p.run w).2, pre ++ post⟩ :=
  h.runCalls.tail (.finish _ pre post req _ (by rcases (p.run w).1 with _ | _ <;> trivial))

/-- Requests served one after another from empty caches make a run of the server. -/
theorem Reachable.serve {site : Site} {w : World} (h : Reachable site ⟨w, []⟩) (req : Request) :
    Reachable site ⟨((trueGet site req).run w).2, []⟩ :=
  @Reachable.run site w [] [] req _ (h.tail (.arrive w [] req))

/-- What holds in every reachable state: the caches agree, and every request in
flight makes only calls that keep them agreeing and ends, if it returns, with an
answer that agreeing caches allow. -/
structure ServerOk (site : Site) (s : Server) : Prop where
  agree : CachesAgree site s.world
  inFlight : ∀ rp ∈ s.inFlight, rp.2.Sat (handlerDiscipline site) (AnswerOk site rp.1)

theorem serverOk_init (site : Site) : ServerOk site Server.init :=
  ⟨⟨fun _ _ h => (nomatch h), fun _ _ h => (nomatch h)⟩, fun _ h => (nomatch h)⟩

theorem entries_evict {site : Site} {w : World} (key : Str)
    (hw : ∀ key value, w.memcache key = some value → EntryOk site key value) :
    ∀ k v, (w.evict key).memcache k = some v → EntryOk site k v := by
  intro k v hk
  by_cases hkey : k = key
  · simp [World.evict, hkey] at hk
  · exact hw k v (by simpa [World.evict, hkey] using hk)

/-- The step lemma: every step of the server keeps `ServerOk`. -/
theorem ServerOk.step {site : Site} {s s' : Server} (hs : ServerOk site s)
    (h : Step site s s') : ServerOk site s' := by
  cases h with
  | arrive w inFlight req =>
      refine ⟨hs.agree, fun rp hp => ?_⟩
      rcases List.mem_cons.mp hp with rfl | hp
      · exact trueGet_sat req
      · exact hs.inFlight rp hp
  | call w pre post req op next =>
      have hcall := hs.inFlight (req, .call op next) (by simp)
      obtain ⟨hadm, hkeep⟩ := handlerDiscipline_keeps site op w hs.agree
      refine ⟨hkeep hcall.1, fun rp hp => ?_⟩
      simp only [List.mem_append, List.mem_cons] at hp
      rcases hp with hp | rfl | hp
      · exact hs.inFlight rp (by simp [hp])
      · exact hcall.2 _ hadm
      · exact hs.inFlight rp (by simp [hp])
  | finish w pre post req p hp =>
      refine ⟨hs.agree, fun rq hq => hs.inFlight rq ?_⟩
      simp only [List.mem_append, List.mem_cons] at hq ⊢
      tauto
  | evict w inFlight key =>
      exact ⟨⟨hs.agree.zipfiles, entries_evict key hs.agree.entries⟩, hs.inFlight⟩

/-- The run lemma: `ServerOk` holds in every reachable state. -/
theorem Reachable.serverOk {site : Site} {s : Server} (h : Reachable site s) :
    ServerOk site s := by
  induction h with
  | refl => exact serverOk_init site
  | tail _ hstep ih => exact ih.step hstep

/-- Two-tier cache invariant: in every reachable state, a positive entry holds
the contents `GetFromStore` returns, a negative entry marks a file that
`GetFromStore` does not find, and no path has both. -/
theorem reachable_twoTier {site : Site} {s : Server} (hs : Reachable site s) :
    (∀ p v, s.world.memcache (cachePrefix ++ p) = some v →
      ∃ data, v = .str data ∧ ((getFromStore site p).run s.world).1 = .ok (some data)) ∧
    (∀ p v, s.world.memcache (negCachePrefix ++ p) = some v →
      ((getFromStore site p).run s.world).1 = .ok none) ∧
    (∀ p, s.world.memcache (cachePrefix ++ p) = none ∨
      s.world.memcache (negCachePrefix ++ p) = none) := by
  have hagree := hs.serverOk.agree
  have hpos : ∀ p v, s.world.memcache (cachePrefix ++ p) = some v →
      ∃ data, v = .str data ∧ getFromStoreResult site p = some (some data) :=
    fun p v h => (hagree.entries _ v h).1 p rfl
  have hneg : ∀ p v, s.world.memcache (negCachePrefix ++ p) = some v →
      getFromStoreResult site p = some none :=
    fun p v h => (hagree.entries _ v h).2 p rfl
  refine ⟨fun p v h => ?_, fun p v h => run_getFromStore hagree.zipfiles none (hneg p v h),
    fun p => ?_⟩
  · obtain ⟨data, rfl, hres⟩ := hpos p v h
    exact ⟨data, rfl, run_getFromStore hagree.zipfiles _ hres⟩
  · rcases hc : s.world.memcache (cachePrefix ++ p) with _ | v
    · exact .inl rfl
    · rcases hn : s.world.memcache (negCachePrefix ++ p) with _ | v'
      · exact .inr rfl
      · obtain ⟨data, -, hres⟩ := hpos p v hc
        rw [hneg p v' hn] at hres
        cases hres

/-- A request for the first path of `docsSite`, then one for a path its archive
does not hold, served from empty caches: a positive and a negative entry. -/
def docsWorld : World :=
  ((trueGet docsSite ⟨"docs/missing.png".toList, none, [], []⟩).run
    ((trueGet docsSite ⟨"docs/index.html".toList, none, [], []⟩).run World.empty).2).2

theorem reachable_twoTier_docs :
    Reachable docsSite ⟨docsWorld, []⟩ ∧
      (docsWorld.memcache (cachePrefix ++ "docs/index.html".toList)).isSome ∧
      (docsWorld.memcache (negCachePrefix ++ "docs/missing.png".toList)).isSome ∧
      (∀ p v, docsWorld.memcache (cachePrefix ++ p) = some v →
        ∃ data, v = .str data ∧ ((getFromStore docsSite p).run docsWorld).1 = .ok (some data)) ∧
      (∀ p v, docsWorld.memcache (negCachePrefix ++ p) = some v →
        ((getFromStore docsSite p).run docsWorld).1 = .ok none) ∧
      (∀ p, docsWorld.memcache (cachePrefix ++ p) = none ∨
        docsWorld.memcache (negCachePrefix ++ p) = none) :=
  have hs : Reachable docsSite ⟨docsWorld, []⟩ :=
    (Reachable.serve Relation.ReflTransGen.refl _).serve _
  ⟨hs, rfl, rfl, reachable_twoTier hs⟩

/-! ### A negative entry shadows a later request -/

/-- One archive without a declared first path, holding one default-language page. -/
def pageSite : Site where
  zipfilenames := [⟨"docs.zip".toList, none⟩]
  zipfilenames_ne_nil := List.cons_ne_nil _ _
  openZip name :=
    if name = "docs.zip".toList then some ⟨[("page.html".toList, "<p>page</p>".toList)]⟩
    else none
  guessType name := if ".html".toList <:+ name then some "text/html".toList else none

/-- A valid intl request whose remainder is itself a valid intl path. -/
def nestedIntlRequest : Request := ⟨"intl/de/intl/fr/page.html".toList, none, [], []⟩

/-- A valid intl request whose localized page is missing and whose remainder exists. -/
def fallbackRequest : Request := ⟨"intl/fr/page.html".toList, none, [], []⟩

/-- The caches after `nestedIntlRequest` is served from empty caches: its
fallback call stored a negative entry for `intl/fr/page.html`. -/
def shadowWorld : World := ((trueGet pageSite nestedIntlRequest).run World.empty).2

/-- The negative entry a fallback call stores shadows a later valid intl
request: it is answered 404 where, with both tiers empty, it falls back to the
default-language page. -/
theorem trueGet_negativeShadow :
    Reachable pageSite ⟨shadowWorld, []⟩ ∧
      (∃ resp, ((trueGet pageSite fallbackRequest).run shadowWorld).1 = .ok resp ∧
        resp.status = 404) ∧
      (∃ resp, ((trueGet pageSite fallbackRequest).run
          ⟨fun _ => none, shadowWorld.zipfileCache⟩).1 = .ok resp ∧
        resp.status = 200 ∧ resp.body = [.str "<p>page</p>".toList]) :=
  ⟨Reachable.serve Relation.ReflTransGen.refl _, ⟨_, rfl, rfl⟩, ⟨_, rfl, rfl, rfl⟩⟩

end MemcacheZipserve
