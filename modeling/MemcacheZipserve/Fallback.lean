/-
# The fallback retry

`CreateResponse` returns `False` only for a valid intl name that neither cache
tier knows and no archive holds, and then it has written nothing: no header,
no body, no memcache entry (opening archives may still fill the handle cache).
`TrueGet` answers such a `False` with one more call, on the remainder after
`intl/<lang>/` and with `isValidIntl` false, and that call never returns
`False`, though it can raise the `IndexError` of `CompareFilenames`. The placeholder `contentUri = 0` is never passed on. So every answer
of `TrueGet` is a redirect, the 404 page, or found contents under the name the
first call looks up or, after a fallback, under that remainder.
-/

import MemcacheZipserve.Routing

namespace MemcacheZipserve

/-! ### The lookup of `CreateResponse` -/

@[simp] theorem run_getFromCache (name : Str) (w : World) :
    (getFromCache name).run w = (.ok (w.memcache (cachePrefix ++ name)), w) := rfl

@[simp] theorem run_getFromNegativeCache (name : Str) (w : World) :
    (getFromNegativeCache name).run w = (.ok (w.memcache (negCachePrefix ++ name)), w) := rfl

/-- A store followed by the 404 or the contents never asks for a retry. -/
theorem run_then_ne_retry {α : Type} (x : Prog α) {outcome : Lookup} (houtcome : outcome ≠ .retry)
    (w w' : World) : (x >>= fun _ => pure outcome).run w ≠ (.ok .retry, w') := by
  rw [Prog.run_map]
  rcases x.run w with ⟨_ | _, _⟩ <;> simp [Except.map, houtcome]

/-- The lookup asks for a retry only on a valid intl name that neither tier
holds and the archives do not have, and then the world is the one the archive
reader left. -/
theorem run_lookup_eq_retry {site : Site} {name : Str} {isValidIntl : Bool} {w w' : World}
    (h : (lookup site name isValidIntl).run w = (.ok .retry, w')) :
    isValidIntl = true ∧ w.memcache (cachePrefix ++ name) = none ∧
      w.memcache (negCachePrefix ++ name) = none ∧ (getFromStore site name).run w = (.ok none, w') := by
  rcases hc : w.memcache (cachePrefix ++ name) with _ | data
  · rcases hn : w.memcache (negCachePrefix ++ name) with _ | v
    · simp only [lookup, Prog.run_bind, run_getFromCache, run_getFromNegativeCache, hc, hn] at h
      rcases hs : (getFromStore site name).run w with ⟨_ | _ | data, w1⟩
      · simp [hs] at h
      · cases isValidIntl with
        | true =>
            simp only [hs, if_true, Prog.run_pure, Prod.mk.injEq] at h
            exact ⟨rfl, rfl, rfl, by rw [h.2]⟩
        | false =>
            simp only [hs, Bool.false_eq_true, if_false] at h
            exact absurd h (run_then_ne_retry _ Lookup.noConfusion _ _)
      · simp only [hs] at h
        exact absurd h (run_then_ne_retry _ Lookup.noConfusion _ _)
    · simp [lookup, Prog.run_bind, hc, hn] at h
  · simp [lookup, Prog.run_bind, hc] at h

/-! ### `CreateResponse` -/

/-- `respond` says `False` only on a retry, and then leaves the response alone. -/
theorem respond_eq_false {site : Site} {name langName : Str} {reset : Bool} {expires : Str}
    {resp resp' : Response} {outcome : Lookup}
    (h : respond site name langName reset expires resp outcome = (false, resp')) :
    outcome = .retry ∧ resp' = resp := by
  cases outcome with
  | found data => simp [respond] at h
  | notFound => simp [respond] at h
  | retry => exact ⟨rfl, (Prod.mk.inj h).2.symm⟩

theorem run_createResponse_eq_false {site : Site} {name langName : Str} {isValidIntl reset : Bool}
    {expires : Str} {resp resp' : Response} {w w' : World}
    (h : (createResponse site name langName isValidIntl reset expires resp).run w =
      (.ok (false, resp'), w')) :
    (lookup site name isValidIntl).run w = (.ok .retry, w') ∧ resp' = resp := by
  rw [run_createResponse] at h
  rcases hl : (lookup site name isValidIntl).run w with ⟨_ | outcome, w1⟩
  · simp [hl, Except.map] at h
  · simp only [hl, Except.map, Prod.mk.injEq, Except.ok.injEq] at h
    obtain ⟨rfl, rfl⟩ := respond_eq_false h.1
    exact ⟨by rw [h.2], rfl⟩

/-- `CreateResponse` returns `False` only for a valid intl name that neither
tier holds and `GetFromStore` does not find, and then the response and
memcache are as they were. -/
theorem run_createResponse_false {site : Site} {name langName : Str} {isValidIntl reset : Bool}
    {expires : Str} {resp resp' : Response} {w w' : World}
    (h : (createResponse site name langName isValidIntl reset expires resp).run w =
      (.ok (false, resp'), w')) :
    isValidIntl = true ∧ w.memcache (cachePrefix ++ name) = none ∧
      w.memcache (negCachePrefix ++ name) = none ∧
      (getFromStore site name).run w = (.ok none, w') ∧ resp' = resp ∧
      w'.memcache = w.memcache := by
  obtain ⟨hl, rfl⟩ := run_createResponse_eq_false h
  obtain ⟨hv, hc, hn, hs⟩ := run_lookup_eq_retry hl
  have hkeep := @getFromStore_keepsMemcache site name w
  rw [hs] at hkeep
  exact ⟨hv, hc, hn, hs, rfl, hkeep⟩

/-- After the first call on a clean route returns `False`, `TrueGet` is the
second call alone, on the remainder after `intl/<lang>/`, from the untouched
response. -/
theorem run_trueGet_clean_of_false {site : Site} {req : Request} {p : Prepared} {w w₁ : World}
    {resp₁ : Response} (hroute : route req = .clean p)
    (h : (createResponse site p.name p.langName p.isValidIntl p.resetLangCookie req.expires
      Response.empty).run w = (.ok (false, resp₁), w₁)) :
    ∃ lang rest, p.name = intlString ++ lang ++ '/' :: rest ∧ lang ∈ validLangs ∧
      p.contentUri = some rest ∧ resp₁ = Response.empty ∧
      (trueGet site req).run w = keepResponse
        ((createResponse site rest p.langName false p.resetLangCookie req.expires
          Response.empty).run w₁) := by
  obtain ⟨hv, -, -, -, rfl, -⟩ := run_createResponse_false h
  rcases prepare_eq_some (prepare_of_route (.inl hroute)) with rfl | rfl | ⟨lang, rest, hn, hlang, rfl⟩
  · cases hv
  · cases hv
  · refine ⟨lang, rest, hn, hlang, rfl, rfl, ?_⟩
    rw [run_trueGet_clean site hroute, h]

/-- The `CreateResponse` calls of every run of `TrueGet`: none on a redirect,
one on the intl route without the fallback, and on a clean route the first
call, followed only after a `False` by the call on the remainder after
`intl/<lang>/`, with `isValidIntl` false and the untouched empty response. -/
theorem run_trueGet_calls (site : Site) (req : Request) (w : World) :
    (∃ uri, (route req).redirectTarget = some uri ∧
      (trueGet site req).run w = (.ok (Response.empty.redirect uri), w)) ∨
    (∃ p, route req = .invalidIntl p ∧ p.isValidIntl = false ∧
      (trueGet site req).run w = keepResponse
        ((createResponse site p.name p.langName p.isValidIntl p.resetLangCookie req.expires
          Response.empty).run w)) ∨
    ∃ p, route req = .clean p ∧
      ((∃ r w₁, (createResponse site p.name p.langName p.isValidIntl p.resetLangCookie
            req.expires Response.empty).run w = (r, w₁) ∧ (∀ resp, r ≠ .ok (false, resp)) ∧
          (trueGet site req).run w = keepResponse (r, w₁)) ∨
        ∃ lang rest w₁, (createResponse site p.name p.langName p.isValidIntl p.resetLangCookie
            req.expires Response.empty).run w = (.ok (false, Response.empty), w₁) ∧
          IsIntlPath p.name lang rest ∧ p.contentUri = some rest ∧
          (trueGet site req).run w = keepResponse
            ((createResponse site rest p.langName false p.resetLangCookie req.expires
              Response.empty).run w₁)) := by
  rcases hr : route req with uri | _ | e | p | p | uri
  · exact .inl ⟨uri, rfl, by simp [trueGet, hr]⟩
  · exact absurd hr (route_ne_skip req)
  · exact absurd hr (route_ne_raise req e)
  · -- a clean route: the first call, and the fallback only after `False`
    refine .inr (.inr ⟨p, rfl, ?_⟩)
    rw [run_trueGet_clean site hr]
    rcases h1 : (createResponse site p.name p.langName p.isValidIntl p.resetLangCookie req.expires
      Response.empty).run w with ⟨_ | ⟨_ | _, resp⟩, w₁⟩
    · exact .inl ⟨_, _, rfl, fun _ h => Except.noConfusion h, rfl⟩
    · obtain ⟨lang, rest, hn, hlang, hc, rfl, hrun⟩ := run_trueGet_clean_of_false hr h1
      rw [run_trueGet_clean site hr, h1] at hrun
      exact .inr ⟨lang, rest, w₁, rfl, ⟨hlang, hn⟩, hc, hrun⟩
    · exact .inl ⟨_, _, rfl, fun _ h => (by cases h), rfl⟩
  · exact .inr (.inl ⟨p, rfl, (route_eq_invalidIntl hr).1, run_trueGet_invalidIntl site hr w⟩)
  · exact .inl ⟨uri, rfl, by simp [trueGet, hr]⟩

/-! ### What `TrueGet` serves -/

/-- The first lookup of a name finds nothing: neither memcache tier holds it and
`GetFromStore` does not find it. -/
def FirstLookupMisses (site : Site) (w : World) (name : Str) : Prop :=
  w.memcache (cachePrefix ++ name) = none ∧ w.memcache (negCachePrefix ++ name) = none ∧
    ((getFromStore site name).run w).1 = .ok none

/-- `served` is the path whose contents `TrueGet` serves for `name`: the
remainder after `intl/<lang>/` when the first lookup misses the valid intl
name, and the name otherwise. -/
def ServedPath (site : Site) (w : World) (name served : Str) : Prop :=
  (∃ lang, IsIntlPath name lang served) ∧ FirstLookupMisses site w name ∨
    served = name ∧ ¬((∃ lang rest, IsIntlPath name lang rest) ∧ FirstLookupMisses site w name)

/-- A lookup that misses a valid intl name asks for the fallback. -/
theorem run_lookup_of_misses {site : Site} {w : World} {name : Str}
    (h : FirstLookupMisses site w name) : ((lookup site name true).run w).1 = .ok .retry := by
  obtain ⟨hc, hn, hs⟩ := h
  simp only [lookup, Prog.run_bind, run_getFromCache, run_getFromNegativeCache, hc, hn]
  rcases hrun : (getFromStore site name).run w with ⟨r, w1⟩
  rw [hrun] at hs
  cases hs
  rfl

/-- What a `CreateResponse` run answers: the 404 page; found contents emitted
under the name, when its lookup did not miss a valid intl name; or, after such a
miss, `False` with the response untouched. -/
theorem run_createResponse_cases {site : Site} {name langName : Str} {isValidIntl reset : Bool}
    {expires : Str} {resp : Response} {w : World} {found : Bool} {resp' : Response}
    (h : ((createResponse site name langName isValidIntl reset expires resp).run w).1 =
      .ok (found, resp')) :
    found = true ∧ resp' = write404Error resp ∨
      found = true ∧ (∃ data, resp' = emitContent site name langName reset expires data resp) ∧
        ¬(isValidIntl = true ∧ FirstLookupMisses site w name) ∨
      found = false ∧ resp' = resp ∧ isValidIntl = true ∧ FirstLookupMisses site w name := by
  rw [run_createResponse] at h
  rcases hl : (lookup site name isValidIntl).run w with ⟨_ | outcome, w1⟩ <;>
    simp only [hl, Except.map, reduceCtorEq, Except.ok.injEq] at h
  cases outcome with
  | found data =>
      obtain ⟨rfl, rfl⟩ := Prod.mk.inj h
      refine .inr (.inl ⟨rfl, ⟨data, rfl⟩, fun ⟨hv, hmiss⟩ => ?_⟩)
      subst hv
      have hretry := run_lookup_of_misses hmiss
      rw [hl] at hretry
      cases hretry
  | notFound =>
      obtain ⟨rfl, rfl⟩ := Prod.mk.inj h
      exact .inl ⟨rfl, rfl⟩
  | retry =>
      obtain ⟨rfl, rfl⟩ := Prod.mk.inj h
      obtain ⟨hv, hc, hn, hs⟩ := run_lookup_eq_retry hl
      exact .inr (.inr ⟨rfl, rfl, hv, hc, hn, by rw [hs]⟩)

/-- Every response of `TrueGet` is the redirect `route` decides on, or, on a
route without one, the 404 page on an empty response or found contents emitted
on an empty response under the served path, with the language and reset of the
name's intl classification. -/
theorem run_trueGet_cases {site : Site} {w : World} {req : Request} {resp : Response}
    (h : ((trueGet site req).run w).1 = .ok resp) :
    (∃ uri, (route req).redirectTarget = some uri ∧ resp = Response.empty.redirect uri) ∨
      (route req).redirectTarget = none ∧ resp = write404Error Response.empty ∨
      ∃ p served data, (route req).redirectTarget = none ∧
        prepare req.name (req.cookie.getD "en".toList) req.cookie.isNone = some p ∧
        ServedPath site w req.name served ∧
        resp = emitContent site served p.langName p.resetLangCookie req.expires data
          Response.empty := by
  -- the name itself is served when its first lookup did not miss it as valid intl
  have served_name : ∀ {p : Prepared},
      prepare req.name (req.cookie.getD "en".toList) req.cookie.isNone = some p →
      ¬(p.isValidIntl = true ∧ FirstLookupMisses site w p.name) →
      ServedPath site w req.name req.name := fun hp hmiss =>
    .inr ⟨rfl, fun ⟨⟨lang, rest, hpath⟩, hm⟩ => hmiss ⟨by
      rw [prepare_of_isIntlPath hpath] at hp
      cases hp
      rfl, (prepare_name hp).symm ▸ hm⟩⟩
  rcases hr : route req with uri | _ | e | p | p | uri
  · simp only [trueGet, hr, Prog.run_pure, Except.ok.injEq] at h
    exact .inl ⟨uri, rfl, h.symm⟩
  · exact absurd hr (route_ne_skip req)
  · simp [trueGet, hr] at h
  · -- a clean route: the first call, and the fallback when it returns `False`
    have hp := prepare_of_route (.inl hr)
    rcases h1 : (createResponse site p.name p.langName p.isValidIntl p.resetLangCookie req.expires
      Response.empty).run w with ⟨_ | ⟨found, r⟩, w1⟩
    · rw [run_trueGet_clean site hr, h1] at h
      cases h
    · rcases run_createResponse_cases (congrArg Prod.fst h1) with
        ⟨rfl, rfl⟩ | ⟨rfl, ⟨data, rfl⟩, hmiss⟩ | ⟨rfl, rfl, -, hmiss⟩
      · rw [run_trueGet_clean site hr, h1] at h
        exact .inr (.inl ⟨rfl, (Except.ok.inj h).symm⟩)
      · rw [run_trueGet_clean site hr, h1] at h
        refine .inr (.inr ⟨p, req.name, data, rfl, hp, served_name hp hmiss, ?_⟩)
        rw [← prepare_name hp]
        exact (Except.ok.inj h).symm
      · obtain ⟨lang, rest, hname, hlang, -, -, hrun⟩ := run_trueGet_clean_of_false hr h1
        rw [hrun] at h
        rcases h2 : (createResponse site rest p.langName false p.resetLangCookie req.expires
          Response.empty).run w1 with ⟨_ | ⟨found2, r2⟩, w2⟩ <;>
          simp only [h2, keepResponse, Except.map, reduceCtorEq, Except.ok.injEq] at h
        subst h
        have hpath : IsIntlPath req.name lang rest := ⟨hlang, prepare_name hp ▸ hname⟩
        rcases run_createResponse_cases (congrArg Prod.fst h2) with
          ⟨-, rfl⟩ | ⟨-, ⟨data, rfl⟩, -⟩ | ⟨-, -, hv, -⟩
        · exact .inr (.inl ⟨rfl, rfl⟩)
        · exact .inr (.inr ⟨p, rest, data, rfl, hp, .inl ⟨⟨lang, hpath⟩, prepare_name hp ▸ hmiss⟩,
            rfl⟩)
        · cases hv
  · -- an intl route that is not clean: one call, on a name that is not valid intl
    have hp := prepare_of_route (.inr hr)
    rw [run_trueGet_invalidIntl site hr] at h
    rcases h1 : (createResponse site p.name p.langName p.isValidIntl p.resetLangCookie req.expires
      Response.empty).run w with ⟨_ | ⟨found, r⟩, w1⟩ <;>
      simp only [h1, keepResponse, Except.map, reduceCtorEq, Except.ok.injEq] at h
    subst h
    rcases run_createResponse_cases (congrArg Prod.fst h1) with
      ⟨-, rfl⟩ | ⟨-, ⟨data, rfl⟩, hmiss⟩ | ⟨-, -, hv, -⟩
    · exact .inr (.inl ⟨rfl, rfl⟩)
    · refine .inr (.inr ⟨p, req.name, data, rfl, hp, served_name hp hmiss, ?_⟩)
      rw [prepare_name hp]
    · rw [(route_eq_invalidIntl hr).1] at hv
      cases hv
  · simp only [trueGet, hr, Prog.run_pure, Except.ok.injEq] at h
    exact .inl ⟨uri, rfl, h.symm⟩

/-- `TrueGet` answers with the redirect `route` decides on, and with none
otherwise: what `CreateResponse` writes is never a redirect. -/
theorem redirectTarget_run_trueGet (site : Site) (req : Request) (w : World) {resp : Response}
    (h : ((trueGet site req).run w).1 = .ok resp) :
    resp.redirectTarget = (route req).redirectTarget := by
  rcases run_trueGet_cases h with ⟨uri, hr, rfl⟩ | ⟨hr, rfl⟩ | ⟨p, served, data, hr, -, -, rfl⟩
  · rw [hr, Response.redirectTarget_empty_redirect]
  · rw [hr]
    rfl
  · rw [hr, Response.redirectTarget, emitContent_status]
    rfl

/-! ### The redirect chain of `TrueGet` -/

/-- Redirects never loop: a client that follows them makes at most three
requests, so at most two redirects; a `PreprocessUrl` redirect, to an
`index.html`, is never followed by another, and a `RedirToIntl` redirect leads
to a name classified as intl, which is answered without one. The chain is the
one `TrueGet`'s answers make: at every request of it, in every cache state,
`TrueGet` redirects exactly where `route` decides. -/
theorem redirectChain_settles (req : Request) (hname : '?' ∉ req.name)
    (hcookie : ∀ c ∈ req.cookie, '?' ∉ c) (fuel : Nat) :
    (redirectChain fuel req).length ≤ 3 ∧
      ∀ r ∈ redirectChain fuel req,
        (∀ uri, route r = .redirect uri →
          "index.html".toList <:+ uri ∧ ∀ uri', route (r.follow uri) ≠ .redirect uri') ∧
        (∀ uri, route r = .redirToIntl uri → (route (r.follow uri)).isIntl = true) ∧
        ∀ site w resp, ((trueGet site r).run w).1 = .ok resp →
          resp.redirectTarget = (route r).redirectTarget := by
  obtain ⟨hlen, hall⟩ := redirectChain_run ⟨hname, hcookie⟩ fuel
  refine ⟨by have := redirectRank_le req; omega, fun r hr => ?_⟩
  exact ⟨fun _ h => route_follow_of_redirect h (hall r hr),
    fun _ h => route_follow_of_redirToIntl h (hall r hr),
    fun site w _ h => redirectTarget_run_trueGet site r w h⟩

/-- A request with a directory name and a language cookie other than `en`. -/
def guideRequest : Request := ⟨"guide".toList, some "de".toList, [], []⟩

theorem redirectChain_settles_guide :
    '?' ∉ guideRequest.name ∧ (∀ c ∈ guideRequest.cookie, '?' ∉ c) ∧
      (redirectChain 4 guideRequest).length ≤ 3 ∧
      ∀ r ∈ redirectChain 4 guideRequest,
        (∀ uri, route r = .redirect uri →
          "index.html".toList <:+ uri ∧ ∀ uri', route (r.follow uri) ≠ .redirect uri') ∧
        (∀ uri, route r = .redirToIntl uri → (route (r.follow uri)).isIntl = true) ∧
        ∀ site w resp, ((trueGet site r).run w).1 = .ok resp →
          resp.redirectTarget = (route r).redirectTarget :=
  have hname : '?' ∉ guideRequest.name := by decide
  have hcookie : ∀ c ∈ guideRequest.cookie, '?' ∉ c := fun c hc => by cases hc; decide
  ⟨hname, hcookie, redirectChain_settles guideRequest hname hcookie 4⟩

/-! ### What `TrueGet` raises -/

theorem storeOrUpdateInCache_noRaise (name : Str) (data : CacheValue) :
    (storeOrUpdateInCache name data).NoRaise := by
  refine Prog.NoRaise.bind (fun _ => trivial) fun r => ?_
  rcases r with _ | _ | _
  · trivial
  · exact Prog.NoRaise.bind (fun _ => trivial) fun _ => trivial
  · trivial

/-- The negative-cache marker is never too large for memcache, so the
`ValueError` of `StoreInNegativeCache` is never raised. -/
theorem run_storeInNegativeCache (name : Str) (w : World) :
    ((storeInNegativeCache name).run w).1 = .ok () := by
  have hsize : ¬maxItemSize < (CacheValue.int (-1)).size := by decide
  simp only [storeInNegativeCache, cacheAdd, Prog.call_bind, Prog.pure_ctor_bind, Prog.run_call,
    Op.perform, hsize, if_false]
  split_ifs <;> rfl

/-- One archive, which declares its first member as its first path. -/
def docsSite : Site where
  zipfilenames := [⟨"docs.zip".toList, some "docs/index.html".toList⟩]
  zipfilenames_ne_nil := List.cons_ne_nil _ _
  openZip name :=
    if name = "docs.zip".toList then some ⟨[("docs/index.html".toList, "<html/>".toList)]⟩
    else none
  guessType _ := none

/-- A request for a path two or more segments below that first path makes
`CompareFilenames` index past the end of the first path's segments: the
`IndexError` reaches the transport layer. -/
theorem trueGet_below_firstPath_indexError :
    (trueGet docsSite ⟨"docs/index.html/a/b.png".toList, none, [], []⟩).run World.empty =
      (.error .indexError, World.empty) := rfl

/-- A valid intl request, under the cookie of its own language, for a path two
segments below the first path of `docsSite`: the localized path is missing, and
the fallback looks up the path below. -/
def belowIndexRequest : Request := ⟨"intl/de/docs/index.html/a/b.png".toList, some "de".toList, [], []⟩

/-- The fallback retry happens at most once and a failed attempt leaves no
trace, but the retry can raise. `CreateResponse` returns `False` only for a
valid intl name that neither tier holds and `GetFromStore` does not find, with
the response and memcache as they were, and never with `isValidIntl` false.
Every run of `TrueGet` calls `CreateResponse` at most twice: not at all on a
redirect, once on the intl route without the fallback, and on a clean route a
second time only after the first call returned `False`. The second call is on
the remainder after `intl/<lang>/`, with `isValidIntl` false, from the untouched
empty response, so one call at most writes the answer. That second call need
not return `True`: on `docsSite` the fallback of `belowIndexRequest` raises the
`IndexError` of `CompareFilenames`. -/
theorem trueGet_fallback_once :
    (∀ site name langName isValidIntl reset expires resp w resp' w',
      (createResponse site name langName isValidIntl reset expires resp).run w =
          (.ok (false, resp'), w') →
        isValidIntl = true ∧ w.memcache (cachePrefix ++ name) = none ∧
          w.memcache (negCachePrefix ++ name) = none ∧
          (getFromStore site name).run w = (.ok none, w') ∧ resp' = resp ∧
          w'.memcache = w.memcache) ∧
    (∀ site name langName reset expires resp w resp',
      ((createResponse site name langName false reset expires resp).run w).1 ≠
        .ok (false, resp')) ∧
    (∀ site req w,
      (∃ uri, (route req).redirectTarget = some uri ∧
        (trueGet site req).run w = (.ok (Response.empty.redirect uri), w)) ∨
      (∃ p, route req = .invalidIntl p ∧ p.isValidIntl = false ∧
        (trueGet site req).run w = keepResponse
          ((createResponse site p.name p.langName p.isValidIntl p.resetLangCookie req.expires
            Response.empty).run w)) ∨
      ∃ p, route req = .clean p ∧
        ((∃ r w₁, (createResponse site p.name p.langName p.isValidIntl p.resetLangCookie
              req.expires Response.empty).run w = (r, w₁) ∧ (∀ resp, r ≠ .ok (false, resp)) ∧
            (trueGet site req).run w = keepResponse (r, w₁)) ∨
          ∃ lang rest w₁, (createResponse site p.name p.langName p.isValidIntl p.resetLangCookie
              req.expires Response.empty).run w = (.ok (false, Response.empty), w₁) ∧
            IsIntlPath p.name lang rest ∧ p.contentUri = some rest ∧
            (trueGet site req).run w = keepResponse
              ((createResponse site rest p.langName false p.resetLangCookie req.expires
                Response.empty).run w₁))) ∧
    route belowIndexRequest = .clean ⟨belowIndexRequest.name, "de".toList, false, true, true,
      some "docs/index.html/a/b.png".toList⟩ ∧
    ∃ w₁, (createResponse docsSite belowIndexRequest.name "de".toList true false []
        Response.empty).run World.empty = (.ok (false, Response.empty), w₁) ∧
      ((createResponse docsSite "docs/index.html/a/b.png".toList "de".toList false false []
        Response.empty).run w₁).1 = .error .indexError ∧
      ((trueGet docsSite belowIndexRequest).run World.empty).1 = .error .indexError := by
  refine ⟨fun _ _ _ _ _ _ _ _ _ _ h => run_createResponse_false h,
    fun _ _ _ _ _ _ _ _ h => Bool.false_ne_true (run_createResponse_false (Prod.ext h rfl)).1,
    run_trueGet_calls, rfl, _, rfl, rfl, rfl⟩

end MemcacheZipserve
