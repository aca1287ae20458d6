/-
# What memcache changes in an answer

The two memcache tiers are meant to be a cache only: the answer to a request
should be the one the archives alone give, `trueGetSpec`. Two results say how
far that holds. Run alone from any reachable state, `TrueGet` answers exactly
as `trueGetSpec` does, except at `negativeShadow`: a valid intl request whose
name has a negative entry gets the 404 at once, where the archives alone ask
for the fallback on the remainder of the name. Under any interleaving of
requests and evictions, every answer a handler returns is `trueGetSpec`'s or
that 404. The positive tier, the handle cache and negative entries for other
names change no answer. This is about answers; the caches a request leaves
behind are the subject of the server module.
-/

import MemcacheZipserve.Server

namespace MemcacheZipserve

/-- Where memcache changes the answer: the first `CreateResponse` call of a
clean route looks up a valid intl name that has a negative entry. -/
def negativeShadow (w : World) (req : Request) : Bool :=
  match route req with
  | .clean p => p.isValidIntl && (w.memcache (negCachePrefix ++ p.name)).isSome
  | _ => false

/-! ### The handler refines the meaning -/

section Refinement

variable {site : Site} {w : World}

/-- What the lookup does once the archives answered `r`: it returns
`lookupOutcome`, whatever memcache does with the entry it stores. -/
theorem run_lookup_store (name : Str) (isValidIntl : Bool) (r : Option Str) (w : World) :
    ((match r with
      | some data => do
          storeOrUpdateInCache name (.str data)
          pure (Lookup.found (.str data))
      | none =>
          if isValidIntl then pure .retry
          else do
            storeInNegativeCache name
            pure .notFound : Prog Lookup).run w).1 = .ok (lookupOutcome isValidIntl r) := by
  rcases r with _ | data
  · cases isValidIntl with
    | true => rfl
    | false =>
        simp only [Bool.false_eq_true, if_false, Prog.run_map, run_storeInNegativeCache]
        rfl
  · obtain ⟨a, ha⟩ := (storeOrUpdateInCache_noRaise name (.str data)).run_ok w
    simp only [Prog.run_map, ha]
    rfl

/-- On caches that agree with the archives, the lookup returns what the
archives alone say, except that a negative entry answers 404 for a valid intl
name too. -/
theorem run_lookup_agree (hw : CachesAgree site w) (name : Str) (isValidIntl : Bool) :
    ((lookup site name isValidIntl).run w).1 =
      if isValidIntl && (w.memcache (negCachePrefix ++ name)).isSome then .ok .notFound
      else lookupSpec site name isValidIntl := by
  rcases hc : w.memcache (cachePrefix ++ name) with _ | v
  · rcases hn : w.memcache (negCachePrefix ++ name) with _ | v
    · -- neither tier: the archives decide
      simp only [lookup, Prog.run_bind, run_getFromCache, run_getFromNegativeCache, hc, hn,
        Option.isSome_none, Bool.and_false, Bool.false_eq_true, if_false]
      rcases hstart : loopStart site name with e | ⟨first, rest⟩
      · simp only [getFromStore, hstart, Prog.run_raise, lookupSpec]
      · have hres : getFromStoreResult site name =
            some (firstHolding site name (first :: rest.map (·.name))) := by
          simp only [getFromStoreResult, hstart]
        have hs := run_getFromStore hw.zipfiles _ hres
        rcases hrun : (getFromStore site name).run w with ⟨_ | r, w1⟩
        · rw [hrun] at hs
          cases hs
        · rw [hrun] at hs
          cases hs
          exact (run_lookup_store name isValidIntl _ w1).trans
            (lookupSpec_of_getFromStoreResult hres isValidIntl).symm
    · -- a negative entry: the archives do not have the name
      have hres := (hw.entries _ v hn).2 name rfl
      simp only [lookup, Prog.run_bind, run_getFromCache, run_getFromNegativeCache, hc, hn,
        Prog.run_pure, Option.isSome_some, Bool.and_true, lookupSpec_of_getFromStoreResult hres]
      cases isValidIntl <;> rfl
  · -- a positive entry: the contents the archives hold
    obtain ⟨data, rfl, hres⟩ := (hw.entries _ v hc).1 name rfl
    have hn : w.memcache (negCachePrefix ++ name) = none := by
      rcases hn : w.memcache (negCachePrefix ++ name) with _ | v'
      · rfl
      · cases hres.symm.trans ((hw.entries _ v' hn).2 name rfl)
    simp only [lookup, Prog.run_bind, run_getFromCache, hc, Prog.run_pure, hn,
      Option.isSome_none, Bool.and_false, Bool.false_eq_true, if_false,
      lookupSpec_of_getFromStoreResult hres, lookupOutcome]

theorem run_createResponse_agree (hw : CachesAgree site w) (name langName : Str)
    (isValidIntl reset : Bool) (expires : Str) (resp : Response) :
    ((createResponse site name langName isValidIntl reset expires resp).run w).1 =
      if isValidIntl && (w.memcache (negCachePrefix ++ name)).isSome then
        .ok (true, write404Error resp)
      else createResponseSpec site name langName isValidIntl reset expires resp := by
  rw [run_createResponse, run_lookup_agree hw]
  split_ifs <;> rfl

/-- The caches still agree after a `CreateResponse` call. -/
theorem CachesAgree.createResponse (hw : CachesAgree site w) (name langName : Str)
    (isValidIntl reset : Bool) (expires : Str) (resp : Response) :
    CachesAgree site ((createResponse site name langName isValidIntl reset expires resp).run w).2 :=
  (Prog.run_sat (handlerDiscipline_keeps site) (createResponse_sat ..) hw).1

/-- On caches that agree with the archives, `TrueGet` answers as the archives
alone say, except at a negative shadow, which gets the 404 at once. -/
theorem run_trueGet_agree (hw : CachesAgree site w) (req : Request) :
    ((trueGet site req).run w).1 =
      if negativeShadow w req then .ok (write404Error Response.empty) else trueGetSpec site req := by
  rcases hr : route req with uri | _ | e | p | p | uri
  · simp [trueGet, trueGetSpec, negativeShadow, hr]
  · simp [trueGet, trueGetSpec, negativeShadow, hr]
  · simp [trueGet, trueGetSpec, negativeShadow, hr]
  · -- a clean route: the first call, and the fallback in the world it leaves
    have h1 := run_createResponse_agree hw p.name p.langName p.isValidIntl p.resetLangCookie
      req.expires Response.empty
    have hw1 := hw.createResponse p.name p.langName p.isValidIntl p.resetLangCookie req.expires
      Response.empty
    rw [run_trueGet_clean site hr]
    simp only [negativeShadow, trueGetSpec, hr]
    rcases hrun : (createResponse site p.name p.langName p.isValidIntl p.resetLangCookie
      req.expires Response.empty).run w with ⟨r1, w1⟩
    rw [hrun] at h1 hw1
    split_ifs at h1 ⊢ with hshadow
    · subst h1
      rfl
    · subst h1
      rcases createResponseSpec site p.name p.langName p.isValidIntl p.resetLangCookie
        req.expires Response.empty with e | ⟨_ | _, resp⟩
      · rfl
      · rcases p.contentUri with _ | contentUri
        · rfl
        · simp only [keepResponse, run_createResponse_agree hw1, Bool.false_and,
            Bool.false_eq_true, if_false]
      · rfl
  · -- an intl route that is not clean: one call, on a name that is not valid intl
    rw [run_trueGet_invalidIntl site hr]
    simp only [keepResponse, run_createResponse_agree hw, (route_eq_invalidIntl hr).1,
      Bool.false_and, Bool.false_eq_true, if_false, negativeShadow, trueGetSpec, hr]
  · simp [trueGet, trueGetSpec, negativeShadow, hr]

end Refinement

/-- Memcache changes no answer but through the negative shadow: in every
reachable state of the server, `TrueGet` answers any request as the archives
alone do, except a valid intl request whose name has a negative entry, which
gets the 404 at once. -/
theorem reachable_trueGet_cacheFree {site : Site} {s : Server} (hs : Reachable site s)
    (req : Request) :
    ((trueGet site req).run s.world).1 =
      if negativeShadow s.world req then .ok (write404Error Response.empty)
      else trueGetSpec site req :=
  run_trueGet_agree hs.serverOk.agree req

theorem reachable_trueGet_cacheFree_shadow :
    Reachable pageSite ⟨shadowWorld, []⟩ ∧
      ((trueGet pageSite fallbackRequest).run shadowWorld).1 =
        if negativeShadow shadowWorld fallbackRequest then .ok (write404Error Response.empty)
        else trueGetSpec pageSite fallbackRequest :=
  have hs : Reachable pageSite ⟨shadowWorld, []⟩ := Reachable.serve Relation.ReflTransGen.refl _
  ⟨hs, reachable_trueGet_cacheFree hs fallbackRequest⟩

example : negativeShadow shadowWorld fallbackRequest = true := rfl

/-! ### Concurrent requests -/

/-- Memcache never makes a wrong answer under concurrency: whatever the
interleaving of requests and evictions, a request whose handler has returned
holds `trueGetSpec`'s answer, or the 404 page where the first lookup of its
clean route would retry. -/
theorem reachable_answerOk {site : Site} {s : Server} (hs : Reachable site s) {req : Request}
    {resp : Response} (h : (req, Prog.pure resp) ∈ s.inFlight) : AnswerOk site req resp :=
  hs.serverOk.inFlight _ h

/-- The server once the handler of `fallbackRequest`, run alone from empty
caches, has returned and not yet left. -/
def fallbackReturned : Server :=
  ⟨((trueGet pageSite fallbackRequest).run World.empty).2,
    [(fallbackRequest, Prog.ofExcept ((trueGet pageSite fallbackRequest).run World.empty).1)]⟩

theorem reachable_answerOk_fallback :
    Reachable pageSite fallbackReturned ∧
      ∃ resp, (fallbackRequest, Prog.pure resp) ∈ fallbackReturned.inFlight ∧
        resp.status = 200 ∧ AnswerOk pageSite fallbackRequest resp :=
  have hs : Reachable pageSite fallbackReturned :=
    @Reachable.runCalls pageSite World.empty [] [] fallbackRequest _
      (Relation.ReflTransGen.single (.arrive World.empty [] fallbackRequest))
  have hmem : (fallbackRequest, Prog.pure _) ∈ fallbackReturned.inFlight := List.mem_singleton.mpr rfl
  ⟨hs, _, hmem, rfl, reachable_answerOk hs hmem⟩

end MemcacheZipserve
