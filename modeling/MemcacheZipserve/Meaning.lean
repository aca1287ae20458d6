/-
# What a request means without caches

`TrueGet` keeps two memcache tiers and the handle cache in front of the
archives. This module states what the handler is for, as functions of the site
and the request that read no state: the lookup of `CreateResponse` against the
archives alone, `CreateResponse` on top of it, and `TrueGet` with its fallback.
It also names the answers that caches agreeing with the archives can produce:
the archives' own, and a 404 where a negative entry answers a lookup that the
archives alone would send to the fallback. That the handler keeps to these is
proved over the server's runs, not here.
-/

import MemcacheZipserve.Fallback

namespace MemcacheZipserve

/-! ### The meaning -/

/-- What the lookup makes of what the archives return for the name. -/
def lookupOutcome (isValidIntl : Bool) : Option Str → Lookup
  | some data => .found (.str data)
  | none => if isValidIntl then .retry else .notFound

/-- The lookup of `CreateResponse` against the archives alone. -/
def lookupSpec (site : Site) (name : Str) (isValidIntl : Bool) : Except PyError Lookup :=
  match loopStart site name with
  | .error e => .error e
  | .ok (first, rest) =>
      .ok (lookupOutcome isValidIntl (firstHolding site name (first :: rest.map (·.name))))

/-- `CreateResponse` against the archives alone. -/
def createResponseSpec (site : Site) (name langName : Str) (isValidIntl resetLangCookie : Bool)
    (expires : Str) (resp : Response) : Except PyError (Bool × Response) :=
  (lookupSpec site name isValidIntl).map (respond site name langName resetLangCookie expires resp)

/-- `TrueGet` against the archives alone: the route, `CreateResponse`, and the
fallback when it returns `False`. -/
def trueGetSpec (site : Site) (req : Request) : Except PyError Response :=
  match route req with
  | .redirect uri => .ok (Response.empty.redirect uri)
  | .skip => .ok Response.empty
  | .raise e => .error e
  | .clean p =>
      match createResponseSpec site p.name p.langName p.isValidIntl p.resetLangCookie req.expires
          Response.empty with
      | .ok (true, resp) => .ok resp
      | .ok (false, resp) =>
          match p.contentUri with
          | some contentUri =>
              (createResponseSpec site contentUri p.langName false p.resetLangCookie req.expires
                resp).map Prod.snd
          | none => .error .typeError
      | .error e => .error e
  | .invalidIntl p =>
      (createResponseSpec site p.name p.langName p.isValidIntl p.resetLangCookie req.expires
        Response.empty).map Prod.snd
  | .redirToIntl uri => .ok (Response.empty.redirect uri)

/-! ### The answers agreeing caches allow -/

/-- The outcomes of a lookup that caches agreeing with the archives allow: the
archives' own, or a 404 where the archives ask for a retry. -/
def LookupOk (site : Site) (name : Str) (isValidIntl : Bool) (outcome : Lookup) : Prop :=
  lookupSpec site name isValidIntl = .ok outcome ∨
    (outcome = .notFound ∧ lookupSpec site name isValidIntl = .ok .retry)

/-- The answers of `CreateResponse` that those caches allow. -/
def CreateOk (site : Site) (name langName : Str) (isValidIntl resetLangCookie : Bool)
    (expires : Str) (resp : Response) (answer : Bool × Response) : Prop :=
  createResponseSpec site name langName isValidIntl resetLangCookie expires resp = .ok answer ∨
    (answer = (true, write404Error resp) ∧ lookupSpec site name isValidIntl = .ok .retry)

/-- The answers of `TrueGet` that those caches allow: `trueGetSpec`'s, or the
404 page where the first lookup of a clean route is a retry. -/
def AnswerOk (site : Site) (req : Request) (resp : Response) : Prop :=
  trueGetSpec site req = .ok resp ∨
    ∃ p, route req = .clean p ∧ lookupSpec site p.name p.isValidIntl = .ok .retry ∧
      resp = write404Error Response.empty

section Lemmas

variable {site : Site} {name : Str}

theorem lookupSpec_of_getFromStoreResult {r : Option Str}
    (h : getFromStoreResult site name = some r) (isValidIntl : Bool) :
    lookupSpec site name isValidIntl = .ok (lookupOutcome isValidIntl r) := by
  unfold getFromStoreResult at h
  rcases hs : loopStart site name with e | ⟨first, rest⟩ <;> simp only [hs] at h
  · cases h
  · cases h
    simp only [lookupSpec, hs]

theorem lookupOutcome_false_ne_retry (r : Option Str) : lookupOutcome false r ≠ .retry := by
  cases r <;> simp [lookupOutcome]

/-- Only a valid intl name is ever retried. -/
theorem lookupSpec_false_ne_retry : lookupSpec site name false ≠ .ok .retry := by
  unfold lookupSpec
  split
  · exact Except.noConfusion
  · exact fun h => lookupOutcome_false_ne_retry _ (Except.ok.inj h)

/-- An allowed lookup makes an allowed `CreateResponse`. -/
theorem LookupOk.createOk {isValidIntl : Bool} {outcome : Lookup}
    (h : LookupOk site name isValidIntl outcome) (langName : Str) (reset : Bool) (expires : Str)
    (resp : Response) :
    CreateOk site name langName isValidIntl reset expires resp
      (respond site name langName reset expires resp outcome) := by
  rcases h with h | ⟨rfl, h⟩
  · exact .inl (by simp only [createResponseSpec, h, Except.map])
  · exact .inr ⟨rfl, h⟩

/-- For a name that is not valid intl, the only allowed answer is the archives' own. -/
theorem CreateOk.eq_spec {langName : Str} {reset : Bool} {expires : Str} {resp : Response}
    {answer : Bool × Response} (h : CreateOk site name langName false reset expires resp answer) :
    createResponseSpec site name langName false reset expires resp = .ok answer :=
  h.resolve_right fun ⟨_, hretry⟩ => lookupSpec_false_ne_retry hretry

end Lemmas

end MemcacheZipserve
