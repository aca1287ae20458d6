/-
# The language cookie across requests

Off the intl paths, an HTML name under a cookie other than `en` is redirected by
`RedirToIntl` to `intl/<cookie>/<name>`, and the client asks again with the same
cookie. For a cookie without `/` the answer to that second request never resets
the cookie: the path's language is the cookie's own. Where the cookie is a
valid language, the request is a clean intl request with the English fallback.
Where it is not, the name is not valid intl either: the request is passed on
without the fallback, so the cookie is never corrected, and from every reachable
state the client gets the 404 page wherever the archives lack
`intl/<cookie>/<name>`, though the default-language page may exist.

Over a whole session the browser keeps the language of each `Set-Cookie` it
gets. Its cookie is then always its first one or a valid language, and it
changes only at a request without a cookie or for a valid intl path in another
language. A session that starts with a cookie and never asks for a valid intl
path keeps that cookie to its end, valid or not.
-/

import MemcacheZipserve.Headers
import MemcacheZipserve.Transparency

namespace MemcacheZipserve

/-- The answer to the request a `RedirToIntl` redirect leads to carries no
`Set-Cookie`, for every cache state: its intl path is in the cookie's own
language, or not valid at all. -/
theorem trueGet_follow_redirToIntl_noSetCookie (site : Site) (w : World) {req : Request}
    {uri c : Str} (hq : req.NoQuery) (hr : route req = .redirToIntl uri) (hc : req.cookie = some c)
    (hslash : '/' ∉ c) {resp : Response} (h : ((trueGet site (req.follow uri)).run w).1 = .ok resp) :
    ∀ header ∈ resp.headers, header.1 ≠ "Set-Cookie".toList := by
  obtain ⟨c', hc', -, -, rfl⟩ := route_eq_redirToIntl hr
  cases hc.symm.trans hc'
  have hcookie : (req.follow (redirToIntl req.name intlString c req.queryString)).cookie = some c := hc
  rcases run_trueGet_cases h with ⟨u, -, rfl⟩ | ⟨-, rfl⟩ | ⟨p, served, data, -, hp, -, rfl⟩
  · -- a redirect: its one header is `Location`
    intro header hheader
    simp only [Response.redirect, Response.setHeader, Response.empty, List.filter_nil,
      List.nil_append, List.mem_singleton] at hheader
    subst hheader
    show "Location".toList ≠ "Set-Cookie".toList
    decide
  · -- the 404 page: no header
    exact fun _ h => absurd h (List.not_mem_nil _)
  · -- found contents, with no reset: the path's language is the cookie's
    have hreset : p.resetLangCookie = false := by
      refine Bool.eq_false_iff.mpr fun ht => ?_
      rcases (prepare_resetLangCookie hp).1.mp ht with hn | ⟨lang, rest, hpath, hne⟩
      · exact Option.noConfusion (hcookie.symm.trans hn)
      · rw [follow_of_redirToIntl hc hq] at hpath
        exact hne (hcookie.trans (congrArg some (hpath.lang_eq hslash).symm))
    have hfilter : _ = [] := (filter_emitContent_setCookie site served p.langName
      p.resetLangCookie req.expires data).trans (by simp [hreset])
    exact fun header hmem hname => List.filter_eq_nil_iff.mp hfilter header hmem (decide_eq_true hname)

/-- The redirect into the cookie's language never corrects a cookie that is not
a valid language: the client's next request passes `intl/<cookie>/<name>` on as
an invalid intl name, under the cookie's own language and without a reset. Its
answer carries no `Set-Cookie` in any cache state, so the client keeps the
cookie, and from every reachable state it is the 404 page wherever the archives
lack that name: the default-language page is never tried. -/
theorem trueGet_follow_invalidCookie {site : Site} {s : Server} (hs : Reachable site s)
    {req : Request} {uri c : Str} (hq : req.NoQuery) (hr : route req = .redirToIntl uri)
    (hc : req.cookie = some c) (hslash : '/' ∉ c) (hinvalid : c ∉ validLangs) :
    route (req.follow uri) = .invalidIntl ⟨(req.follow uri).name, c, false, true, false, none⟩ ∧
    (∀ w resp, ((trueGet site (req.follow uri)).run w).1 = .ok resp →
      ∀ header ∈ resp.headers, header.1 ≠ "Set-Cookie".toList) ∧
    (getFromStoreResult site (req.follow uri).name = some none →
      ((trueGet site (req.follow uri)).run s.world).1 = .ok (write404Error Response.empty)) := by
  have hroute := route_follow_of_invalidLang hr hq hc hslash hinvalid
  refine ⟨hroute, fun w _ => trueGet_follow_redirToIntl_noSetCookie site w hq hr hc hslash,
    fun hres => ?_⟩
  rw [run_trueGet_agree hs.serverOk.agree, negativeShadow, hroute]
  simp only [Bool.false_eq_true, if_false, trueGetSpec, hroute, createResponseSpec,
    lookupSpec_of_getFromStoreResult hres, lookupOutcome, Except.map, respond]

/-- A request for a default-language page under a language cookie the site
does not serve. -/
def unservedCookieRequest : Request := ⟨"page.html".toList, some "pt".toList, [], []⟩

theorem trueGet_follow_invalidCookie_page :
    Reachable pageSite Server.init ∧ unservedCookieRequest.NoQuery ∧
      route unservedCookieRequest = .redirToIntl "/intl/pt/page.html?".toList ∧
      unservedCookieRequest.cookie = some "pt".toList ∧ '/' ∉ "pt".toList ∧
      "pt".toList ∉ validLangs ∧
      ((trueGet pageSite (unservedCookieRequest.follow "/intl/pt/page.html?".toList)).run
        Server.init.world).1 = .ok (write404Error Response.empty) :=
  have hs : Reachable pageSite Server.init := Relation.ReflTransGen.refl
  have hq : unservedCookieRequest.NoQuery :=
    ⟨by decide, fun c hc => by cases Option.some.inj hc; decide⟩
  have hr : route unservedCookieRequest = .redirToIntl "/intl/pt/page.html?".toList := rfl
  have hslash : '/' ∉ "pt".toList := by decide
  have hinvalid : "pt".toList ∉ validLangs := by decide
  ⟨hs, hq, hr, rfl, hslash, hinvalid,
    (trueGet_follow_invalidCookie hs hq hr rfl hslash hinvalid).2.2 rfl⟩

/-- The redirect into the cookie's language does what it is for under a valid
language: the client's next request is the clean intl request for
`intl/<cookie>/<name>`, in the cookie's language and without a reset, whose
fallback is the name first asked for. From every reachable state where no
negative entry shadows that intl name, its answer is the page in the cookie's
language where the archives hold it, else the default-language page, else the
404 page. -/
theorem trueGet_follow_validCookie {site : Site} {s : Server} (hs : Reachable site s)
    {req : Request} {uri c : Str} (hq : req.NoQuery) (hr : route req = .redirToIntl uri)
    (hc : req.cookie = some c) (hvalid : c ∈ validLangs)
    (hshadow : s.world.memcache (negCachePrefix ++ (req.follow uri).name) = none) :
    route (req.follow uri) = .clean ⟨(req.follow uri).name, c, false, true, true, some req.name⟩ ∧
    (∀ data, getFromStoreResult site (req.follow uri).name = some (some data) →
      ((trueGet site (req.follow uri)).run s.world).1 =
        .ok (emitContent site (req.follow uri).name c false req.expires (.str data) Response.empty)) ∧
    (∀ data, getFromStoreResult site (req.follow uri).name = some none →
      getFromStoreResult site req.name = some (some data) →
      ((trueGet site (req.follow uri)).run s.world).1 =
        .ok (emitContent site req.name c false req.expires (.str data) Response.empty)) ∧
    (getFromStoreResult site (req.follow uri).name = some none →
      getFromStoreResult site req.name = some none →
      ((trueGet site (req.follow uri)).run s.world).1 = .ok (write404Error Response.empty)) := by
  have hroute := route_follow_of_validLang hr hq hc hvalid
  have hanswer : ((trueGet site (req.follow uri)).run s.world).1 = trueGetSpec site (req.follow uri) := by
    rw [run_trueGet_agree hs.serverOk.agree]
    simp only [negativeShadow, hroute, hshadow, Option.isSome_none, Bool.and_false,
      Bool.false_eq_true, if_false]
  refine ⟨hroute, fun data hres => ?_, fun data hres hdefault => ?_, fun hres hdefault => ?_⟩ <;>
    simp only [hanswer, trueGetSpec, hroute, createResponseSpec, lookupSpec_of_getFromStoreResult hres,
      lookupOutcome, Except.map, respond, if_true]
  · rfl
  · simp only [lookupSpec_of_getFromStoreResult hdefault, lookupOutcome, Except.map, respond]
    rfl
  · simp only [lookupSpec_of_getFromStoreResult hdefault, lookupOutcome, Except.map, respond,
      Bool.false_eq_true, if_false]

/-- A request for the default-language page under the cookie `fr`. -/
def frenchCookieRequest : Request := ⟨"page.html".toList, some "fr".toList, [], []⟩

theorem trueGet_follow_validCookie_page :
    Reachable pageSite Server.init ∧ frenchCookieRequest.NoQuery ∧
      route frenchCookieRequest = .redirToIntl "/intl/fr/page.html?".toList ∧
      frenchCookieRequest.cookie = some "fr".toList ∧ "fr".toList ∈ validLangs ∧
      Server.init.world.memcache (negCachePrefix ++ "intl/fr/page.html".toList) = none ∧
      ((trueGet pageSite (frenchCookieRequest.follow "/intl/fr/page.html?".toList)).run
        Server.init.world).1 = .ok (emitContent pageSite "page.html".toList "fr".toList false []
          (.str "<p>page</p>".toList) Response.empty) :=
  have hs : Reachable pageSite Server.init := Relation.ReflTransGen.refl
  have hq : frenchCookieRequest.NoQuery :=
    ⟨by decide, fun c hc => by cases Option.some.inj hc; decide⟩
  have hr : route frenchCookieRequest = .redirToIntl "/intl/fr/page.html?".toList := rfl
  have hvalid : "fr".toList ∈ validLangs := by decide
  have hshadow : Server.init.world.memcache (negCachePrefix ++ "intl/fr/page.html".toList) = none :=
    rfl
  ⟨hs, hq, hr, rfl, hvalid, hshadow,
    (trueGet_follow_validCookie hs hq hr rfl hvalid hshadow).2.2.1 _ rfl rfl⟩

/-! ### A browser's session -/

/-- The cookie a browser holds after a response: the language of the
response's first `Set-Cookie`, or the cookie it held. -/
def receiveCookie (cookie : Option Str) (resp : Response) : Option Str :=
  match resp.headers.find? (·.1 = "Set-Cookie".toList) with
  | some (_, value) => (parseLangCookie value).or cookie
  | none => cookie

/-- The request as the browser sends it, with the cookie it holds. -/
def Request.withCookie (req : Request) (cookie : Option Str) : Request :=
  ⟨req.name, cookie, req.queryString, req.expires⟩

/-- The browser's cookie after it sends `req` with `cookie` to the server in
state `w`. -/
def nextCookie (site : Site) (w : World) (req : Request) (cookie : Option Str) : Option Str :=
  match ((trueGet site (req.withCookie cookie)).run w).1 with
  | .ok resp => receiveCookie cookie resp
  | .error _ => cookie

/-- A browser's session with the server serving it alone: each request of the
script goes out with the browser's cookie, whatever cookie the script's request
names, and each answer's `Set-Cookie` replaces it. The cookie at the end, and
the caches. -/
def runSession (site : Site) : List Request → World → Option Str → Option Str × World
  | [], w, cookie => (cookie, w)
  | req :: script, w, cookie =>
      runSession site script ((trueGet site (req.withCookie cookie)).run w).2
        (nextCookie site w req cookie)

/-- What one answer does to the browser's cookie: it stays, unless the request
had none or asked for a valid intl path in another language, and then it becomes
a valid language other than the old cookie, the path's where there is one. -/
theorem receiveCookie_trueGet (site : Site) (w : World) (req : Request) {resp : Response}
    (h : ((trueGet site req).run w).1 = .ok resp) :
    receiveCookie req.cookie resp = req.cookie ∨
      ∃ lang ∈ validLangs, receiveCookie req.cookie resp = some lang ∧ req.cookie ≠ some lang ∧
        (req.cookie = none ∨ ∃ rest, IsIntlPath req.name lang rest) := by
  rcases run_trueGet_cases h with ⟨u, -, rfl⟩ | ⟨-, rfl⟩ | ⟨p, served, data, -, hp, -, rfl⟩
  · exact .inl rfl
  · exact .inl rfl
  · -- found contents: the `Set-Cookie` the classification decided on
    have hfind : (emitContent site served p.langName p.resetLangCookie req.expires data
        Response.empty).headers.find? (·.1 = "Set-Cookie".toList) =
        if p.resetLangCookie then some ("Set-Cookie".toList, langCookie p.langName req.expires)
        else none := by
      rw [← List.filter_head?, filter_emitContent_setCookie]
      split <;> rfl
    obtain ⟨hreset, hlang⟩ := prepare_resetLangCookie hp
    rw [receiveCookie, hfind]
    cases hr : p.resetLangCookie with
    | false => exact .inl rfl
    | true =>
        obtain ⟨hvalid, hne, hpath⟩ := hlang hr
        refine .inr ⟨p.langName, hvalid, ?_, hne, ?_⟩
        · show (parseLangCookie (langCookie p.langName req.expires)).or req.cookie = some p.langName
          rw [parseLangCookie_langCookie (validLangs_not_mem_semicolon _ hvalid)]
          rfl
        · rcases hreset.mp hr with hn | ⟨lang, rest, hpath', -⟩
          · exact .inl hn
          · exact .inr (hpath.resolve_right fun ⟨_, hn⟩ => hn lang rest hpath')

theorem nextCookie_cases (site : Site) (w : World) (req : Request) (cookie : Option Str) :
    nextCookie site w req cookie = cookie ∨
      ∃ lang ∈ validLangs, nextCookie site w req cookie = some lang ∧ cookie ≠ some lang ∧
        (cookie = none ∨ ∃ rest, IsIntlPath req.name lang rest) := by
  unfold nextCookie
  split
  · next resp h => exact receiveCookie_trueGet site w (req.withCookie cookie) h
  · exact .inl rfl

/-- Over every session, from every cache state, the browser's cookie is its
first one or a valid language: the server never gives it another. It changes
only at a request without a cookie or for a valid intl path in another
language, so a session that starts with a cookie and asks for no valid intl
path ends with that cookie, whether it is a valid language or not. -/
theorem runSession_cookie (site : Site) (script : List Request) (w : World)
    (cookie : Option Str) :
    ((runSession site script w cookie).1 = cookie ∨
      ∃ lang ∈ validLangs, (runSession site script w cookie).1 = some lang) ∧
    (cookie ≠ none → (∀ req ∈ script, ∀ lang rest, ¬IsIntlPath req.name lang rest) →
      (runSession site script w cookie).1 = cookie) := by
  induction script generalizing w cookie with
  | nil => exact ⟨.inl rfl, fun _ _ => rfl⟩
  | cons req script ih =>
      obtain ⟨ih1, ih2⟩ := ih ((trueGet site (req.withCookie cookie)).run w).2
        (nextCookie site w req cookie)
      simp only [runSession]
      refine ⟨?_, fun hc hn => ?_⟩
      · rcases nextCookie_cases site w req cookie with hk | ⟨lang, hlang, hk, -⟩
        · rwa [hk] at ih1 ⊢
        · rw [hk] at ih1 ⊢
          exact ih1.elim (fun h => .inr ⟨lang, hlang, h⟩) .inr
      · -- no valid intl path: the first answer keeps the cookie
        have hk : nextCookie site w req cookie = cookie := by
          rcases nextCookie_cases site w req cookie with hk | ⟨lang, -, -, -, hn' | ⟨rest, hpath⟩⟩
          · exact hk
          · exact absurd hn' hc
          · exact absurd hpath (hn req (List.mem_cons_self _ _) lang rest)
        rw [hk] at ih2 ⊢
        exact ih2 hc fun r hr => hn r (List.mem_cons_of_mem _ hr)

/-- A browser session on the default-language page under the cookie `pt`: the
page, then the intl name its redirect leads to. -/
def unservedCookieScript : List Request :=
  [unservedCookieRequest, unservedCookieRequest.follow "/intl/pt/page.html?".toList]

theorem runSession_cookie_unserved :
    some "pt".toList ≠ none ∧
      (∀ req ∈ unservedCookieScript, ∀ lang rest, ¬IsIntlPath req.name lang rest) ∧
      (runSession pageSite unservedCookieScript World.empty (some "pt".toList)).1 =
        some "pt".toList := by
  have hc : some "pt".toList ≠ none := Option.noConfusion
  have hn : ∀ req ∈ unservedCookieScript, ∀ lang rest, ¬IsIntlPath req.name lang rest := by
    intro req hreq
    simp only [unservedCookieScript, List.mem_cons, List.mem_singleton, List.not_mem_nil,
      or_false] at hreq
    rcases hreq with rfl | rfl
    · exact @not_isIntlPath_of_prepare _ [] false
        ⟨"page.html".toList, [], false, false, false, none⟩ rfl rfl
    · exact @not_isIntlPath_of_prepare _ [] false
        ⟨"intl/pt/page.html".toList, [], false, true, false, none⟩ rfl rfl
  exact ⟨hc, hn, (runSession_cookie pageSite unservedCookieScript World.empty _).2 hc hn⟩

end MemcacheZipserve
