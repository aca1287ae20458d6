/-
# The cookie and caching headers of `TrueGet`

Besides the content type, `CreateResponse` gives found contents three headers:
a `Set-Cookie` that resets the language preference, `Vary: Cookie` for HTML,
and `Cache-Control` from `SetCachingHeaders`. They follow decisions taken
before any cache is read. The cookie is reset exactly when the request has
none, or asks for a valid language other than its cookie's, and always to a
valid language, which a browser reads back from the header. `Vary: Cookie`
and `must-revalidate` mark exactly the served paths with `.html`, where the
served path is the remainder after a fallback. 404 pages and redirects carry
neither header. This holds for every cache state
and every store, not only for the reachable ones.
-/

import Mathlib.Data.List.Nodup
import MemcacheZipserve.Negotiation

namespace MemcacheZipserve

/-! ### Headers by name -/

namespace Response

/-- Setting a header leaves the headers of every other name alone. -/
theorem filter_setHeader {N name : Str} (resp : Response) (h : name ≠ N) (value : Str) :
    (resp.setHeader name value).headers.filter (·.1 = N) = resp.headers.filter (·.1 = N) := by
  simp only [setHeader, List.filter_append, List.filter_filter, List.filter_singleton,
    decide_eq_false h, cond_false, List.append_nil]
  congr 1
  funext header
  by_cases hN : header.1 = N <;> simp [hN, h, Ne.symm h]

/-- Setting a header leaves one header of that name. -/
theorem filter_setHeader_self (resp : Response) (name value : Str) :
    (resp.setHeader name value).headers.filter (·.1 = name) = [(name, value)] := by
  simp [setHeader, List.filter_append, List.filter_filter]

end Response

/-- `SetCachingHeaders` sets one `Cache-Control` value, with `must-revalidate`
exactly when asked. -/
theorem filter_setCachingHeaders (revalidate : Bool) (resp : Response) :
    ∃ cc, (setCachingHeaders revalidate resp).headers.filter (·.1 = "Cache-Control".toList) =
        [("Cache-Control".toList, cc)] ∧ ("must-revalidate".toList <:+: cc ↔ revalidate = true) :=
  ⟨_, Response.filter_setHeader_self .., by cases revalidate <;> decide⟩

/-! ### The headers of found contents -/

/-- The emission sets only the content type and `Cache-Control`: every other
header is one `negotiationHeaders` left. -/
theorem filter_emitContent (site : Site) {N : Str} (htype : "Content-Type".toList ≠ N)
    (hcontrol : "Cache-Control".toList ≠ N) (name langName : Str) (reset : Bool) (expires : Str)
    (data : CacheValue) (resp : Response) :
    (emitContent site name langName reset expires data resp).headers.filter (·.1 = N) =
      (negotiationHeaders name langName reset expires resp).headers.filter (·.1 = N) := by
  unfold emitContent
  split
  · exact (Response.filter_setHeader _ hcontrol _).trans (Response.filter_setHeader _ htype _)
  · rfl

theorem filter_negotiationHeaders_setCookie (name langName : Str) (reset : Bool) (expires : Str) :
    (negotiationHeaders name langName reset expires Response.empty).headers.filter
        (·.1 = "Set-Cookie".toList) =
      if reset then [("Set-Cookie".toList, langCookie langName expires)] else [] := by
  have hvary : "Vary".toList ≠ "Set-Cookie".toList := by decide
  unfold negotiationHeaders
  cases reset <;> cases mustRevalidate name <;> simp [Response.addHeader, Response.empty, hvary]

/-- Found contents carry the language cookie exactly when the reset was decided. -/
theorem filter_emitContent_setCookie (site : Site) (name langName : Str) (reset : Bool)
    (expires : Str) (data : CacheValue) :
    (emitContent site name langName reset expires data Response.empty).headers.filter
        (·.1 = "Set-Cookie".toList) =
      if reset then [("Set-Cookie".toList, langCookie langName expires)] else [] :=
  (filter_emitContent site (by decide) (by decide) ..).trans (filter_negotiationHeaders_setCookie ..)

theorem filter_negotiationHeaders_vary (name langName : Str) (reset : Bool) (expires : Str) :
    (negotiationHeaders name langName reset expires Response.empty).headers.filter
        (·.1 = "Vary".toList) =
      if mustRevalidate name then [("Vary".toList, "Cookie".toList)] else [] := by
  have hcookie : "Set-Cookie".toList ≠ "Vary".toList := by decide
  unfold negotiationHeaders
  cases reset <;> cases mustRevalidate name <;> simp [Response.addHeader, Response.empty, hcookie]

theorem negotiationHeaders_body (name langName : Str) (reset : Bool) (expires : Str)
    (resp : Response) : (negotiationHeaders name langName reset expires resp).body = resp.body := by
  unfold negotiationHeaders
  split_ifs <;> rfl

/-- Found contents written with a body carry one `Cache-Control` value, with
`must-revalidate` exactly for a name with `.html`. -/
theorem filter_emitContent_cacheControl {site : Site} {name langName : Str} {reset : Bool}
    {expires : Str} {data : CacheValue}
    (hbody : (emitContent site name langName reset expires data Response.empty).body ≠ []) :
    ∃ cc, (emitContent site name langName reset expires data Response.empty).headers.filter
        (·.1 = "Cache-Control".toList) = [("Cache-Control".toList, cc)] ∧
      ("must-revalidate".toList <:+: cc ↔ mustRevalidate name = true) := by
  rcases hct : contentType site name with _ | ct
  · simp only [emitContent, hct, negotiationHeaders_body] at hbody
    exact absurd rfl hbody
  · simp only [emitContent, hct]
    exact filter_setCachingHeaders _ _

/-! ### The language the route decides on -/

/-- The cookie reset the intl classification decides on: exactly for a request
without the cookie, or for a valid intl path whose language is not the
cookie's. The language it resets to is valid and not the cookie's: the path's
language, or `en` for any other name. -/
theorem prepare_resetLangCookie {req : Request} {p : Prepared}
    (hp : prepare req.name (req.cookie.getD "en".toList) req.cookie.isNone = some p) :
    (p.resetLangCookie = true ↔
      req.cookie = none ∨ ∃ lang rest, IsIntlPath req.name lang rest ∧ req.cookie ≠ some lang) ∧
    (p.resetLangCookie = true → p.langName ∈ validLangs ∧ req.cookie ≠ some p.langName ∧
      ((∃ rest, IsIntlPath req.name p.langName rest) ∨
        (p.langName = "en".toList ∧ ∀ lang rest, ¬IsIntlPath req.name lang rest))) := by
  by_cases hintl : ∃ lang rest, IsIntlPath req.name lang rest
  · -- a valid intl path: its language, reset unless it is the cookie's
    obtain ⟨lang, rest, hpath⟩ := hintl
    rw [prepare_of_isIntlPath hpath] at hp
    cases hp
    have hreset : (req.cookie.isNone || decide (req.cookie.getD "en".toList ≠ lang)) = true ↔
        req.cookie ≠ some lang := by
      rcases req.cookie with _ | c <;> simp
    refine ⟨hreset.trans ⟨fun h => .inr ⟨lang, rest, hpath, h⟩, ?_⟩,
      fun h => ⟨hpath.1, hreset.mp h, .inl ⟨rest, hpath⟩⟩⟩
    rintro (h | ⟨lang', rest', hpath', h⟩)
    · simp [h]
    · rwa [(hpath'.unique hpath).1] at h
  · -- any other name: the cookie's language, reset only without a cookie
    have hn : ∀ lang rest, ¬IsIntlPath req.name lang rest := fun lang rest h => hintl ⟨lang, rest, h⟩
    obtain ⟨hlang, hreset, -⟩ := prepare_of_not_isIntlPath hp hn
    rw [hlang, hreset, Option.isNone_iff_eq_none]
    refine ⟨⟨.inl, fun h => h.resolve_right fun ⟨lang, rest, hpath, _⟩ => hn lang rest hpath⟩,
      fun h => ?_⟩
    rw [h, Option.getD_none]
    exact ⟨by decide, Option.noConfusion, .inr ⟨rfl, hn⟩⟩

/-! ### The cookie a browser reads back -/

/-- The language a browser stores from a `Set-Cookie` value of the handler: the
value of `android_developer_pref_lang`, up to the first `;`. -/
def parseLangCookie (value : Str) : Option Str :=
  if value.take "android_developer_pref_lang=".toList.length = "android_developer_pref_lang=".toList
  then some ((value.drop "android_developer_pref_lang=".toList.length).takeWhile (· != ';'))
  else none

theorem validLangs_not_mem_semicolon : ∀ lang ∈ validLangs, ';' ∉ lang := by decide

/-- The browser reads back the language of every cookie the handler sets, for a
language without `;`. -/
theorem parseLangCookie_langCookie {lang : Str} (h : ';' ∉ lang) (expires : Str) :
    parseLangCookie (langCookie lang expires) = some lang := by
  have hsplit : langCookie lang expires = "android_developer_pref_lang=".toList ++
      (lang ++ ';' :: (" path=/; expires=".toList ++ expires)) := by
    simp only [langCookie, List.append_assoc]
    rfl
  rw [parseLangCookie, hsplit, List.take_left, if_pos rfl, List.drop_left,
    takeWhile_append_cons h]

/-! ### The headers follow the decision -/

theorem mem_filter_name {headers : List (Str × Str)} {N v : Str} :
    (N, v) ∈ headers.filter (·.1 = N) ↔ (N, v) ∈ headers := by
  simp [List.mem_filter]

/-- The cookie and caching headers of every response of `TrueGet`, for every
site, request, cookie and cache state. Every response is found contents
(status 200), the 404 page or a redirect. Found contents carry one `Set-Cookie`
exactly when the request has no cookie or a valid intl path in another
language than its cookie's, and none otherwise. That cookie's language, the one
a browser reads back from it, is the path's, or `en` off the intl paths: always
valid, never the client's cookie.
`Vary: Cookie` marks exactly the served paths with `.html`, the remainder after
a fallback, and so does `must-revalidate` in the `Cache-Control` of a response
with a body. The 404 page and redirects carry neither `Set-Cookie` nor `Vary`. -/
theorem trueGet_cookieHeaders (site : Site) (w : World) (req : Request) {resp : Response}
    (h : ((trueGet site req).run w).1 = .ok resp) :
    (resp.status = 200 ∨ resp.status = 404 ∨ resp.status = 302) ∧
    (resp.status = 200 → ∃ served, ServedPath site w req.name served ∧
      ((req.cookie = none ∨ ∃ lang rest, IsIntlPath req.name lang rest ∧ req.cookie ≠ some lang) →
        resp.headers.countP (·.1 = "Set-Cookie".toList) = 1) ∧
      (¬(req.cookie = none ∨ ∃ lang rest, IsIntlPath req.name lang rest ∧ req.cookie ≠ some lang) →
        resp.headers.countP (·.1 = "Set-Cookie".toList) = 0) ∧
      (∀ v, ("Set-Cookie".toList, v) ∈ resp.headers → ∃ lang, v = langCookie lang req.expires ∧
        parseLangCookie v = some lang ∧ lang ∈ validLangs ∧ req.cookie ≠ some lang ∧
        ((∃ rest, IsIntlPath req.name lang rest) ∨
          (lang = "en".toList ∧ ∀ lang' rest, ¬IsIntlPath req.name lang' rest))) ∧
      (("Vary".toList, "Cookie".toList) ∈ resp.headers ↔ ".html".toList <:+: served) ∧
      (resp.body ≠ [] → (∃ cc, ("Cache-Control".toList, cc) ∈ resp.headers) ∧
        ∀ cc, ("Cache-Control".toList, cc) ∈ resp.headers →
          ("must-revalidate".toList <:+: cc ↔ ".html".toList <:+: served))) ∧
    (resp.status = 404 ∨ resp.status = 302 →
      ∀ header ∈ resp.headers, header.1 ≠ "Set-Cookie".toList ∧ header.1 ≠ "Vary".toList) := by
  rcases run_trueGet_cases h with ⟨uri, -, rfl⟩ | ⟨-, rfl⟩ | ⟨p, served, data, -, hp, hserved, rfl⟩
  · -- a redirect: its one header is `Location`
    refine ⟨.inr (.inr rfl), fun h200 => absurd h200 (show (302 : Nat) ≠ 200 by decide),
      fun _ header hheader => ?_⟩
    simp only [Response.redirect, Response.setHeader, Response.empty, List.filter_nil,
      List.nil_append, List.mem_singleton] at hheader
    subst hheader
    show "Location".toList ≠ "Set-Cookie".toList ∧ "Location".toList ≠ "Vary".toList
    decide
  · -- the 404 page: no header
    exact ⟨.inr (.inl rfl), fun h404 => absurd h404 (by decide),
      fun _ _ h => absurd h (List.not_mem_nil _)⟩
  · -- found contents
    have hstatus := emitContent_status site served p.langName p.resetLangCookie req.expires data
      Response.empty
    obtain ⟨hreset, hlang⟩ := prepare_resetLangCookie hp
    have hcookie := filter_emitContent site (N := "Set-Cookie".toList) (by decide) (by decide)
      served p.langName p.resetLangCookie req.expires data Response.empty
    rw [filter_negotiationHeaders_setCookie] at hcookie
    have hvary := filter_emitContent site (N := "Vary".toList) (by decide) (by decide)
      served p.langName p.resetLangCookie req.expires data Response.empty
    rw [filter_negotiationHeaders_vary] at hvary
    refine ⟨.inl hstatus, fun _ => ⟨served, hserved, fun hc => ?_, fun hc => ?_, fun v hv => ?_, ?_,
      fun hbody => ?_⟩, fun h => absurd h (by rw [hstatus]; decide)⟩
    · rw [List.countP_eq_length_filter, hcookie, hreset.mpr hc, if_pos rfl]
      rfl
    · rw [List.countP_eq_length_filter, hcookie, Bool.eq_false_iff.mpr (mt hreset.mp hc)]
      rfl
    · rw [← mem_filter_name, hcookie] at hv
      split_ifs at hv with hr
      · have hv : v = langCookie p.langName req.expires := (Prod.mk.inj (List.mem_singleton.mp hv)).2
        have hvalid := hlang hr
        exact ⟨p.langName, hv,
          hv ▸ parseLangCookie_langCookie (validLangs_not_mem_semicolon _ hvalid.1) _, hvalid⟩
      · exact absurd hv (List.not_mem_nil _)
    · rw [← mem_filter_name, hvary]
      by_cases hm : ".html".toList <:+: served <;> simp [mustRevalidate, hm]
    · obtain ⟨cc, hcc, hrev⟩ := filter_emitContent_cacheControl hbody
      refine ⟨⟨cc, mem_filter_name.mp (hcc ▸ List.mem_singleton_self _)⟩, fun cc' hcc' => ?_⟩
      rw [← mem_filter_name, hcc, List.mem_singleton, Prod.mk.inj_iff] at hcc'
      rw [hcc'.2, hrev, mustRevalidate, decide_eq_true_iff]

/-! ### No header twice -/

/-- Setting a header keeps the header names distinct. -/
theorem Response.nodup_setHeader {resp : Response} (h : (resp.headers.map (·.1)).Nodup)
    (name value : Str) : ((resp.setHeader name value).headers.map (·.1)).Nodup := by
  simp only [Response.setHeader, List.map_append, List.map_cons, List.map_nil]
  refine List.nodup_append.mpr ⟨((List.filter_sublist _).map _).nodup h, List.nodup_singleton _,
    fun n hn hn' => ?_⟩
  obtain ⟨header, hmem, rfl⟩ := List.mem_map.mp hn
  exact of_decide_eq_true (List.mem_filter.mp hmem).2 (List.mem_singleton.mp hn')

/-- Found contents carry `Set-Cookie` and `Vary` at most once, and the content
type and `Cache-Control` replace any header of their name. -/
theorem nodup_emitContent (site : Site) (name langName : Str) (reset : Bool) (expires : Str)
    (data : CacheValue) :
    ((emitContent site name langName reset expires data Response.empty).headers.map (·.1)).Nodup := by
  have hneg : ((negotiationHeaders name langName reset expires Response.empty).headers.map
      (·.1)).Nodup := by
    unfold negotiationHeaders
    cases reset <;> cases mustRevalidate name <;> simp [Response.addHeader, Response.empty]
  unfold emitContent
  split
  · exact Response.nodup_setHeader (Response.nodup_setHeader hneg _ _) _ _
  · exact hneg

/-- No response of `TrueGet` carries two headers of one name: a redirect has
its `Location`, the 404 page none, and found contents at most one
`Set-Cookie`, `Vary`, `Content-Type` and `Cache-Control` each, since the
fallback starts from the response the first call left untouched. -/
theorem trueGet_headerNames_nodup (site : Site) (w : World) (req : Request) {resp : Response}
    (h : ((trueGet site req).run w).1 = .ok resp) : (resp.headers.map (·.1)).Nodup := by
  rcases run_trueGet_cases h with ⟨uri, -, rfl⟩ | ⟨-, rfl⟩ | ⟨p, served, data, -, -, -, rfl⟩
  · exact List.nodup_singleton _
  · exact List.nodup_nil
  · exact nodup_emitContent site served p.langName p.resetLangCookie req.expires data

/-- A French intl request for the image without a cookie: the localized image is
missing, so the default-language one is served. -/
def intlImageRequest : Request := ⟨"intl/fr/images/logo.png".toList, none, [], []⟩

theorem trueGet_cookieHeaders_intlImage :
    ∃ resp, ((trueGet imageSite intlImageRequest).run World.empty).1 = .ok resp ∧
    (resp.status = 200 ∨ resp.status = 404 ∨ resp.status = 302) ∧
    (resp.status = 200 → ∃ served, ServedPath imageSite World.empty intlImageRequest.name served ∧
      ((intlImageRequest.cookie = none ∨ ∃ lang rest, IsIntlPath intlImageRequest.name lang rest ∧
          intlImageRequest.cookie ≠ some lang) →
        resp.headers.countP (·.1 = "Set-Cookie".toList) = 1) ∧
      (¬(intlImageRequest.cookie = none ∨ ∃ lang rest, IsIntlPath intlImageRequest.name lang rest ∧
          intlImageRequest.cookie ≠ some lang) →
        resp.headers.countP (·.1 = "Set-Cookie".toList) = 0) ∧
      (∀ v, ("Set-Cookie".toList, v) ∈ resp.headers →
        ∃ lang, v = langCookie lang intlImageRequest.expires ∧ parseLangCookie v = some lang ∧
        lang ∈ validLangs ∧ intlImageRequest.cookie ≠ some lang ∧
        ((∃ rest, IsIntlPath intlImageRequest.name lang rest) ∨
          (lang = "en".toList ∧ ∀ lang' rest, ¬IsIntlPath intlImageRequest.name lang' rest))) ∧
      (("Vary".toList, "Cookie".toList) ∈ resp.headers ↔ ".html".toList <:+: served) ∧
      (resp.body ≠ [] → (∃ cc, ("Cache-Control".toList, cc) ∈ resp.headers) ∧
        ∀ cc, ("Cache-Control".toList, cc) ∈ resp.headers →
          ("must-revalidate".toList <:+: cc ↔ ".html".toList <:+: served))) ∧
    (resp.status = 404 ∨ resp.status = 302 →
      ∀ header ∈ resp.headers, header.1 ≠ "Set-Cookie".toList ∧ header.1 ≠ "Vary".toList) :=
  ⟨_, rfl, trueGet_cookieHeaders imageSite World.empty intlImageRequest rfl⟩

theorem trueGet_headerNames_nodup_intlImage :
    ∃ resp, ((trueGet imageSite intlImageRequest).run World.empty).1 = .ok resp ∧
      (resp.headers.map (·.1)).Nodup :=
  ⟨_, rfl, trueGet_headerNames_nodup imageSite World.empty intlImageRequest rfl⟩

example : ∃ resp, ((trueGet imageSite intlImageRequest).run World.empty).1 = .ok resp ∧
    ("Set-Cookie".toList, langCookie "fr".toList []) ∈ resp.headers ∧ resp.body ≠ [] :=
  ⟨_, rfl, by decide, by decide⟩

end MemcacheZipserve
