/-
# The request handler

`TrueGet` and the methods it calls, following the source. The framework's
response object is modelled by what the handler writes into it: the status,
the headers in the order they are set, and the body chunks. `CreateResponse`
is a program over memcache and the archive reader; everything `TrueGet`
decides before it (directory redirects, the intl classification, the cookie
reset and the redirect into `intl/<lang>/`) is a pure function of the request,
`route`.
-/

import MemcacheZipserve.Archive

namespace MemcacheZipserve

/-! ### Constants of `MemcachedZipHandler` -/

/-- `CACHE_PREFIX`, the memcache key prefix for found files -/
def cachePrefix : Str := "cache://".toList

/-- `NEG_CACHE_PREFIX`, the memcache key prefix for missing files -/
def negCachePrefix : Str := "noncache://".toList

/-- `intlString` -/
def intlString : Str := "intl/".toList

/-- `validLangs` -/
def validLangs : List Str :=
  ["en", "de", "es", "fr", "it", "ja", "zh-CN", "zh-TW"].map String.toList

/-- `MAX_AGE`. The wrapper of `create_handler` assigns its `max_age` to a local
variable, so the class value is the one in force. -/
def maxAge : Nat := 600

/-- `PUBLIC`, likewise never changed by `create_handler`. -/
def public : Bool := true

/-! ### The response -/

/-- What the handler has written into `self.response`. -/
structure Response where
  status : Nat
  headers : List (Str × Str)
  body : List CacheValue
  deriving DecidableEq

namespace Response

/-- The response before the handler writes into it. -/
def empty : Response := ⟨200, [], []⟩

/-- `headers.add_header(name, value)` -/
def addHeader (resp : Response) (name value : Str) : Response :=
  { resp with headers := resp.headers ++ [(name, value)] }

/-- `headers[name] = value`, which replaces every header of that name -/
def setHeader (resp : Response) (name value : Str) : Response :=
  { resp with headers := resp.headers.filter (·.1 ≠ name) ++ [(name, value)] }

/-- `out.write(data)` -/
def write (resp : Response) (data : CacheValue) : Response :=
  { resp with body := resp.body ++ [data] }

/-- `self.redirect(uri, False)`: status 302, `Location` set to `uri` (the framework
resolves it against the request URL), body cleared. -/
def redirect (resp : Response) (uri : Str) : Response :=
  { resp.setHeader "Location".toList uri with status := 302, body := [] }

/-- `self.error(code)`: status set, body cleared. -/
def error (resp : Response) (code : Nat) : Response := { resp with status := code, body := [] }

end Response

/-! ### `CreateResponse` -/

/-- `memcache.get(key)` -/
def cacheGet (key : Str) : Prog (Option CacheValue) := .call (.cacheGet key) .pure

/-- `memcache.add(key, value)` -/
def cacheAdd (key : Str) (value : CacheValue) : Prog (Option Bool) := .call (.cacheAdd key value) .pure

/-- `memcache.replace(key, value)` -/
def cacheReplace (key : Str) (value : CacheValue) : Prog (Option Bool) :=
  .call (.cacheReplace key value) .pure

/-- `GetFromCache` -/
def getFromCache (filename : Str) : Prog (Option CacheValue) := cacheGet (cachePrefix ++ filename)

/-- `GetFromNegativeCache` -/
def getFromNegativeCache (filename : Str) : Prog (Option CacheValue) :=
  cacheGet (negCachePrefix ++ filename)

/-- `StoreOrUpdateInCache`: `add`, and `replace` when `add` finds the key taken;
the `ValueError` of an oversized value is logged and dropped. -/
def storeOrUpdateInCache (filename : Str) (data : CacheValue) : Prog Unit := do
  match ← cacheAdd (cachePrefix ++ filename) data with
  | some false => do
      let _ ← cacheReplace (cachePrefix ++ filename) data
      pure ()
  | _ => pure ()

/-- `StoreInNegativeCache`: the result of `add` is ignored, its `ValueError` is
not caught. -/
def storeInNegativeCache (filename : Str) : Prog Unit := do
  match ← cacheAdd (negCachePrefix ++ filename) (.int (-1)) with
  | none => .raise .valueError
  | some _ => pure ()

/-- The body `Write404Error` writes. -/
def notFoundPage : Str :=
  ("<html><head><title>404: Not Found</title></head>" ++
    "<body><b><h2>Error 404</h2><br/>File not found</b></body></html>").toList

/-- `Write404Error` -/
def write404Error (resp : Response) : Response := (resp.error 404).write (.str notFoundPage)

/-- The `Set-Cookie` value for the language preference. -/
def langCookie (langName expires : Str) : Str :=
  "android_developer_pref_lang=".toList ++ langName ++ "; path=/; expires=".toList ++ expires

/-- `SetCachingHeaders`. Line 494 of the source, `cache_control = []`, is indented
with a tab where the method's other lines use spaces, which Python 2 rejects with
an `IndentationError` and Python 3 with a `TabError`. The model repairs it as the
method's first statement, which its place between the docstring and the next
line intends. -/
def setCachingHeaders (revalidate : Bool) (resp : Response) : Response :=
  let cacheControl := (if public then ["public".toList] else []) ++
    ["max-age=".toList ++ (toString maxAge).toList] ++
    (if revalidate then ["must-revalidate".toList] else [])
  resp.setHeader "Cache-Control".toList (", ".toList.intercalate cacheControl)

/-- How the lookup of `CreateResponse` ended. -/
inductive Lookup
  | found (data : CacheValue)
  | notFound
  | retry
  deriving DecidableEq

/-- The lookup of `CreateResponse`: the positive cache, the negative cache, then
the archives. Found contents are cached; a miss is cached negatively, unless
the request is a valid intl one, which is to be retried. -/
def lookup (site : Site) (name : Str) (isValidIntl : Bool) : Prog Lookup := do
  match ← getFromCache name with
  | some data => pure (.found data)
  | none =>
      match ← getFromNegativeCache name with
      | some _ => pure .notFound
      | none =>
          match ← getFromStore site name with
          | some data => do
              storeOrUpdateInCache name (.str data)
              pure (.found (.str data))
          | none =>
              if isValidIntl then pure .retry
              else do
                storeInNegativeCache name
                pure .notFound

/-- `mustRevalidate` of `CreateResponse`: whether the name contains `.html`. -/
def mustRevalidate (name : Str) : Bool := decide (".html".toList <:+: name)

/-- The headers `CreateResponse` adds to found contents first: the cookie reset,
and `Vary: Cookie` for HTML. -/
def negotiationHeaders (name langName : Str) (resetLangCookie : Bool) (expires : Str)
    (resp : Response) : Response :=
  let resp := if resetLangCookie then resp.addHeader "Set-Cookie".toList (langCookie langName expires)
    else resp
  if mustRevalidate name then resp.addHeader "Vary".toList "Cookie".toList else resp

/-- The content type found contents are served with: the guessed type, else the
favicon and `.psd` fallbacks; `none` when `CreateResponse` serves nothing. -/
def contentType (site : Site) (name : Str) : Option Str :=
  match site.guessType name with
  | some contentType => some contentType
  | none =>
      if name = "favicon.ico".toList then some "image/x-icon".toList
      else if ".psd".toList <:+ name then some "application/octet-stream".toList
      else none

/-- The emission of `CreateResponse` once contents were found: the three
branches that serve differ only in the content type, and a name with no type
gets nothing more. -/
def emitContent (site : Site) (name langName : Str) (resetLangCookie : Bool) (expires : Str)
    (data : CacheValue) (resp : Response) : Response :=
  let resp := negotiationHeaders name langName resetLangCookie expires resp
  match contentType site name with
  | some contentType =>
      (setCachingHeaders (mustRevalidate name) (resp.setHeader "Content-Type".toList contentType)).write
        data
  | none => resp

/-- What `CreateResponse` makes of the lookup: `True` with the contents or the
404 written, or `False` with the response untouched. -/
def respond (site : Site) (name langName : Str) (resetLangCookie : Bool) (expires : Str)
    (resp : Response) : Lookup → Bool × Response
  | .found data => (true, emitContent site name langName resetLangCookie expires data resp)
  | .notFound => (true, write404Error resp)
  | .retry => (false, resp)

/-- `CreateResponse` -/
def createResponse (site : Site) (name langName : Str) (isValidIntl resetLangCookie : Bool)
    (expires : Str) (resp : Response) : Prog (Bool × Response) := do
  let outcome ← lookup site name isValidIntl
  pure (respond site name langName resetLangCookie expires resp outcome)

/-! ### `TrueGet` -/

/-- A request as `TrueGet` sees it. -/
structure Request where
  /-- the path the route captured -/
  name : Str
  /-- the `android_developer_pref_lang` cookie, `none` when the request has none -/
  cookie : Option Str
  queryString : Str
  /-- the cookie expiry at the time of the request, as `strftime` formats it -/
  expires : Str

/-- What `PreprocessUrl` did: redirect to `uri` (the source then returns
`False`), or return the URL. -/
inductive Preprocessed
  | redirect (uri : Str)
  | proceed (name : Str)
  deriving DecidableEq

/-- The first step of `PreprocessUrl`: a name whose final segment has no `.`
is a directory and gets a trailing `/`. -/
def directoryName (name : Str) : Str :=
  let finalSlashOffset := rfind '/' name
  if finalSlashOffset ≠ (name.length : Int) - 1 ∧ '.' ∉ name.drop (finalSlashOffset + 1).toNat
  then name ++ ['/'] else name

/-- `PreprocessUrl`: a directory, or the empty path, is redirected to its
`index.html`. -/
def preprocessUrl (name : Str) : Preprocessed :=
  let name := directoryName name
  if name = [] ∨ name.drop (name.length - 1) = ['/'] then
    .redirect (['/'] ++ name ++ "index.html".toList)
  else .proceed name

/-- `isCleanUrl`, with its fall-through `None` as `false`. -/
def isCleanUrl (name langName : Str) (isValidIntl : Bool) : Bool :=
  langName = "en".toList || isValidIntl || !decide (".html".toList <:+: name) ||
    (!isValidIntl && langName.isEmpty)

/-- `RedirToIntl`: the target it redirects to. -/
def redirToIntl (name intlString langName queryString : Str) : Str :=
  ['/'] ++ (intlString ++ langName ++ ['/'] ++ name ++ ['?'] ++ queryString)

/-- The locals of `TrueGet` when it reaches `# Send for processing`. -/
structure Prepared where
  name : Str
  langName : Str
  resetLangCookie : Bool
  isIntl : Bool
  isValidIntl : Bool
  /-- `contentUri`, `none` while it holds the placeholder `0` -/
  contentUri : Option Str
  deriving DecidableEq

/-- The intl preparation of `TrueGet` on the preprocessed name: `name.split("/", 2)`,
the intl test, and for a valid language the URL's language, the cookie reset
and `contentUri = sections[2]`, whose `IndexError` is `none`. -/
def prepare (name langName : Str) (resetLangCookie : Bool) : Option Prepared :=
  match splitMax '/' 2 name with
  | s0 :: s1 :: rest =>
      if s0 = "intl".toList then
        if s1 ∈ validLangs then
          match rest with
          | [] => none
          | contentUri :: _ =>
              some ⟨name, s1, resetLangCookie || decide (langName ≠ s1), true, true, some contentUri⟩
        else some ⟨name, langName, resetLangCookie, true, false, none⟩
      else some ⟨name, langName, resetLangCookie, false, false, none⟩
  | _ => some ⟨name, langName, resetLangCookie, false, false, none⟩

/-- What `TrueGet` decides before it touches any cache. -/
inductive Route
  /-- `PreprocessUrl` redirected -/
  | redirect (uri : Str)
  /-- `if name:` failed -/
  | skip
  | raise (error : PyError)
  /-- a clean URL: `CreateResponse`, and the fallback when it returns `False` -/
  | clean (p : Prepared)
  /-- an intl URL that is not clean: `CreateResponse` once -/
  | invalidIntl (p : Prepared)
  /-- `RedirToIntl` redirected -/
  | redirToIntl (uri : Str)
  deriving DecidableEq

/-- The decision part of `TrueGet`. -/
def route (req : Request) : Route :=
  let langName := req.cookie.getD "en".toList
  let resetLangCookie := req.cookie.isNone
  match preprocessUrl req.name with
  | .redirect uri => .redirect uri
  | .proceed name =>
      if name = [] then .skip
      else
        match prepare name langName resetLangCookie with
        | none => .raise .indexError
        | some p =>
            if isCleanUrl p.name p.langName p.isValidIntl then .clean p
            else if p.isIntl then .invalidIntl p
            else .redirToIntl (redirToIntl p.name intlString p.langName req.queryString)

/-- `TrueGet`. The branch that would call `CreateResponse` with the placeholder
`contentUri = 0` is unreachable: `CreateResponse` returns `False` only for a
valid intl name, whose classification sets `contentUri`
(`run_trueGet_clean_of_false`). The model ends that branch with `typeError`,
which no run raises (`trueGet_error`). -/
def trueGet (site : Site) (req : Request) : Prog Response :=
  match route req with
  | .redirect uri => pure (Response.empty.redirect uri)
  | .skip => pure Response.empty
  | .raise e => .raise e
  | .clean p => do
      let (found, resp) ←
        createResponse site p.name p.langName p.isValidIntl p.resetLangCookie req.expires
          Response.empty
      if found then pure resp
      else
        match p.contentUri with
        | some contentUri => do
            let (_, resp) ←
              createResponse site contentUri p.langName false p.resetLangCookie req.expires resp
            pure resp
        | none => .raise .typeError
  | .invalidIntl p => do
      let (_, resp) ←
        createResponse site p.name p.langName p.isValidIntl p.resetLangCookie req.expires
          Response.empty
      pure resp
  | .redirToIntl uri => pure (Response.empty.redirect uri)

/-! ### Spec lemmas -/

namespace Response

@[simp] theorem status_addHeader (resp : Response) (name value : Str) :
    (resp.addHeader name value).status = resp.status := rfl

@[simp] theorem status_setHeader (resp : Response) (name value : Str) :
    (resp.setHeader name value).status = resp.status := rfl

@[simp] theorem status_write (resp : Response) (data : CacheValue) :
    (resp.write data).status = resp.status := rfl

/-- The redirect a response carries: its `Location` when the status is 302. -/
def redirectTarget (resp : Response) : Option Str :=
  if resp.status = 302 then (resp.headers.find? (·.1 = "Location".toList)).map (·.2) else none

@[simp] theorem redirectTarget_empty_redirect (uri : Str) :
    (empty.redirect uri).redirectTarget = some uri := by
  simp [redirectTarget, redirect, empty, setHeader]

end Response

theorem setCachingHeaders_status (revalidate : Bool) (resp : Response) :
    (setCachingHeaders revalidate resp).status = resp.status := rfl

theorem emitContent_status (site : Site) (name langName : Str) (reset : Bool) (expires : Str)
    (data : CacheValue) (resp : Response) :
    (emitContent site name langName reset expires data resp).status = resp.status := by
  have hneg : (negotiationHeaders name langName reset expires resp).status = resp.status := by
    unfold negotiationHeaders
    split_ifs <;> rfl
  unfold emitContent
  split <;> simp [hneg, setCachingHeaders_status]

/-- A run of `CreateResponse` is a run of its lookup, answered by `respond`. -/
theorem run_createResponse (site : Site) (name langName : Str) (isValidIntl reset : Bool)
    (expires : Str) (resp : Response) (w : World) :
    (createResponse site name langName isValidIntl reset expires resp).run w =
      (((lookup site name isValidIntl).run w).1.map (respond site name langName reset expires resp),
        ((lookup site name isValidIntl).run w).2) := by
  unfold createResponse
  rw [Prog.run_bind]
  rcases (lookup site name isValidIntl).run w with ⟨_ | _, w'⟩ <;> rfl

/-- `CreateResponse` makes the calls of its lookup and no other. -/
theorem trace_createResponse (site : Site) (name langName : Str) (isValidIntl reset : Bool)
    (expires : Str) (resp : Response) (w : World) :
    (createResponse site name langName isValidIntl reset expires resp).trace w =
      (lookup site name isValidIntl).trace w := by
  rw [createResponse, Prog.trace_bind]
  rcases (lookup site name isValidIntl).run w with ⟨_ | _, _⟩ <;> exact List.append_nil _

/-- What the answer to a `CreateResponse` call becomes in `TrueGet`, which keeps
the response. -/
def keepResponse (r : Except PyError (Bool × Response) × World) : Except PyError Response × World :=
  (r.1.map Prod.snd, r.2)

/-- A run of `TrueGet` on a clean URL: the first `CreateResponse` call, and the
fallback call on `contentUri` when it returns `False`. -/
theorem run_trueGet_clean (site : Site) {req : Request} {p : Prepared} (h : route req = .clean p)
    (w : World) :
    (trueGet site req).run w =
      match (createResponse site p.name p.langName p.isValidIntl p.resetLangCookie req.expires
          Response.empty).run w with
      | (.ok (true, resp), w') => (.ok resp, w')
      | (.ok (false, resp), w') =>
          match p.contentUri with
          | some contentUri => keepResponse
              ((createResponse site contentUri p.langName false p.resetLangCookie req.expires resp).run w')
          | none => (.error .typeError, w')
      | (.error e, w') => (.error e, w') := by
  simp only [trueGet, h]
  rw [Prog.run_bind]
  rcases (createResponse site p.name p.langName p.isValidIntl p.resetLangCookie req.expires
    Response.empty).run w with ⟨_ | ⟨_ | _, resp⟩, w'⟩
  · rfl
  · rcases p.contentUri with _ | contentUri
    · rfl
    · simp only [keepResponse, ite_false, Bool.false_eq_true]
      rw [Prog.run_bind]
      rcases (createResponse site contentUri p.langName false p.resetLangCookie req.expires
        resp).run w' with ⟨_ | _, _⟩ <;> rfl
  · rfl

/-- The calls of a run of `TrueGet` on a clean route: those of the first
lookup and, after a `False`, those of the lookup of the remainder. -/
theorem trace_trueGet_clean (site : Site) {req : Request} {p : Prepared} (h : route req = .clean p)
    (w : World) :
    (trueGet site req).trace w =
      (lookup site p.name p.isValidIntl).trace w ++
        match (createResponse site p.name p.langName p.isValidIntl p.resetLangCookie req.expires
            Response.empty).run w with
        | (.ok (false, _), w') =>
            match p.contentUri with
            | some contentUri => (lookup site contentUri false).trace w'
            | none => []
        | _ => [] := by
  simp only [trueGet, h]
  rw [Prog.trace_bind, trace_createResponse]
  congr 1
  rcases (createResponse site p.name p.langName p.isValidIntl p.resetLangCookie req.expires
    Response.empty).run w with ⟨_ | ⟨_ | _, resp⟩, w'⟩
  · rfl
  · rcases p.contentUri with _ | contentUri
    · rfl
    · simp only [ite_false, Bool.false_eq_true]
      rw [Prog.trace_bind, trace_createResponse]
      rcases (createResponse site contentUri p.langName false p.resetLangCookie req.expires
        resp).run w' with ⟨_ | _, _⟩ <;> exact List.append_nil _
  · rfl

/-- A run of `TrueGet` on an intl URL that is not clean: one `CreateResponse` call. -/
theorem run_trueGet_invalidIntl (site : Site) {req : Request} {p : Prepared}
    (h : route req = .invalidIntl p) (w : World) :
    (trueGet site req).run w = keepResponse
      ((createResponse site p.name p.langName p.isValidIntl p.resetLangCookie req.expires
        Response.empty).run w) := by
  simp only [trueGet, h]
  rw [Prog.run_bind]
  rcases (createResponse site p.name p.langName p.isValidIntl p.resetLangCookie req.expires
    Response.empty).run w with ⟨_ | _, w'⟩ <;> rfl

/-- The redirect `route` decides on. -/
def Route.redirectTarget : Route → Option Str
  | .redirect uri => some uri
  | .redirToIntl uri => some uri
  | _ => none

end MemcacheZipserve
