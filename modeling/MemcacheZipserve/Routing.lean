/-
# Redirects of `TrueGet`

`TrueGet` redirects in two places: `PreprocessUrl` sends a directory to its
`index.html`, and `RedirToIntl` sends an HTML page into the reader's language
tree. This module characterises the names `PreprocessUrl` lets through, shows
that a client following the redirects stops after at most two of them, and
locates the one case in which a redirect target leaves the site.
-/

import MemcacheZipserve.Handler

namespace MemcacheZipserve

/-! ### `PreprocessUrl` -/

/-- The names `PreprocessUrl` lets through: the final segment, after the last
`/`, holds a `.`. -/
def FinalSegmentHasDot (name : Str) : Prop :=
  ('/' ∉ name ∧ '.' ∈ name) ∨ ∃ pre seg, name = pre ++ '/' :: seg ∧ '/' ∉ seg ∧ '.' ∈ seg

theorem directoryName_nil : directoryName [] = [] := by decide

theorem directoryName_of_not_mem {name : Str} (h : '/' ∉ name) (hne : name ≠ []) :
    directoryName name = if '.' ∈ name then name else name ++ ['/'] := by
  have hlen : (-1 : Int) ≠ name.length - 1 := by
    have := List.length_pos.mpr hne
    omega
  by_cases hdot : '.' ∈ name <;> simp [directoryName, rfind_of_not_mem h, hlen, hdot]

theorem directoryName_append_cons {seg : Str} (h : '/' ∉ seg) (pre : Str) :
    directoryName (pre ++ '/' :: seg) =
      if seg ≠ [] ∧ '.' ∉ seg then pre ++ '/' :: seg ++ ['/'] else pre ++ '/' :: seg := by
  have hoff : ((pre.length : Int) + 1).toNat = pre.length + 1 := by omega
  have hlen : ((pre.length : Int) ≠ (pre ++ '/' :: seg).length - 1) ↔ seg ≠ [] := by
    simp only [List.length_append, List.length_cons, ne_eq, ← List.length_eq_zero]
    omega
  have hdrop : (pre ++ '/' :: seg).drop (pre.length + 1) = seg := by
    simp
  simp only [directoryName, rfind_append_cons h, hlen, hoff, hdrop]

/-- A name ends with `/` exactly when it is some name followed by `/`. -/
theorem drop_length_sub_one_eq_slash {name : Str} :
    name.drop (name.length - 1) = ['/'] ↔ ∃ dir, name = dir ++ ['/'] := by
  constructor
  · intro h
    rcases List.eq_nil_or_concat name with rfl | ⟨dir, x, rfl⟩
    · simp at h
    · rw [List.concat_eq_append, drop_length_sub_one_append] at h
      exact ⟨dir, by simp_all⟩
  · rintro ⟨dir, rfl⟩
    exact drop_length_sub_one_append dir '/'

/-- A name that ends with `/` has its last segment empty. -/
theorem mem_of_append_cons_eq_append {c x : Char} {pre seg dir : Str} (hseg : seg ≠ [])
    (h : pre ++ c :: seg = dir ++ [x]) : x ∈ seg := by
  obtain ⟨init, y, rfl⟩ := (List.eq_nil_or_concat seg).resolve_left hseg
  have h' : (pre ++ c :: init) ++ [y] = dir ++ [x] := by simpa using h
  have : y = x := by simpa using (List.append_inj' h' rfl).2
  simp [this]

/-- What `PreprocessUrl` does, in terms of its first step. -/
theorem preprocessUrl_eq_proceed {name n : Str} :
    preprocessUrl name = .proceed n ↔
      n = directoryName name ∧ directoryName name ≠ [] ∧ ¬∃ dir, directoryName name = dir ++ ['/'] := by
  dsimp only [preprocessUrl]
  split_ifs with h
  · simp only [reduceCtorEq, false_iff, not_and, not_not]
    rintro - hne
    exact drop_length_sub_one_eq_slash.mp (h.resolve_left hne)
  · simp only [Preprocessed.proceed.injEq, ← drop_length_sub_one_eq_slash]
    push_neg at h
    exact ⟨fun h' => ⟨h'.symm, h⟩, fun h' => h'.1.symm⟩

theorem FinalSegmentHasDot.ne_nil {name : Str} (h : FinalSegmentHasDot name) : name ≠ [] := by
  rintro rfl
  rcases h with ⟨-, hd⟩ | ⟨pre, seg, hn, -⟩
  · exact List.not_mem_nil _ hd
  · simp at hn

/-- `PreprocessUrl` lets a name through exactly when its final segment holds a
`.`, and then returns it unchanged. -/
theorem preprocessUrl_eq_proceed_iff {name n : Str} :
    preprocessUrl name = .proceed n ↔ n = name ∧ FinalSegmentHasDot name := by
  rw [preprocessUrl_eq_proceed]
  rcases not_mem_or_eq_append_last '/' name with hslash | ⟨pre, seg, rfl, hseg⟩
  · rcases eq_or_ne name [] with rfl | hne
    · rw [directoryName_nil]
      exact iff_of_false (fun h => h.2.1 rfl) (fun h => h.2.ne_nil rfl)
    · have hend : ¬∃ dir, name = dir ++ ['/'] := fun ⟨dir, h⟩ => hslash (by simp [h])
      rw [directoryName_of_not_mem hslash hne]
      by_cases hdot : '.' ∈ name
      · rw [if_pos hdot]
        exact ⟨fun h => ⟨h.1, .inl ⟨hslash, hdot⟩⟩, fun h => ⟨h.1, hne, hend⟩⟩
      · rw [if_neg hdot]
        refine iff_of_false (fun h => h.2.2 ⟨name, rfl⟩) ?_
        rintro ⟨-, ⟨-, h⟩ | ⟨pre, seg, rfl, -, -⟩⟩
        · exact hdot h
        · exact hslash (by simp)
  · rw [directoryName_append_cons hseg]
    have hfinal : FinalSegmentHasDot (pre ++ '/' :: seg) ↔ '.' ∈ seg := by
      constructor
      · rintro (⟨h, -⟩ | ⟨pre', seg', heq, hseg', hdot⟩)
        · exact absurd (by simp) h
        · rwa [eq_of_append_cons_eq hseg hseg' heq]
      · exact fun hdot => .inr ⟨pre, seg, rfl, hseg, hdot⟩
    rw [hfinal]
    by_cases hdot : '.' ∈ seg
    · have hne : seg ≠ [] := by rintro rfl; simp at hdot
      have hend : ¬∃ dir, pre ++ '/' :: seg = dir ++ ['/'] :=
        fun ⟨dir, h⟩ => hseg (mem_of_append_cons_eq_append hne h)
      rw [if_neg fun h => h.2 hdot]
      exact ⟨fun h => ⟨h.1, hdot⟩, fun h => ⟨h.1, by simp, hend⟩⟩
    · refine iff_of_false ?_ fun h => hdot h.2
      rcases eq_or_ne seg [] with rfl | hne
      · rw [if_neg fun h => h.1 rfl]
        exact fun h => h.2.2 ⟨pre, rfl⟩
      · rw [if_pos ⟨hne, hdot⟩]
        exact fun h => h.2.2 ⟨_, rfl⟩

/-- The first step adds at most a trailing `/`, and never to the empty name. -/
theorem directoryName_eq_or (name : Str) :
    directoryName name = name ∨ (name ≠ [] ∧ directoryName name = name ++ ['/']) := by
  dsimp only [directoryName]
  split_ifs with h
  · refine .inr ⟨?_, rfl⟩
    rintro rfl
    exact h.1 (by decide)
  · exact .inl rfl

/-- A `PreprocessUrl` redirect goes to `/`, the directory, then `index.html`;
the directory is empty or ends with `/`. -/
theorem preprocessUrl_eq_redirect {name uri : Str} (h : preprocessUrl name = .redirect uri) :
    uri = '/' :: (directoryName name ++ "index.html".toList) ∧
      (directoryName name = [] ∨ ∃ dir, directoryName name = dir ++ ['/']) := by
  dsimp only [preprocessUrl] at h
  split_ifs at h with hc
  injection h with h
  exact ⟨h.symm, hc.imp_right drop_length_sub_one_eq_slash.mp⟩

theorem finalSegmentHasDot_index {dir : Str} (h : dir = [] ∨ ∃ d, dir = d ++ ['/']) :
    FinalSegmentHasDot (dir ++ "index.html".toList) := by
  rcases h with rfl | ⟨d, rfl⟩
  · exact .inl ⟨by decide, by decide⟩
  · exact .inr ⟨d, "index.html".toList, by simp, by decide, by decide⟩

/-- A name behind a directory keeps its final segment. -/
theorem finalSegmentHasDot_append {n : Str} (h : FinalSegmentHasDot n) (pre : Str) :
    FinalSegmentHasDot (pre ++ '/' :: n) := by
  rcases h with ⟨hslash, hdot⟩ | ⟨pre', seg, rfl, hseg, hdot⟩
  · exact .inr ⟨pre, n, rfl, hslash, hdot⟩
  · exact .inr ⟨pre ++ '/' :: pre', seg, by simp, hseg, hdot⟩

/-! ### The intl classification -/

theorem validLangs_not_mem_dot : ∀ lang ∈ validLangs, '.' ∉ lang := by decide

/-- The three outcomes of the intl classification. -/
theorem prepare_eq_some {n langName : Str} {reset : Bool} {p : Prepared}
    (h : prepare n langName reset = some p) :
    p = ⟨n, langName, reset, false, false, none⟩ ∨ p = ⟨n, langName, reset, true, false, none⟩ ∨
      ∃ lang rest, n = intlString ++ lang ++ '/' :: rest ∧ lang ∈ validLangs ∧
        p = ⟨n, lang, reset || decide (langName ≠ lang), true, true, some rest⟩ := by
  rcases splitMax_two_cases '/' n with ⟨-, hs⟩ | ⟨a, b, rfl, -, -, hs⟩ | ⟨a, b, c, rfl, -, -, hs⟩
  · simp only [prepare, hs] at h
    cases h
    exact .inl rfl
  · simp only [prepare, hs] at h
    split_ifs at h <;> cases h
    · exact .inr (.inl rfl)
    · exact .inl rfl
  · simp only [prepare, hs] at h
    split_ifs at h with ha hlang <;> cases h
    · subst ha
      exact .inr (.inr ⟨b, c, rfl, hlang, rfl⟩)
    · exact .inr (.inl rfl)
    · exact .inl rfl

/-- `name` is `intl/<lang>/rest` for a valid language `lang`. -/
def IsIntlPath (name lang rest : Str) : Prop :=
  lang ∈ validLangs ∧ name = intlString ++ lang ++ '/' :: rest

theorem validLangs_not_mem_slash : ∀ lang ∈ validLangs, '/' ∉ lang := by decide

/-- A valid intl path is classified with its language and remainder. -/
theorem prepare_of_isIntlPath {n lang rest : Str} (h : IsIntlPath n lang rest) (langName : Str)
    (reset : Bool) :
    prepare n langName reset =
      some ⟨n, lang, reset || decide (langName ≠ lang), true, true, some rest⟩ := by
  obtain ⟨hlang, rfl⟩ := h
  have hs : splitMax '/' 2 (intlString ++ lang ++ '/' :: rest) = ["intl".toList, lang, rest] := by
    rw [show intlString ++ lang ++ '/' :: rest = "intl".toList ++ '/' :: (lang ++ '/' :: rest) by
      simp [intlString]]
    rw [splitMax_append_cons (by decide), splitMax_append_cons (validLangs_not_mem_slash lang hlang),
      splitMax]
  simp only [prepare, hs, if_true, hlang]

/-- A name has one intl path at most: a valid language has no `/`. -/
theorem IsIntlPath.unique {n l1 r1 l2 r2 : Str} (h1 : IsIntlPath n l1 r1) (h2 : IsIntlPath n l2 r2) :
    l1 = l2 ∧ r1 = r2 := by
  have h := (prepare_of_isIntlPath h1 [] false).symm.trans (prepare_of_isIntlPath h2 [] false)
  simp only [Option.some.injEq, Prepared.mk.injEq] at h
  exact ⟨h.2.1, h.2.2.2.2.2⟩

/-- Below `intl/<c>/` for a `c` without `/`, `c` is the only language a valid
intl path can have. -/
theorem IsIntlPath.lang_eq {c n lang rest : Str} (hslash : '/' ∉ c)
    (h : IsIntlPath ("intl".toList ++ '/' :: (c ++ '/' :: n)) lang rest) : lang = c := by
  have heq : "intl".toList ++ '/' :: (lang ++ '/' :: rest) = "intl".toList ++ '/' :: (c ++ '/' :: n) := by
    rw [h.2]
    simp [intlString]
  simp only [List.append_cancel_left_eq, List.cons.injEq, true_and] at heq
  rw [← takeWhile_append_cons (validLangs_not_mem_slash lang h.1) rest, heq,
    takeWhile_append_cons hslash]

/-- A name the classification does not find valid intl is no valid intl path. -/
theorem not_isIntlPath_of_prepare {n langName : Str} {reset : Bool} {p : Prepared}
    (h : prepare n langName reset = some p) (hv : p.isValidIntl = false) (lang rest : Str) :
    ¬IsIntlPath n lang rest := fun hpath => by
  rw [prepare_of_isIntlPath hpath] at h
  cases h
  cases hv

/-- Any other name keeps the cookie's language and reset, and is not valid intl. -/
theorem prepare_of_not_isIntlPath {n langName : Str} {reset : Bool} {p : Prepared}
    (h : prepare n langName reset = some p) (hn : ∀ lang rest, ¬IsIntlPath n lang rest) :
    p.langName = langName ∧ p.resetLangCookie = reset ∧ p.isValidIntl = false := by
  rcases prepare_eq_some h with rfl | rfl | ⟨lang, rest, hname, hlang, -⟩
  · exact ⟨rfl, rfl, rfl⟩
  · exact ⟨rfl, rfl, rfl⟩
  · exact absurd ⟨hlang, hname⟩ (hn lang rest)

theorem prepare_name {n langName : Str} {reset : Bool} {p : Prepared}
    (h : prepare n langName reset = some p) : p.name = n := by
  rcases prepare_eq_some h with rfl | rfl | ⟨_, _, _, _, rfl⟩ <;> rfl

/-- `contentUri = sections[2]` raises only for `intl/<lang>` with a valid
language and nothing after it. -/
theorem prepare_eq_none {n langName : Str} {reset : Bool} (h : prepare n langName reset = none) :
    ∃ lang, n = "intl".toList ++ '/' :: lang ∧ '/' ∉ lang ∧ lang ∈ validLangs := by
  rcases splitMax_two_cases '/' n with ⟨-, hs⟩ | ⟨a, b, rfl, -, hb, hs⟩ | ⟨a, b, c, rfl, -, -, hs⟩
  · simp [prepare, hs] at h
  · simp only [prepare, hs] at h
    split_ifs at h with ha hvalid
    exact ⟨b, by rw [ha], hb, hvalid⟩
  · simp only [prepare, hs] at h
    split_ifs at h

/-- What `PreprocessUrl` lets through never raises at `sections[2]`: a valid
language code has no `.`, so `intl/<lang>` was redirected. -/
theorem prepare_ne_none_of_finalSegmentHasDot {n langName : Str} {reset : Bool}
    (h : FinalSegmentHasDot n) : prepare n langName reset ≠ none := by
  intro hnone
  obtain ⟨lang, rfl, hslash, hvalid⟩ := prepare_eq_none hnone
  rcases h with ⟨h, -⟩ | ⟨pre, seg, heq, hseg, hdot⟩
  · exact h (by simp)
  · rw [eq_of_append_cons_eq hslash hseg heq] at hvalid
    exact validLangs_not_mem_dot seg hvalid hdot

/-- Three sections under `intl` always classify as intl. -/
theorem prepare_isIntl {t langName : Str} {reset : Bool} (ht : '/' ∈ t) :
    ∃ p, prepare ("intl".toList ++ '/' :: t) langName reset = some p ∧ p.isIntl = true := by
  obtain ⟨a, b, rfl, ha⟩ := (not_mem_or_eq_append_first '/' t).resolve_left (not_not.mpr ht)
  have hs : splitMax '/' 2 ("intl".toList ++ '/' :: (a ++ '/' :: b)) = ["intl".toList, a, b] := by
    rw [splitMax_append_cons (by decide), splitMax_append_cons ha, splitMax]
  simp only [prepare, hs, if_true]
  split_ifs <;> simp

/-! ### `route` -/

/-- The route a name `PreprocessUrl` lets through takes: never a redirect of
`PreprocessUrl`, and never the `IndexError` of `sections[2]`. -/
theorem route_of_proceed {req : Request} (hpre : preprocessUrl req.name = .proceed req.name) :
    ∃ p, prepare req.name (req.cookie.getD "en".toList) req.cookie.isNone = some p ∧
      route req = if isCleanUrl p.name p.langName p.isValidIntl then .clean p
        else if p.isIntl then .invalidIntl p
        else .redirToIntl (redirToIntl p.name intlString p.langName req.queryString) := by
  have hdot := (preprocessUrl_eq_proceed_iff.mp hpre).2
  obtain ⟨p, hp⟩ := Option.ne_none_iff_exists'.mp
    (@prepare_ne_none_of_finalSegmentHasDot _ (req.cookie.getD "en".toList) req.cookie.isNone hdot)
  exact ⟨p, hp, by simp only [route, hpre, hdot.ne_nil, if_false, hp]⟩

theorem route_eq_redirect_iff {req : Request} {uri : Str} :
    route req = .redirect uri ↔ preprocessUrl req.name = .redirect uri := by
  rcases hpre : preprocessUrl req.name with u | n
  · simp [route, hpre]
  · obtain ⟨rfl, hdot⟩ := preprocessUrl_eq_proceed_iff.mp hpre
    obtain ⟨p, -, hr⟩ := route_of_proceed hpre
    rw [hr]
    split_ifs <;> simp

/-- A route that calls `CreateResponse` carries the intl classification of the name. -/
theorem prepare_of_route {req : Request} {p : Prepared}
    (h : route req = .clean p ∨ route req = .invalidIntl p) :
    prepare req.name (req.cookie.getD "en".toList) req.cookie.isNone = some p := by
  rcases hpre : preprocessUrl req.name with u | n
  · rcases h with h | h <;> simp [route, hpre] at h
  · obtain ⟨rfl, -⟩ := preprocessUrl_eq_proceed_iff.mp hpre
    obtain ⟨p', hp', hr⟩ := route_of_proceed hpre
    rw [hr] at h
    split_ifs at h <;> rcases h with h | h <;> cases h <;> exact hp'

/-- A name without `.html` is clean under every cookie. -/
theorem isCleanUrl_of_mustRevalidate {name : Str} (h : mustRevalidate name = false)
    (langName : Str) (isValidIntl : Bool) : isCleanUrl name langName isValidIntl = true := by
  simp only [mustRevalidate] at h
  simp only [isCleanUrl, h, Bool.not_false, Bool.or_true, Bool.true_or]

/-- A name that is not valid intl is unclean exactly for an HTML name under a
cookie other than `en` and the empty string. -/
theorem isCleanUrl_false_iff {name langName : Str} :
    isCleanUrl name langName false = false ↔
      langName ≠ "en".toList ∧ ".html".toList <:+: name ∧ langName ≠ [] := by
  simp [isCleanUrl, and_assoc]

/-- The route that passes an intl name on without the fallback is taken only for
an invalid language and a name with `.html`. -/
theorem route_eq_invalidIntl {req : Request} {p : Prepared} (h : route req = .invalidIntl p) :
    p.isValidIntl = false ∧ mustRevalidate p.name = true := by
  rcases hpre : preprocessUrl req.name with u | n
  · simp [route, hpre] at h
  · obtain ⟨rfl, -⟩ := preprocessUrl_eq_proceed_iff.mp hpre
    obtain ⟨p', -, hr⟩ := route_of_proceed hpre
    rw [hr] at h
    split_ifs at h with hclean
    cases h
    refine ⟨?_, ?_⟩
    · cases hv : p.isValidIntl
      · rfl
      · simp [isCleanUrl, hv] at hclean
    · cases hm : mustRevalidate p.name
      · exact absurd (isCleanUrl_of_mustRevalidate hm _ _) hclean
      · rfl

/-- A let-through name classified intl is served, never redirected. -/
theorem route_of_isIntl {req : Request} {p : Prepared}
    (hpre : preprocessUrl req.name = .proceed req.name)
    (hp : prepare req.name (req.cookie.getD "en".toList) req.cookie.isNone = some p)
    (hintl : p.isIntl = true) : route req = .clean p ∨ route req = .invalidIntl p := by
  obtain ⟨p', hp', hr⟩ := route_of_proceed hpre
  obtain rfl : p' = p := Option.some.inj (hp'.symm.trans hp)
  rw [hr]
  by_cases hc : isCleanUrl p'.name p'.langName p'.isValidIntl = true <;> simp [hc, hintl]

/-- `RedirToIntl` is reached only with a cookie under which the name is not
clean, on a name outside the intl tree that `PreprocessUrl` let through. -/
theorem route_eq_redirToIntl {req : Request} {uri : Str} (h : route req = .redirToIntl uri) :
    ∃ c, req.cookie = some c ∧ FinalSegmentHasDot req.name ∧ isCleanUrl req.name c false = false ∧
      uri = redirToIntl req.name intlString c req.queryString := by
  rcases hpre : preprocessUrl req.name with u | n
  · simp [route, hpre] at h
  · obtain ⟨rfl, hdot⟩ := preprocessUrl_eq_proceed_iff.mp hpre
    obtain ⟨p, hp, hr⟩ := route_of_proceed hpre
    rw [hr] at h
    split_ifs at h with hclean hintl
    cases h
    rcases prepare_eq_some hp with rfl | rfl | ⟨_, _, -, -, rfl⟩
    · rcases hc : req.cookie with _ | c
      · simp [hc, isCleanUrl] at hclean
      · exact ⟨c, rfl, hdot, by simpa [hc] using hclean, by simp [hc]⟩
    · simp at hintl
    · simp at hintl

/-- Every name `PreprocessUrl` lets through has a third section when it needs
one: `TrueGet` never raises at `contentUri = sections[2]`. -/
theorem route_ne_raise (req : Request) (e : PyError) : route req ≠ .raise e := by
  rcases hpre : preprocessUrl req.name with u | n
  · simp [route, hpre]
  · obtain ⟨rfl, -⟩ := preprocessUrl_eq_proceed_iff.mp hpre
    obtain ⟨p, -, hr⟩ := route_of_proceed hpre
    rw [hr]
    split_ifs <;> simp

/-- The empty name is redirected, so the `if name:` of `TrueGet` never fails. -/
theorem route_ne_skip (req : Request) : route req ≠ .skip := by
  rcases hpre : preprocessUrl req.name with u | n
  · simp [route, hpre]
  · obtain ⟨rfl, -⟩ := preprocessUrl_eq_proceed_iff.mp hpre
    obtain ⟨p, -, hr⟩ := route_of_proceed hpre
    rw [hr]
    split_ifs <;> simp

/-! ### Following redirects -/

/-- The request a client makes when it follows a redirect to `uri`: the
leading `/` goes, the name ends at the query, and the cookie stays, since a
redirect sets none. -/
def Request.follow (req : Request) (uri : Str) : Request :=
  let target := uri.drop 1
  ⟨target.takeWhile (· != '?'), req.cookie, (target.dropWhile (· != '?')).drop 1, req.expires⟩

/-- The requests a client makes when it follows every redirect `TrueGet`
issues from `req`, at most `fuel` of them. By `redirectTarget_run_trueGet` the
redirect is the one `route` decides on, in every cache state. -/
def redirectChain : Nat → Request → List Request
  | 0, _ => []
  | fuel + 1, req =>
      req :: match (route req).redirectTarget with
        | none => []
        | some uri => redirectChain fuel (req.follow uri)

/-- A route taken on a name classified as intl. -/
def Route.isIntl : Route → Bool
  | .clean p => p.isIntl
  | .invalidIntl p => p.isIntl
  | _ => false

theorem Route.redirectTarget_eq_none_of_isIntl {r : Route} (h : r.isIntl = true) :
    r.redirectTarget = none := by
  cases r <;> simp_all [isIntl, redirectTarget]

/-- Neither the name nor the cookie holds a `?`, so a redirect target's query
is the only one. -/
def Request.NoQuery (req : Request) : Prop :=
  '?' ∉ req.name ∧ ∀ c ∈ req.cookie, '?' ∉ c

theorem not_mem_directoryName {c : Char} {name : Str} (hc : c ≠ '/') (h : c ∉ name) :
    c ∉ directoryName name := by
  rcases directoryName_eq_or name with hd | ⟨-, hd⟩ <;> simp [hd, h, hc]

/-- After a `PreprocessUrl` redirect the client asks for the `index.html`,
which `PreprocessUrl` lets through. -/
theorem follow_of_preprocessUrl_redirect {req : Request} {uri : Str}
    (h : preprocessUrl req.name = .redirect uri) (hq : req.NoQuery) :
    (req.follow uri).name = directoryName req.name ++ "index.html".toList ∧
      FinalSegmentHasDot (req.follow uri).name := by
  obtain ⟨rfl, hdir⟩ := preprocessUrl_eq_redirect h
  have hname : (req.follow ('/' :: (directoryName req.name ++ "index.html".toList))).name =
      directoryName req.name ++ "index.html".toList := by
    refine List.takeWhile_eq_self_iff.mpr fun x hx => ?_
    have hne : x ≠ '?' := by
      rintro rfl
      rcases List.mem_append.mp hx with hx | hx
      · exact not_mem_directoryName (by decide) hq.1 hx
      · exact absurd hx (by decide)
    simpa using hne
  refine ⟨hname, ?_⟩
  rw [hname]
  exact finalSegmentHasDot_index hdir

theorem drop_one_redirToIntl (name langName queryString : Str) :
    (redirToIntl name intlString langName queryString).drop 1 =
      (intlString ++ langName ++ '/' :: name) ++ '?' :: queryString := by
  simp [redirToIntl]

/-- After a `RedirToIntl` redirect the client asks for `intl/<cookie>/<name>`. -/
theorem follow_of_redirToIntl {req : Request} {c : Str} (hc : req.cookie = some c)
    (hq : req.NoQuery) :
    (req.follow (redirToIntl req.name intlString c req.queryString)).name =
      "intl".toList ++ '/' :: (c ++ '/' :: req.name) := by
  have hnot : '?' ∉ intlString ++ c ++ '/' :: req.name := by
    simp [hq.1, hq.2 c hc, intlString]
  simp only [Request.follow, drop_one_redirToIntl, takeWhile_append_cons hnot]
  rfl

/-- The step of the chain: following a redirect keeps `NoQuery`. -/
theorem Request.NoQuery.follow {req : Request} {uri : Str} (hq : req.NoQuery)
    (h : (route req).redirectTarget = some uri) : (req.follow uri).NoQuery := by
  refine ⟨?_, hq.2⟩
  rcases hr : route req with _ | _ | _ | _ | _ | _ <;> simp only [hr, Route.redirectTarget,
    reduceCtorEq, Option.some.injEq] at h <;> subst h
  · rw [(follow_of_preprocessUrl_redirect (route_eq_redirect_iff.mp hr) hq).1]
    simp [not_mem_directoryName (by decide : '?' ≠ '/') hq.1]
  · obtain ⟨c, hc, -, -, rfl⟩ := route_eq_redirToIntl hr
    rw [follow_of_redirToIntl hc hq]
    simp [hq.1, hq.2 c hc]

/-- After a `PreprocessUrl` redirect no second one comes. -/
theorem route_follow_of_redirect {req : Request} {uri : Str} (h : route req = .redirect uri)
    (hq : req.NoQuery) : "index.html".toList <:+ uri ∧ ∀ uri', route (req.follow uri) ≠ .redirect uri' := by
  have hpre := route_eq_redirect_iff.mp h
  obtain ⟨hname, hdot⟩ := follow_of_preprocessUrl_redirect hpre hq
  refine ⟨?_, fun uri' hr => ?_⟩
  · rw [(preprocessUrl_eq_redirect hpre).1]
    exact ⟨'/' :: directoryName req.name, rfl⟩
  · have := preprocessUrl_eq_proceed_iff.mpr ⟨rfl, hdot⟩
    rw [route_eq_redirect_iff, this] at hr
    cases hr

/-- `PreprocessUrl` lets the name a `RedirToIntl` redirect leads to through. -/
theorem preprocessUrl_follow_of_redirToIntl {req : Request} {uri : Str}
    (h : route req = .redirToIntl uri) (hq : req.NoQuery) :
    preprocessUrl (req.follow uri).name = .proceed (req.follow uri).name := by
  obtain ⟨c, hc, hdot, -, rfl⟩ := route_eq_redirToIntl h
  refine preprocessUrl_eq_proceed_iff.mpr ⟨rfl, ?_⟩
  have hassoc : "intl".toList ++ '/' :: (c ++ '/' :: req.name) =
      ("intl".toList ++ '/' :: c) ++ '/' :: req.name := by simp
  rw [follow_of_redirToIntl hc hq, hassoc]
  exact finalSegmentHasDot_append hdot _

/-- After a `RedirToIntl` redirect the name is classified as intl, and is served. -/
theorem route_follow_of_redirToIntl {req : Request} {uri : Str} (h : route req = .redirToIntl uri)
    (hq : req.NoQuery) : (route (req.follow uri)).isIntl = true := by
  have hpre := preprocessUrl_follow_of_redirToIntl h hq
  obtain ⟨c, hc, -, -, rfl⟩ := route_eq_redirToIntl h
  obtain ⟨p, hp, hintl⟩ := @prepare_isIntl (c ++ '/' :: req.name)
    (req.cookie.getD "en".toList) req.cookie.isNone (by simp)
  rw [← follow_of_redirToIntl hc hq] at hp
  rcases route_of_isIntl hpre hp hintl with hr | hr <;> simp [hr, Route.isIntl, hintl]

/-- An intl path whose language is not valid is classified intl but not valid,
with the cookie's language and reset. -/
theorem prepare_of_invalidLang {lang rest langName : Str} {reset : Bool} (hslash : '/' ∉ lang)
    (hinvalid : lang ∉ validLangs) :
    prepare ("intl".toList ++ '/' :: (lang ++ '/' :: rest)) langName reset =
      some ⟨"intl".toList ++ '/' :: (lang ++ '/' :: rest), langName, reset, true, false, none⟩ := by
  have hs : splitMax '/' 2 ("intl".toList ++ '/' :: (lang ++ '/' :: rest)) =
      ["intl".toList, lang, rest] := by
    rw [splitMax_append_cons (by decide), splitMax_append_cons hslash, splitMax]
  simp only [prepare, hs, if_true, hinvalid, if_false]

/-- After a `RedirToIntl` redirect under a cookie that is not a valid language,
the client's request takes the route that passes an invalid intl name on, with
the cookie's language and no reset: the route without the fallback. -/
theorem route_follow_of_invalidLang {req : Request} {uri c : Str} (h : route req = .redirToIntl uri)
    (hq : req.NoQuery) (hc : req.cookie = some c) (hslash : '/' ∉ c) (hinvalid : c ∉ validLangs) :
    route (req.follow uri) = .invalidIntl ⟨(req.follow uri).name, c, false, true, false, none⟩ := by
  obtain ⟨p, hp, hr⟩ := route_of_proceed (preprocessUrl_follow_of_redirToIntl h hq)
  obtain ⟨c', hc', -, hclean, rfl⟩ := route_eq_redirToIntl h
  cases hc.symm.trans hc'
  obtain ⟨hen, hhtml, hne⟩ := isCleanUrl_false_iff.mp hclean
  have hname := follow_of_redirToIntl hc hq
  have hcookie : (req.follow (redirToIntl req.name intlString c req.queryString)).cookie = some c := hc
  rw [hcookie, Option.getD_some, Option.isNone_some, hname,
    prepare_of_invalidLang hslash hinvalid] at hp
  cases hp
  have hsuffix : req.name <:+ "intl".toList ++ '/' :: (c ++ '/' :: req.name) :=
    ⟨"intl".toList ++ '/' :: (c ++ ['/']), by simp⟩
  have hclean' := isCleanUrl_false_iff.mpr ⟨hen, hhtml.trans hsuffix.isInfix, hne⟩
  rw [hr, hname]
  simp only [hclean', Bool.false_eq_true, if_false, if_true]

/-- After a `RedirToIntl` redirect under a valid language, the client's request
is the clean intl request in the cookie's language, without a reset, whose
fallback is the name first asked for. -/
theorem route_follow_of_validLang {req : Request} {uri c : Str} (h : route req = .redirToIntl uri)
    (hq : req.NoQuery) (hc : req.cookie = some c) (hvalid : c ∈ validLangs) :
    route (req.follow uri) = .clean ⟨(req.follow uri).name, c, false, true, true, some req.name⟩ := by
  obtain ⟨p, hp, hr⟩ := route_of_proceed (preprocessUrl_follow_of_redirToIntl h hq)
  obtain ⟨c', hc', -, -, rfl⟩ := route_eq_redirToIntl h
  cases hc.symm.trans hc'
  have hpath : IsIntlPath (req.follow (redirToIntl req.name intlString c req.queryString)).name c
      req.name := ⟨hvalid, by rw [follow_of_redirToIntl hc hq]; simp [intlString]⟩
  have hcookie : (req.follow (redirToIntl req.name intlString c req.queryString)).cookie = some c := hc
  rw [hcookie, Option.getD_some, Option.isNone_some, prepare_of_isIntlPath hpath] at hp
  cases hp
  rw [hr]
  simp [isCleanUrl]

/-- How many redirects can still follow a request: the variant of the chain. -/
def redirectRank (req : Request) : Nat :=
  match route req with
  | .redirect _ => 2
  | .redirToIntl _ => 1
  | _ => 0

/-- Following a redirect lowers the rank. -/
theorem redirectRank_follow {req : Request} {uri : Str} (hq : req.NoQuery)
    (h : (route req).redirectTarget = some uri) : redirectRank (req.follow uri) < redirectRank req := by
  rcases hr : route req with u | _ | _ | _ | _ | u <;> simp only [hr, Route.redirectTarget,
    reduceCtorEq, Option.some.injEq] at h <;> subst h
  · have hnext := (route_follow_of_redirect hr hq).2
    unfold redirectRank
    rw [hr]
    split
    · exact absurd ‹_› (hnext _)
    all_goals omega
  · have hnext := Route.redirectTarget_eq_none_of_isIntl (route_follow_of_redirToIntl hr hq)
    unfold redirectRank
    rw [hr]
    split <;> simp_all [Route.redirectTarget]

/-- The run of the chain: it holds no more requests than one past the rank,
and every request on it keeps `NoQuery`. -/
theorem redirectChain_run {req : Request} (hq : req.NoQuery) (fuel : Nat) :
    (redirectChain fuel req).length ≤ redirectRank req + 1 ∧
      ∀ r ∈ redirectChain fuel req, r.NoQuery := by
  induction fuel generalizing req with
  | zero => simp [redirectChain]
  | succ fuel ih =>
    simp only [redirectChain]
    split
    · simp [hq]
    · rename_i uri h
      obtain ⟨hlen, hall⟩ := ih (hq.follow h)
      have hlt := redirectRank_follow hq h
      refine ⟨by simp only [List.length_cons]; omega, ?_⟩
      simp only [List.mem_cons, forall_eq_or_imp]
      exact ⟨hq, hall⟩

theorem redirectRank_le (req : Request) : redirectRank req ≤ 2 := by
  unfold redirectRank
  split <;> omega

/-! ### Where redirects point -/

/-- Every redirect `TrueGet` issues starts with `/`; a second `/` follows only
on a `PreprocessUrl` redirect of a name that starts with `/`. -/
theorem route_redirectTarget_shape {req : Request} {uri : Str}
    (h : (route req).redirectTarget = some uri) :
    ∃ rest, uri = '/' :: rest ∧
      (rest.head? = some '/' → route req = .redirect uri ∧ req.name.head? = some '/') := by
  rcases hr : route req with _ | _ | _ | _ | _ | _ <;> simp only [hr, Route.redirectTarget,
    reduceCtorEq, Option.some.injEq] at h <;> subst h
  · obtain ⟨rfl, -⟩ := preprocessUrl_eq_redirect (route_eq_redirect_iff.mp hr)
    refine ⟨_, rfl, fun hhead => ⟨rfl, ?_⟩⟩
    rcases directoryName_eq_or req.name with hd | ⟨hne, hd⟩ <;> rw [hd] at hhead
    · rcases hn : req.name with _ | ⟨x, xs⟩ <;> simp only [hn] at hhead
      · cases hhead
      · simpa using hhead
    · obtain ⟨x, xs, hn⟩ := List.exists_cons_of_ne_nil hne
      simpa [hn] using hhead
  · obtain ⟨c, -, -, -, rfl⟩ := route_eq_redirToIntl hr
    exact ⟨_, rfl, fun hhead => by simp [intlString] at hhead⟩

theorem route_redirectTarget_shape_evil :
    (route ⟨"/evil.example/".toList, none, [], []⟩).redirectTarget =
        some "//evil.example/index.html".toList ∧
      ∃ rest, "//evil.example/index.html".toList = '/' :: rest ∧
        (rest.head? = some '/' →
          route ⟨"/evil.example/".toList, none, [], []⟩ =
              .redirect "//evil.example/index.html".toList ∧
            ("/evil.example/".toList).head? = some '/') :=
  have h : (route ⟨"/evil.example/".toList, none, [], []⟩).redirectTarget =
      some "//evil.example/index.html".toList := rfl
  ⟨h, route_redirectTarget_shape h⟩

/-- A directory name that starts with `/` is redirected to a protocol-relative
reference, which a browser resolves against another host. -/
theorem trueGet_redirect_offSite (site : Site) (w : World) (cookie : Option Str)
    (queryString expires : Str) :
    (trueGet site ⟨"/evil.example/".toList, cookie, queryString, expires⟩).run w =
      (.ok (Response.empty.redirect "//evil.example/index.html".toList), w) := rfl

end MemcacheZipserve