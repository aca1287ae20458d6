/-
# Repeating a request

What a run of `TrueGet` leaves in memcache decides what the next request sees.
A request writes only the entries of the names its `CreateResponse` calls look
up: the positive entry of the name, its negative entry unless the name is
looked up as valid intl, and both entries of the fallback remainder. The
remainder is shorter than the name, so a request never writes the negative
entry that would shadow its own first lookup. With the refinement of the
transparency module, a request repeated at once gets the same answer as the
first time, on agreeing caches and so in every reachable state. This is about
a request served twice in a row: another request in between may create the
shadow, and an eviction may remove it.
-/

import MemcacheZipserve.Transparency

namespace MemcacheZipserve

/-! ### What a request writes -/

/-- The memcache keys a lookup of `name` may write: its positive entry, and its
negative entry unless the name is looked up as valid intl. -/
def lookupKeys (name : Str) (isValidIntl : Bool) (key : Str) : Prop :=
  key = cachePrefix ++ name ∨ isValidIntl = false ∧ key = negCachePrefix ++ name

/-- The memcache keys `TrueGet` may write: those of the names its
`CreateResponse` calls look up. -/
def trueGetKeys (req : Request) (key : Str) : Prop :=
  match route req with
  | .clean p => lookupKeys p.name p.isValidIntl key ∨
      ∃ rest, p.contentUri = some rest ∧ lookupKeys rest false key
  | .invalidIntl p => lookupKeys p.name p.isValidIntl key
  | _ => False

section Writes

variable {keys : Str → Prop}

theorem cacheGet_writesOnly (key : Str) : (cacheGet key).WritesOnly keys :=
  Prog.WritesOnly.call (fun _ h => Option.noConfusion h) fun r => Prog.WritesOnly.pure r

theorem cacheAdd_writesOnly (key : Str) (value : CacheValue) :
    (cacheAdd key value).WritesOnly (· = key) :=
  Prog.WritesOnly.call (fun _ h => (Option.some.inj h).symm) fun r => Prog.WritesOnly.pure r

theorem cacheReplace_writesOnly (key : Str) (value : CacheValue) :
    (cacheReplace key value).WritesOnly (· = key) :=
  Prog.WritesOnly.call (fun _ h => (Option.some.inj h).symm) fun r => Prog.WritesOnly.pure r

end Writes

theorem storeOrUpdateInCache_writesOnly (filename : Str) (data : CacheValue) :
    (storeOrUpdateInCache filename data).WritesOnly (· = cachePrefix ++ filename) := by
  refine (cacheAdd_writesOnly _ data).bind fun r => ?_
  rcases r with _ | _ | _
  · exact .pure ()
  · exact (cacheReplace_writesOnly _ data).bind fun _ => .pure ()
  · exact .pure ()

theorem storeInNegativeCache_writesOnly (filename : Str) :
    (storeInNegativeCache filename).WritesOnly (· = negCachePrefix ++ filename) := by
  refine (cacheAdd_writesOnly _ _).bind fun r => ?_
  rcases r with _ | _
  · exact fun _ _ _ => rfl
  · exact .pure ()

theorem lookup_writesOnly (site : Site) (name : Str) (isValidIntl : Bool) :
    (lookup site name isValidIntl).WritesOnly (lookupKeys name isValidIntl) := by
  refine (cacheGet_writesOnly _).bind fun cached => ?_
  rcases cached with _ | data
  · refine (cacheGet_writesOnly _).bind fun marked => ?_
    rcases marked with _ | _
    · refine getFromStore_keepsMemcache.writesOnly.bind fun r => ?_
      rcases r with _ | data
      · cases isValidIntl with
        | false =>
            exact ((storeInNegativeCache_writesOnly name).mono fun _ hk => .inr ⟨rfl, hk⟩).bind
              fun _ => .pure _
        | true => exact .pure _
      · exact ((storeOrUpdateInCache_writesOnly name _).mono fun _ hk => .inl hk).bind
          fun _ => .pure _
    · exact .pure _
  · exact .pure _

theorem createResponse_writesOnly (site : Site) (name langName : Str) (isValidIntl reset : Bool)
    (expires : Str) (resp : Response) :
    (createResponse site name langName isValidIntl reset expires resp).WritesOnly
      (lookupKeys name isValidIntl) :=
  (lookup_writesOnly site name isValidIntl).bind fun _ => .pure _

/-- `TrueGet` writes memcache only at the entries of the names its
`CreateResponse` calls look up. -/
theorem trueGet_writesOnly (site : Site) (req : Request) :
    (trueGet site req).WritesOnly (trueGetKeys req) := by
  rcases hr : route req with uri | _ | e | p | p | uri <;> simp only [trueGet, hr]
  · exact .pure _
  · exact .pure _
  · exact fun _ _ _ => rfl
  · -- a clean route: the first call, and the fallback on the remainder
    have hkeys : ∀ key, (lookupKeys p.name p.isValidIntl key ∨
        ∃ rest, p.contentUri = some rest ∧ lookupKeys rest false key) → trueGetKeys req key :=
      fun key hk => by rw [trueGetKeys, hr]; exact hk
    refine ((createResponse_writesOnly _ _ _ _ _ _ _).mono fun k hk => hkeys k (.inl hk)).bind
      fun ⟨found, resp⟩ => ?_
    cases found with
    | true => exact .pure _
    | false =>
        rcases hc : p.contentUri with _ | rest
        · exact fun _ _ _ => rfl
        · exact ((createResponse_writesOnly _ _ _ _ _ _ _).mono
            fun k hk => hkeys k (.inr ⟨rest, hc, hk⟩)).bind fun _ => .pure _
  · exact ((createResponse_writesOnly _ _ _ _ _ _ _).mono
      fun k hk => by rw [trueGetKeys, hr]; exact hk).bind fun _ => .pure _
  · exact .pure _

/-- A request never writes the negative entry that would shadow its own first
lookup: the fallback remainder is shorter than the name. -/
theorem not_trueGetKeys_shadow {req : Request} {p : Prepared} (hr : route req = .clean p)
    (hv : p.isValidIntl = true) : ¬trueGetKeys req (negCachePrefix ++ p.name) := by
  simp only [trueGetKeys, hr, lookupKeys, hv, Bool.true_eq_false, false_and, or_false]
  rintro (h | ⟨rest, hrest, h | ⟨-, h⟩⟩)
  · exact cachePrefix_append_ne _ _ h.symm
  · exact cachePrefix_append_ne _ _ h.symm
  · rcases prepare_eq_some (prepare_of_route (.inl hr)) with rfl | rfl | ⟨lang, rest', hn, -, rfl⟩
    · cases hrest
    · cases hrest
    · cases hrest
      have hlen := congrArg List.length (hn.symm.trans (List.append_cancel_left h))
      simp only [List.length_append, List.length_cons] at hlen
      omega

/-- What a request does to memcache: it changes only the entries of the names
its `CreateResponse` calls look up, it removes no entry, and it leaves the
negative entry of a valid intl name its first call looks up as it was. -/
theorem trueGet_memcacheFrame (site : Site) (req : Request) (w : World) :
    (∀ key, ¬trueGetKeys req key → ((trueGet site req).run w).2.memcache key = w.memcache key) ∧
    (∀ key, (w.memcache key).isSome → (((trueGet site req).run w).2.memcache key).isSome) ∧
    (∀ p, route req = .clean p → p.isValidIntl = true →
      ((trueGet site req).run w).2.memcache (negCachePrefix ++ p.name) =
        w.memcache (negCachePrefix ++ p.name)) :=
  ⟨trueGet_writesOnly site req w, fun _ h => Prog.run_isSome _ h,
    fun _ hr hv => trueGet_writesOnly site req w _ (not_trueGetKeys_shadow hr hv)⟩

/-! ### Who writes a shadow -/

/-- A route that looks up a valid intl path looks it up as valid intl. -/
theorem isValidIntl_of_route {req : Request} {p : Prepared}
    (hr : route req = .clean p ∨ route req = .invalidIntl p) {lang rest : Str}
    (hn : IsIntlPath p.name lang rest) : p.isValidIntl = true := by
  have hp := prepare_of_route hr
  rw [prepare_name hp] at hn
  rw [prepare_of_isIntlPath hn] at hp
  cases hp
  rfl

/-- Only a request for `intl/<lang>/<n>` changes the negative entry of a valid
intl path `n`, as the fallback of its clean route: every other lookup of `n`
is as valid intl, which stores no negative entry. So the shadow behind
`negativeShadow` comes only from a request for a nested intl name. -/
theorem trueGet_shadowWriter (site : Site) (req : Request) (w : World) {n lang rest : Str}
    (hn : IsIntlPath n lang rest)
    (hw : ((trueGet site req).run w).2.memcache (negCachePrefix ++ n) ≠
      w.memcache (negCachePrefix ++ n)) :
    ∃ lang', IsIntlPath req.name lang' n := by
  have hkey : trueGetKeys req (negCachePrefix ++ n) :=
    Classical.byContradiction fun h => hw (trueGet_writesOnly site req w _ h)
  rcases hr : route req with _ | _ | _ | p | p | _ <;>
    simp only [trueGetKeys, hr, lookupKeys] at hkey
  · -- a clean route: only the fallback remainder can be `n`
    rcases hkey with (h | ⟨hv, h⟩) | ⟨rest', hrest, h | ⟨-, h⟩⟩
    · exact absurd h.symm (cachePrefix_append_ne _ _)
    · rw [List.append_cancel_left h] at hn
      exact absurd (hv ▸ isValidIntl_of_route (.inl hr) hn) Bool.false_ne_true
    · exact absurd h.symm (cachePrefix_append_ne _ _)
    · cases List.append_cancel_left h
      rcases prepare_eq_some (prepare_of_route (.inl hr)) with
        rfl | rfl | ⟨lang', rest'', hname, hlang, rfl⟩
      · cases hrest
      · cases hrest
      · cases hrest
        exact ⟨lang', hlang, hname⟩
  · -- an intl route that is not clean: its one lookup is of its own name
    obtain ⟨hv, h⟩ := hkey.resolve_left fun h => cachePrefix_append_ne _ _ h.symm
    rw [List.append_cancel_left h] at hn
    exact absurd (hv ▸ isValidIntl_of_route (.inr hr) hn) Bool.false_ne_true

theorem trueGet_shadowWriter_nested :
    IsIntlPath "intl/fr/page.html".toList "fr".toList "page.html".toList ∧
      ((trueGet pageSite nestedIntlRequest).run World.empty).2.memcache
          (negCachePrefix ++ "intl/fr/page.html".toList) ≠
        World.empty.memcache (negCachePrefix ++ "intl/fr/page.html".toList) ∧
      ∃ lang', IsIntlPath nestedIntlRequest.name lang' "intl/fr/page.html".toList :=
  have hn : IsIntlPath "intl/fr/page.html".toList "fr".toList "page.html".toList :=
    ⟨by decide, rfl⟩
  have hw : ((trueGet pageSite nestedIntlRequest).run World.empty).2.memcache
      (negCachePrefix ++ "intl/fr/page.html".toList) ≠
        World.empty.memcache (negCachePrefix ++ "intl/fr/page.html".toList) :=
    ne_of_apply_ne Option.isSome (by decide)
  ⟨hn, hw, trueGet_shadowWriter pageSite nestedIntlRequest World.empty hn hw⟩

/-! ### A request served twice -/

/-- A run of `TrueGet` neither creates nor removes the shadow of its own request. -/
theorem negativeShadow_run_trueGet (site : Site) (req : Request) (w : World) :
    negativeShadow ((trueGet site req).run w).2 req = negativeShadow w req := by
  rcases hr : route req with _ | _ | _ | p | _ | _ <;> simp only [negativeShadow, hr]
  cases hv : p.isValidIntl with
  | false => rfl
  | true => rw [trueGet_writesOnly site req w _ (not_trueGetKeys_shadow hr hv)]

/-- On caches that agree with the archives, a request served again right after
it was served gets the same answer, exception included. -/
theorem run_trueGet_repeat {site : Site} {w : World} (hw : CachesAgree site w) (req : Request) :
    ((trueGet site req).run ((trueGet site req).run w).2).1 = ((trueGet site req).run w).1 := by
  have hw' : CachesAgree site ((trueGet site req).run w).2 :=
    (Prog.run_sat (handlerDiscipline_keeps site) (trueGet_sat req) hw).1
  rw [run_trueGet_agree hw', run_trueGet_agree hw, negativeShadow_run_trueGet]

/-- `TrueGet` answers a request served twice in a row the same both times, from
every reachable state of the server. -/
theorem reachable_trueGet_repeat {site : Site} {s : Server} (hs : Reachable site s)
    (req : Request) :
    ((trueGet site req).run ((trueGet site req).run s.world).2).1 =
      ((trueGet site req).run s.world).1 :=
  run_trueGet_repeat hs.serverOk.agree req

theorem reachable_trueGet_repeat_shadow :
    Reachable pageSite ⟨shadowWorld, []⟩ ∧
      ((trueGet pageSite nestedIntlRequest).run
          ((trueGet pageSite nestedIntlRequest).run shadowWorld).2).1 =
        ((trueGet pageSite nestedIntlRequest).run shadowWorld).1 :=
  have hs : Reachable pageSite ⟨shadowWorld, []⟩ := Reachable.serve Relation.ReflTransGen.refl _
  ⟨hs, reachable_trueGet_repeat hs nestedIntlRequest⟩

end MemcacheZipserve
