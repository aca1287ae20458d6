/-
# What the language cookie changes

`TrueGet` reads the language cookie in three places: the redirect into
`intl/<lang>/` of a name that is not clean, the `Set-Cookie` reset, and, through
`Vary: Cookie`, the HTML responses it marks as negotiated. A response served
without `Vary: Cookie` is for a name without `.html`, which is clean under every
cookie; under any other cookie the same calls are made, the same caches are
left, and the response differs at most in its `Set-Cookie` header. It does differ there:
a request without the cookie gets one and a request with it does not.
-/

import MemcacheZipserve.Fallback

namespace MemcacheZipserve

/-! ### Responses up to `Set-Cookie` -/

namespace Response

/-- The response with its `Set-Cookie` headers taken out. -/
def withoutCookie (resp : Response) : Response :=
  { resp with headers := resp.headers.filter (·.1 ≠ "Set-Cookie".toList) }

@[simp] theorem withoutCookie_status (resp : Response) : resp.withoutCookie.status = resp.status :=
  rfl

end Response

/-! ### `CreateResponse` under two cookies -/

/-- One archive holding one image. -/
def imageSite : Site where
  zipfilenames := [⟨"images.zip".toList, none⟩]
  zipfilenames_ne_nil := List.cons_ne_nil _ _
  openZip name :=
    if name = "images.zip".toList then some ⟨[("images/logo.png".toList, "PNG".toList)]⟩ else none
  guessType name := if ".png".toList <:+ name then some "image/png".toList else none

end MemcacheZipserve
