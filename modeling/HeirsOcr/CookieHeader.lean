import HeirsOcr.JsRecord
import HeirsOcr.JsText
import HeirsOcr.TenantAuth
import HeirsOcr.Utf8

/-!
# Cookies of other software

The session middlewares read their token out of a header to which other software on the same
domain adds parts of its own. One loop decodes every part, and a value that does not decode
throws, whoever set it.
-/
namespace HeirsOcr.CookieHeader
open JsRecord JsText Utf8

def hexValue (c : Char) : Option ℕ :=
  let n := c.toNat
  if 0x30 ≤ n ∧ n ≤ 0x39 then some (n - 0x30)
  else if 0x41 ≤ n ∧ n ≤ 0x46 then some (n - 0x37)
  else if 0x61 ≤ n ∧ n ≤ 0x66 then some (n - 0x57)
  else none

/-- The byte of two digits. -/
def escapedByte (high low : Char) : Option UInt8 :=
  (hexValue high).bind fun h => (hexValue low).map fun l => UInt8.ofNat (h * 16 + l)

/-- The characters that stand for themselves and the bytes that are escaped. -/
def unescape : List Char → Option (List (Char ⊕ UInt8))
  | [] => some []
  | c :: rest =>
    if c = '%' then
      match rest with
      | high :: low :: rest =>
        (escapedByte high low).bind fun b => (unescape rest).map (Sum.inr b :: ·)
      | _ => none
    else (unescape rest).map (Sum.inl c :: ·)

/-- Escaped bytes decode strictly, and a sequence does not go on behind a character. -/
def decodeEscaped (pending : List UInt8) : List (Char ⊕ UInt8) → Option (List Char)
  | [] => if pending = [] then some [] else none
  | .inl c :: rest => if pending = [] then (decodeEscaped [] rest).map (c :: ·) else none
  | .inr b :: rest =>
    match charOfBytes (pending ++ [b]) with
    | some c => (decodeEscaped [] rest).map (c :: ·)
    | none => if pending.length < 3 then decodeEscaped (pending ++ [b]) rest else none

/-- `decodeURIComponent`, `none` where it throws a `URIError`. -/
def decodeURIComponent (value : List Char) : Option (List Char) :=
  (unescape value).bind (decodeEscaped [])

/-- `header.split(";")`; an absent or empty header has no parts. -/
def partsOf : Option (List Char) → List (List Char)
  | none => []
  | some [] => []
  | some header => header.splitOn ';'

/-- The trimmed name and value of a part, if it has a name. -/
def splitPart (part : List Char) : Option (String × List Char) :=
  match part.dropWhile (· ≠ '=') with
  | [] => none
  | _ :: value =>
    let name := trim (part.takeWhile (· ≠ '='))
    if name = [] then none else some (String.ofList name, trim value)

/-- One round of the loop; to set `__proto__` to a text has no effect. -/
def setCookie (out : Record (List Char)) (part : List Char) : Option (Record (List Char)) :=
  match splitPart part with
  | none => some out
  | some (name, value) =>
    (decodeURIComponent value).map fun decoded =>
      if name = "__proto__" then out else set out name decoded

/-- The cookies by name, `none` where the parser throws. -/
def parseCookies (header : Option (List Char)) : Option (Record (List Char)) :=
  (partsOf header).foldlM setCookie ∅

inductive SessionCookie where
  | admin
  | tenant
  deriving DecidableEq, Repr

/-- `SESSION_COOKIE` of the console and of the portal. -/
def SessionCookie.name : SessionCookie → String
  | .admin => "admin_session"
  | .tenant => "tenant_session"

/-- The token a header carries: the outer `none` is a throw, and an empty text is no token. -/
def tokenOf (cookie : SessionCookie) (header : Option (List Char)) : Option (Option (List Char)) :=
  (parseCookies header).map fun cookies => (get cookies cookie.name).filter (· ≠ [])

/-- How a console middleware ends; `thrown` is a rejected promise. -/
inductive Decision (Session : Type) where
  | admitted (session : Session)
  | denied (status : ℕ) (code message : String)
  | thrown
  deriving DecidableEq, Repr

section Middlewares

variable {Session : Type}

/-- Resolves the session cookie; the outer `none` of `resolveSession` is a store that cannot be
reached. -/
def sessionAuth (cookie : SessionCookie) (resolveSession : List Char → Option (Option Session))
    (header : Option (List Char)) : Decision Session :=
  match tokenOf cookie header with
  | none => .thrown
  | some none => .denied 401 "UNAUTHORIZED" "Not signed in"
  | some (some token) =>
    match resolveSession token with
    | none => .denied 503 "PROVIDER_UNAVAILABLE" "Session store unavailable"
    | some none => .denied 401 "UNAUTHORIZED" "Session expired or invalid"
    | some (some session) => .admitted session

def adminAuth (resolveSession : List Char → Option (Option Session)) :
    Option (List Char) → Decision Session := sessionAuth .admin resolveSession

def tenantAuth (resolveSession : List Char → Option (Option Session)) :
    Option (List Char) → Decision Session := sessionAuth .tenant resolveSession

/-- What `auth` asks of the registry and of the sessions; the outer `none` is a store that
cannot be reached. -/
structure AuthStores where
  resolveTenant : List Char → Option (Option TenantAuth.Authenticated)
  /-- The organisation of a session. -/
  resolveSession : List Char → Option (Option String)
  isTenantOrgDisabled : String → Option Bool

/-- The headers that carry a key. -/
structure KeyHeaders where
  authorization : Option (List Char)
  xApiKey : Option (List Char)

/-- The key of `Authorization: Bearer <key>`, or a bare key in that header. -/
def authorizationKey (authHeader : List Char) : Option (List Char) :=
  match authHeader.splitOn ' ' with
  | scheme :: value :: _ =>
    if toLowerCase scheme = "bearer".toList ∧ value ≠ [] then some (trim value)
    else if value = [] ∧ scheme ≠ [] then some (trim scheme)
    else none
  | [scheme] => if scheme ≠ [] then some (trim scheme) else none
  | [] => none

def extractApiKey (headers : KeyHeaders) : Option (List Char) :=
  match (headers.authorization.filter (· ≠ [])).bind authorizationKey with
  | some key => some key
  | none => (headers.xApiKey.map trim).filter (· ≠ [])

def storeUnavailable : OcrError :=
  ⟨.PROVIDER_UNAVAILABLE, "Authentication store unavailable", true⟩

def missingCredentials : OcrError :=
  .of .UNAUTHORIZED
    "Missing credentials (send 'Authorization: Bearer <key>' / 'X-API-Key', or sign in to the app)"

/-- The session half of `auth`, inside its `try`. -/
def authSession (stores : AuthStores) (cookieHeader : Option (List Char)) :
    Except OcrError TenantAuth.Authenticated :=
  match tokenOf .tenant cookieHeader with
  | none => .error storeUnavailable
  | some none => .error missingCredentials
  | some (some token) =>
    match stores.resolveSession token with
    | none => .error storeUnavailable
    | some none => .error missingCredentials
    | some (some tenantId) =>
      match stores.isTenantOrgDisabled tenantId with
      | none => .error storeUnavailable
      | some true => .error (.of .FORBIDDEN "This organisation is disabled")
      | some false => .ok ⟨tenantId, none⟩

def auth (AUTH_ENABLED : Bool) (stores : AuthStores) (headers : KeyHeaders)
    (cookieHeader : Option (List Char)) : Except OcrError TenantAuth.Authenticated :=
  if AUTH_ENABLED then
    match (extractApiKey headers).filter (· ≠ []) with
    | some key =>
      match stores.resolveTenant key with
      | none => .error storeUnavailable
      | some none => .error (.of .UNAUTHORIZED "Invalid or revoked API key")
      | some (some tenant) => .ok tenant
    | none => authSession stores cookieHeader
  else .ok ⟨"anonymous", none⟩

end Middlewares

/-- `AddsForeign cookie parts parts'`: `parts'` is `parts` with parts of other names anywhere. -/
inductive AddsForeign (cookie : SessionCookie) : List (List Char) → List (List Char) → Prop
  | nil : AddsForeign cookie [] []
  | keep (part : List Char) {parts parts' : List (List Char)} :
    AddsForeign cookie parts parts' → AddsForeign cookie (part :: parts) (part :: parts')
  | foreign (part : List Char) {parts parts' : List (List Char)} :
    (splitPart part).map Prod.fst ≠ some cookie.name → AddsForeign cookie parts parts' →
      AddsForeign cookie parts (part :: parts')

/-- The value of a part, if it has a name, decodes. -/
def Decodes (part : List Char) : Prop :=
  ∀ name value, splitPart part = some (name, value) → (decodeURIComponent value).isSome = true

/-- The parser returns on `header'`, which gives the token and the decisions of `header`. -/
structure Unaffected (cookie : SessionCookie) (header header' : Option (List Char)) : Prop where
  returns : (parseCookies header').isSome = true
  token : tokenOf cookie header' = tokenOf cookie header
  admin : cookie = .admin → ∀ {Session : Type}
    (resolveSession : List Char → Option (Option Session)),
      adminAuth resolveSession header' = adminAuth resolveSession header
  tenant : cookie = .tenant → ∀ {Session : Type}
    (resolveSession : List Char → Option (Option Session)),
      tenantAuth resolveSession header' = tenantAuth resolveSession header
  auth : cookie = .tenant → ∀ (enabled : Bool) (stores : AuthStores) (headers : KeyHeaders),
    auth enabled stores headers header' = auth enabled stores headers header

section Loop

variable {cookie : SessionCookie} {out out' r : Record (List Char)}
  {parts parts' : List (List Char)}

theorem setCookie_isSome (out : Record (List Char)) (part : List Char) :
    (setCookie out part).isSome = true ↔ Decodes part := by
  rw [setCookie, Decodes]
  cases splitPart part with
  | none => simp
  | some entry =>
    obtain ⟨name, value⟩ := entry
    rw [Option.isSome_map]
    constructor
    · intro hdecodes name' value' hentry
      cases hentry
      exact hdecodes
    · intro hdecodes
      exact hdecodes name value rfl

/-- The parser returns if and only if every value decodes. -/
theorem foldlM_setCookie_isSome (out : Record (List Char)) :
    (parts.foldlM setCookie out).isSome = true ↔ ∀ part ∈ parts, Decodes part := by
  induction parts generalizing out with
  | nil => simp
  | cons part parts ih =>
    rw [List.foldlM_cons, List.forall_mem_cons, ← setCookie_isSome out]
    cases setCookie out part with
    | none => simp
    | some next => simpa using ih next

/-- A part with another name leaves a cookie alone. -/
theorem get_setCookie_of_ne {part : List Char}
    (hname : (splitPart part).map Prod.fst ≠ some cookie.name)
    (h : setCookie out part = some r) : get r cookie.name = get out cookie.name := by
  rw [setCookie] at h
  cases hsplit : splitPart part with
  | none =>
    rw [hsplit] at h
    rw [← Option.some.inj h]
  | some entry =>
    obtain ⟨name, value⟩ := entry
    rw [hsplit] at h hname
    obtain ⟨decoded, -, rfl⟩ := Option.map_eq_some_iff.mp h
    have hne : name ≠ cookie.name := fun heq => hname (congrArg some heq)
    split_ifs
    · rfl
    · rw [get_set, if_neg hne]

/-- The same part sets a cookie to the same value. -/
theorem get_setCookie_congr {part : List Char}
    (hout : get out cookie.name = get out' cookie.name) (h : setCookie out' part = some r) :
    ∃ s, setCookie out part = some s ∧ get s cookie.name = get r cookie.name := by
  rw [setCookie] at h ⊢
  cases hsplit : splitPart part with
  | none =>
    rw [hsplit] at h
    rw [← Option.some.inj h]
    exact ⟨out, rfl, hout⟩
  | some entry =>
    obtain ⟨name, value⟩ := entry
    rw [hsplit] at h
    obtain ⟨decoded, hdecoded, rfl⟩ := Option.map_eq_some_iff.mp h
    dsimp only
    rw [hdecoded]
    refine ⟨_, rfl, ?_⟩
    split_ifs
    · exact hout
    · rw [get_set, get_set, hout]

/-- Two runs of the loop, one of which meets the foreign parts as well. -/
theorem get_foldlM_of_addsForeign (h : AddsForeign cookie parts parts')
    (hout : get out cookie.name = get out' cookie.name)
    (hrun : parts'.foldlM setCookie out' = some r) :
    ∃ s, parts.foldlM setCookie out = some s ∧ get s cookie.name = get r cookie.name := by
  induction h generalizing out out' with
  | nil =>
    rw [List.foldlM_nil] at hrun
    rw [← Option.some.inj hrun]
    exact ⟨out, rfl, hout⟩
  | keep part _ ih =>
    rw [List.foldlM_cons] at hrun ⊢
    obtain ⟨next', hnext', hrest⟩ := Option.bind_eq_some_iff.mp hrun
    obtain ⟨next, hnext, hget⟩ := get_setCookie_congr hout hnext'
    obtain ⟨s, hs, htoken⟩ := ih hget hrest
    exact ⟨s, Option.bind_eq_some_iff.mpr ⟨next, hnext, hs⟩, htoken⟩
  | foreign part hname _ ih =>
    rw [List.foldlM_cons] at hrun
    obtain ⟨next', hnext', hrest⟩ := Option.bind_eq_some_iff.mp hrun
    exact ih (hout.trans (get_setCookie_of_ne hname hnext').symm) hrest

end Loop

section Headers

variable {cookie : SessionCookie} {header header' : Option (List Char)}

theorem tokenOf_of_addsForeign (h : AddsForeign cookie (partsOf header) (partsOf header'))
    (hdecodes : ∀ part ∈ partsOf header', Decodes part) :
    tokenOf cookie header' = tokenOf cookie header := by
  obtain ⟨r, hr⟩ := Option.isSome_iff_exists.mp
    ((foldlM_setCookie_isSome ∅).mpr hdecodes)
  obtain ⟨s, hs, hget⟩ := get_foldlM_of_addsForeign h rfl hr
  rw [tokenOf, tokenOf, parseCookies, parseCookies, hr, hs, Option.map_some, Option.map_some, hget]

/-- Where the parser returns and every store answers, `auth` decides by the key's hash and the
organisation of the session. -/
theorem auth_of_tokenOf {ttl : ℕ} {tenants : TenantKeys.TenantTable} {c : TenantAuth.Caches}
    {now : ℤ} (hashKey : List Char → String) (sessions : List Char → Option String)
    (headers : KeyHeaders) {token : Option (List Char)} (h : tokenOf .tenant header = some token) :
    auth true
        { resolveTenant := fun key => some <|
            (TenantAuth.resolveTenant ttl tenants c (hashKey key) now).2.map fun tenant =>
              ⟨tenant.tenantId, tenant.allowedFunctions⟩
          resolveSession := fun token => some (sessions token)
          isTenantOrgDisabled := fun tenantId =>
            some (TenantAuth.isTenantOrgDisabled ttl tenants c tenantId now).2 }
        headers header =
      (TenantAuth.auth ttl tenants c
        ⟨((extractApiKey headers).filter (· ≠ [])).map hashKey, token.bind sessions⟩ now).2 := by
  rw [auth, TenantAuth.auth, if_pos rfl]
  cases (extractApiKey headers).filter (· ≠ []) with
  | some key =>
    simp only [Option.map_some]
    cases TenantAuth.resolveTenant ttl tenants c (hashKey key) now with
    | mk caches tenant => cases tenant <;> rfl
  | none =>
    simp only [Option.map_none, authSession, h]
    cases token with
    | none => rfl
    | some token =>
      simp only [Option.bind_some]
      cases sessions token with
      | none => rfl
      | some tenantId =>
        dsimp only
        cases TenantAuth.isTenantOrgDisabled ttl tenants c tenantId now with
        | mk caches disabled => cases disabled <;> rfl

/-- Foreign cookies are harmless if and only if every value of the header decodes. -/
theorem foreign_cookies_harmless_iff
    (h : AddsForeign cookie (partsOf header) (partsOf header')) :
    Unaffected cookie header header' ↔ ∀ part ∈ partsOf header', Decodes part := by
  constructor
  · intro hunaffected
    exact (foldlM_setCookie_isSome ∅).mp hunaffected.returns
  · intro hdecodes
    have htoken := tokenOf_of_addsForeign h hdecodes
    refine ⟨(foldlM_setCookie_isSome ∅).mpr hdecodes, htoken, ?_, ?_, ?_⟩
    · rintro rfl Session resolveSession
      rw [adminAuth, sessionAuth, sessionAuth, htoken]
    · rintro rfl Session resolveSession
      rw [tenantAuth, sessionAuth, sessionAuth, htoken]
    · rintro rfl enabled stores headers
      rw [auth, auth, authSession, authSession, htoken]

end Headers

/-- A portal session, alone and beside the cookies of other software. -/
def sessionHeader : Option (List Char) := some "tenant_session=abc".toList

def themedHeader : Option (List Char) := some "tenant_session=abc; theme=caf%C3%A9".toList

def promoHeader : Option (List Char) := some "tenant_session=abc; promo=100%".toList

theorem addsForeign_themed :
    AddsForeign .tenant (partsOf sessionHeader) (partsOf themedHeader) := by
  have hparts : partsOf sessionHeader = ["tenant_session=abc".toList] := by decide +kernel
  have hparts' : partsOf themedHeader =
      ["tenant_session=abc".toList, " theme=caf%C3%A9".toList] := by decide +kernel
  rw [hparts, hparts']
  exact .keep _ (.foreign _ (by decide +kernel) .nil)

theorem foreign_cookies_harmless_themed : Unaffected .tenant sessionHeader themedHeader := by
  refine (foreign_cookies_harmless_iff addsForeign_themed).mpr ?_
  rw [← foldlM_setCookie_isSome ∅]
  decide +kernel

/-- A value that is not escaped throws for a visitor who is signed in. -/
theorem promo_breaks_session :
    AddsForeign .tenant (partsOf sessionHeader) (partsOf promoHeader) ∧
      tokenOf .tenant sessionHeader = some (some "abc".toList) ∧
      parseCookies promoHeader = none := by
  have hparts : partsOf sessionHeader = ["tenant_session=abc".toList] := by decide +kernel
  have hparts' : partsOf promoHeader = ["tenant_session=abc".toList, " promo=100%".toList] := by
    decide +kernel
  refine ⟨?_, by decide +kernel, by rw [parseCookies, hparts']; decide +kernel⟩
  rw [hparts, hparts']
  exact .keep _ (.foreign _ (by decide +kernel) .nil)

end HeirsOcr.CookieHeader
