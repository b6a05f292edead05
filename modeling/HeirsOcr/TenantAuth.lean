import HeirsOcr.PortalKeys

/-!
# Authentication and disabled organisations

An API key resolves to its row, a session to its organisation, and an organisation
counts as disabled when it has rows and all of them are disabled. Both answers are
cached for a while in each process; a process that changes a row drops what it
cached about it. Nothing stores that an operator turned an organisation off, so the
state lasts only as long as a disabled row is left to derive it from and no enabled
one is added.
-/
namespace HeirsOcr.TenantAuth
open KeyedTable StepMachine TenantKeys

/-- A cached lookup; `none` is a key known to be absent. -/
structure CacheEntry where
  tenant : Option Tenant
  expiresAt : ℤ
  deriving DecidableEq, Repr

structure OrgCacheEntry where
  disabled : Bool
  expiresAt : ℤ
  deriving DecidableEq, Repr

/-- The two maps of one process. -/
structure Caches where
  cache : String → Option CacheEntry
  orgCache : String → Option OrgCacheEntry

def Caches.empty : Caches := ⟨fun _ => none, fun _ => none⟩

def Caches.set (c : Caches) (keyHash : String) (e : CacheEntry) : Caches :=
  { c with cache := Function.update c.cache keyHash (some e) }

def Caches.setOrg (c : Caches) (tenantId : String) (e : OrgCacheEntry) : Caches :=
  { c with orgCache := Function.update c.orgCache tenantId (some e) }

/-- `cache.delete(keyHash)` and `orgCache.clear()`, done with every change of a row. -/
def Caches.drop (c : Caches) (keyHash : String) : Caches where
  cache := Function.update c.cache keyHash none
  orgCache := fun _ => none

variable (API_KEY_CACHE_TTL_SECONDS : ℕ)

def cacheTtlMs : ℤ := API_KEY_CACHE_TTL_SECONDS * 1000

def negativeTtlMs : ℤ := min (cacheTtlMs API_KEY_CACHE_TTL_SECONDS) 5000

/-- `tenant.disabled || isTenantKeyExpired(tenant) ? undefined : tenant`. -/
def ifUsable (tenant : Tenant) (now : ℤ) : Option Tenant :=
  if tenant.disabled.getD false || isTenantKeyExpired tenant now then none else some tenant

/-- The live entry of a map, if any. -/
def live? {ε : Type} (expiresAt : ε → ℤ) (now : ℤ) (entry : Option ε) : Option ε :=
  entry.filter fun e => now < expiresAt e

def resolveTenant (tenants : TenantTable) (c : Caches) (keyHash : String) (now : ℤ) :
    Caches × Option Tenant :=
  match live? CacheEntry.expiresAt now (c.cache keyHash) with
  | some hit => (c, hit.tenant.bind fun tenant => ifUsable tenant now)
  | none =>
    match getTenantByHash tenants keyHash with
    | none => (c.set keyHash ⟨none, now + negativeTtlMs API_KEY_CACHE_TTL_SECONDS⟩, none)
    | some tenant =>
      (c.set keyHash ⟨some tenant, now + cacheTtlMs API_KEY_CACHE_TTL_SECONDS⟩,
        ifUsable tenant now)

/-- What the count query says: rows, and every one of them disabled. -/
def orgDisabled (tenants : TenantTable) (tenantId : String) : Bool :=
  let total := (orgRows tenants tenantId).length
  let enabled := ((orgRows tenants tenantId).filter fun row => !row.disabled).length
  total > 0 && enabled == 0

def isTenantOrgDisabled (tenants : TenantTable) (c : Caches) (tenantId : String) (now : ℤ) :
    Caches × Bool :=
  match live? OrgCacheEntry.expiresAt now (c.orgCache tenantId) with
  | some hit => (c, hit.disabled)
  | none =>
    let disabled := orgDisabled tenants tenantId
    (c.setOrg tenantId ⟨disabled, now + cacheTtlMs API_KEY_CACHE_TTL_SECONDS⟩, disabled)

/-- What a request carries: the hash of its API key, and the organisation its session
cookie resolves to. -/
structure Credentials where
  apiKey : Option String
  session : Option String
  deriving DecidableEq, Repr

/-- `req.tenantId` and the function scope of `req.tenant`. -/
structure Authenticated where
  tenantId : String
  allowedFunctions : Option (List String)
  deriving DecidableEq, Repr

/-- The `auth` middleware with `AUTH_ENABLED=true` and its stores reachable. -/
def auth (tenants : TenantTable) (c : Caches) (req : Credentials) (now : ℤ) :
    Caches × Except OcrError Authenticated :=
  match req.apiKey with
  | some keyHash =>
    match resolveTenant API_KEY_CACHE_TTL_SECONDS tenants c keyHash now with
    | (c, none) => (c, .error (.of .UNAUTHORIZED "Invalid or revoked API key"))
    | (c, some tenant) => (c, .ok ⟨tenant.tenantId, tenant.allowedFunctions⟩)
  | none =>
    match req.session with
    | some tenantId =>
      match isTenantOrgDisabled API_KEY_CACHE_TTL_SECONDS tenants c tenantId now with
      | (c, true) => (c, .error (.of .FORBIDDEN "This organisation is disabled"))
      | (c, false) => (c, .ok ⟨tenantId, none⟩)
    | none =>
      (c, .error (.of .UNAUTHORIZED
        ("Missing credentials " ++
          "(send 'Authorization: Bearer <key>' / 'X-API-Key', or sign in to the app)")))

/-- The registry, the caches of every process, the clock, and the organisations the
operator has shut out and not let back in. -/
structure Service where
  tenants : TenantTable
  caches : ℕ → Caches
  now : ℤ
  shutOut : List String

/-- What runs at a process: an operator's changes, the portal's, requests to document
functions. Generated keys are new. -/
inductive Action where
  | operatorCreate (p : ℕ) (keyHash : String) (tenant : Tenant)
  | operatorPatch (p : ℕ) (keyHash : String) (patch : TenantPatch)
  | operatorRevoke (p : ℕ) (keyHash : String)
  | portalCreate (p : ℕ) (session : TenantSession) (parsed : Except String CreateKey)
      (keyHash : String)
  | portalDelete (p : ℕ) (session : TenantSession) (keyHash : String)
  | request (p : ℕ) (req : Credentials)
  | wait (ms : ℕ)

/-- Process `p` writes the registry and drops what it cached about the key. -/
def Service.write (s : Service) (p : ℕ) (keyHash : String) (tenants : TenantTable) : Service :=
  { s with
    tenants := tenants
    caches := Function.update s.caches p ((s.caches p).drop keyHash) }

/-- No key of the organisation is enabled. -/
def noneEnabled (tenants : TenantTable) (org : String) : Bool :=
  (orgRows tenants org).all TenantRow.disabled

/-- After a disable or a revoke by the operator: the organisation of the key is shut
out once none of its keys is enabled. -/
def Service.closing (s : Service) (org : String) : Service :=
  if noneEnabled s.tenants org then { s with shutOut := org :: s.shutOut } else s

/-- The operator enables or creates a key of the organisation. -/
def Service.reopen (s : Service) (org : String) : Service :=
  { s with shutOut := s.shutOut.filter fun o => o ≠ org }

def step (s : Service) : Action → Option Service
  | .operatorCreate p keyHash tenant =>
    if (s.tenants.find? keyHash).isSome then none
    else
      some ((s.write p keyHash (putTenant s.tenants keyHash tenant s.now)).reopen tenant.tenantId)
  | .operatorPatch p keyHash patch =>
    match s.tenants.find? keyHash with
    | none => some s
    | some row =>
      let t := s.write p keyHash (updateTenantByHash s.tenants keyHash patch)
      match patch.disabled with
      | none => some t
      | some false => some (t.reopen row.tenantId)
      | some true => some (t.closing row.tenantId)
  | .operatorRevoke p keyHash =>
    let t := s.write p keyHash (revokeByHash s.tenants keyHash)
    match s.tenants.find? keyHash with
    | none => some t
    | some row => some (t.closing row.tenantId)
  | .portalCreate p session parsed keyHash =>
    if (s.tenants.find? keyHash).isSome then none
    else
      match postApiKeys s.tenants session parsed keyHash s.now with
      | .ok tenants => some (s.write p keyHash tenants)
      | .error _ => some s
  | .portalDelete p session keyHash =>
    match deleteApiKeys s.tenants session keyHash with
    | .ok tenants => some (s.write p keyHash tenants)
    | .error _ => some s
  | .request p req =>
    some { s with
      caches := Function.update s.caches p
        (auth API_KEY_CACHE_TTL_SECONDS s.tenants (s.caches p) req s.now).1 }
  | .wait ms => some { s with now := s.now + ms }

/-- No request of an organisation that is shut out is admitted. -/
def NotAdmitted (s : Service) : Action → Prop
  | .request p req =>
    ∀ who, (auth API_KEY_CACHE_TTL_SECONDS s.tenants (s.caches p) req s.now).2 = .ok who →
      who.tenantId ∉ s.shutOut
  | _ => True

/-- Another key row of the organisation exists beside this one. -/
def hasOtherRow (tenants : TenantTable) (org keyHash : String) : Bool :=
  (orgRows tenants org).any fun row => row.keyHash ≠ keyHash

/-- The operator leaves a row of the organisation, and one that is shut out neither makes
a key in the portal nor deletes its last one. -/
def RowsKept (s : Service) : Action → Prop
  | .operatorRevoke _ keyHash =>
    ∀ row ∈ s.tenants.find? keyHash, hasOtherRow s.tenants row.tenantId keyHash
  | .portalCreate _ session parsed _ =>
    session.tenantId ∈ s.shutOut → ¬validCreation session parsed s.now
  | .portalDelete _ session keyHash =>
    session.tenantId ∈ s.shutOut → hasOtherRow s.tenants session.tenantId keyHash
  | _ => True

/-- What a request would be answered from, if live, agrees with the registry. -/
def AnswersFresh (s : Service) : Action → Prop
  | .request p req =>
    (∀ keyHash ∈ req.apiKey,
      ∀ e ∈ live? CacheEntry.expiresAt s.now ((s.caches p).cache keyHash),
        e.tenant = getTenantByHash s.tenants keyHash) ∧
    (∀ org ∈ req.session,
      ∀ e ∈ live? OrgCacheEntry.expiresAt s.now ((s.caches p).orgCache org),
        e.disabled = orgDisabled s.tenants org)
  | _ => True

/-- The condition of a step. -/
def KeepsShut (s : Service) (a : Action) : Prop := RowsKept s a ∧ AnswersFresh s a

instance (s : Service) : DecidablePred (RowsKept s)
  | .operatorRevoke _ keyHash => inferInstanceAs <| Decidable <|
    ∀ row ∈ s.tenants.find? keyHash, hasOtherRow s.tenants row.tenantId keyHash
  | .portalCreate _ session parsed _ => inferInstanceAs <| Decidable <|
    session.tenantId ∈ s.shutOut → ¬validCreation session parsed s.now
  | .portalDelete _ session keyHash => inferInstanceAs <| Decidable <|
    session.tenantId ∈ s.shutOut → hasOtherRow s.tenants session.tenantId keyHash
  | .operatorCreate .. | .operatorPatch .. | .request .. | .wait _ =>
    inferInstanceAs (Decidable True)

instance (s : Service) : DecidablePred (AnswersFresh s)
  | .request p req => inferInstanceAs <| Decidable <|
    (∀ keyHash ∈ req.apiKey,
      ∀ e ∈ live? CacheEntry.expiresAt s.now ((s.caches p).cache keyHash),
        e.tenant = getTenantByHash s.tenants keyHash) ∧
    (∀ org ∈ req.session,
      ∀ e ∈ live? OrgCacheEntry.expiresAt s.now ((s.caches p).orgCache org),
        e.disabled = orgDisabled s.tenants org)
  | .operatorCreate .. | .operatorPatch .. | .operatorRevoke .. | .portalCreate ..
  | .portalDelete .. | .wait _ => inferInstanceAs (Decidable True)

instance (s : Service) (a : Action) : Decidable (KeepsShut s a) :=
  inferInstanceAs (Decidable (RowsKept s a ∧ AnswersFresh s a))

instance (s : Service) (a : Action) : Decidable (NotAdmitted API_KEY_CACHE_TTL_SECONDS s a) :=
  match a with
  | .request p req =>
    match h : (auth API_KEY_CACHE_TTL_SECONDS s.tenants (s.caches p) req s.now).2 with
    | .ok who => decidable_of_iff (who.tenantId ∉ s.shutOut) (by simp [NotAdmitted, h])
    | .error e => isTrue (by simp [NotAdmitted, h])
  | .operatorCreate .. | .operatorPatch .. | .operatorRevoke .. | .portalCreate ..
  | .portalDelete .. | .wait _ => isTrue trivial

end HeirsOcr.TenantAuth
