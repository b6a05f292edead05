import HeirsOcr.Entitlements
import HeirsOcr.KeyedTable
import HeirsOcr.StepMachine

/-!
# The subscription store and its processes

One row per tenant, a cache with a time to live in each process, and two writers: the
operator's `putSubscription` and the metering that follows every document. Each reads or
writes in separate statements, so the state keeps the calls under way and a run takes
their statements in any order. Metering writes back a whole record it read before. The
state counts the operator's puts of a tenant, and every record read carries the count at
its read. Times are milliseconds.
-/
namespace HeirsOcr.Billing
open KeyedTable StepMachine

/-- What one document adds. -/
structure Metering where
  pages : ℤ
  tokensUsed : Option ℤ
  now : ℤ
  deriving DecidableEq, Repr

/-- The record `recordDocumentUsage` writes, from the one it read. -/
def recorded (sub : Subscription) (data : Metering) : Subscription :=
  let quote := quoteDocument sub data.pages data.now
  let trialing := effectiveStatus sub data.now = .trialing
  { sub with
    usage :=
      { documentsProcessed := sub.usage.documentsProcessed + 1
        pagesProcessed := sub.usage.pagesProcessed + max 0 data.pages
        tokensUsed := sub.usage.tokensUsed + data.tokensUsed.getD 0
        amountAccruedMinor := sub.usage.amountAccruedMinor + quote.elim 0 Money.amountMinor }
    trial :=
      if trialing then
        sub.trial.map fun trial =>
          { trial with
            documentsRemaining := trial.documentsRemaining.map fun n => max 0 (n - 1) }
      else sub.trial
    updatedAt := data.now }

/-- A cached answer; `version` is the number of puts the answer reflects. -/
structure CacheEntry where
  subscription : Option Subscription
  expiresAt : ℤ
  version : ℕ
  deriving DecidableEq, Repr

/-- A call at process `p` between two of its statements: its `SELECT` has answered, its
record is about to be written, or its cache entry is about to be dropped. -/
inductive Call where
  | selected (p : ℕ) (tenantId : String) (found : Option Subscription) (version : ℕ)
      (meter : Option Metering)
  | write (p : ℕ) (next : Subscription) (version : ℕ)
  | drop (p : ℕ) (tenantId : String)
  deriving DecidableEq, Repr

structure BillingStore where
  subscriptions : Table Subscription.tenantId
  caches : ℕ → String → Option CacheEntry
  now : ℤ
  calls : List Call
  version : String → ℕ
  lastPut : String → Option Subscription

variable (API_KEY_CACHE_TTL_SECONDS : ℕ)

def cacheTtlMs : ℤ := API_KEY_CACHE_TTL_SECONDS * 1000

def negativeTtlMs : ℤ := min (cacheTtlMs API_KEY_CACHE_TTL_SECONDS) 5000

/-- The `INSERT … ON CONFLICT (tenant_id) DO UPDATE` of `putSubscription`. -/
def upsertSubscription (t : Table Subscription.tenantId) (sub : Subscription) :
    Table Subscription.tenantId :=
  t.upsert sub (fun old new => { new with tenantId := old.tenantId }) fun _ => rfl

def BillingStore.setCache (s : BillingStore) (p : ℕ) (tenantId : String)
    (e : Option CacheEntry) : BillingStore :=
  { s with
    caches := Function.update s.caches p (Function.update (s.caches p) tenantId e) }

def BillingStore.push (s : BillingStore) (call : Call) : BillingStore :=
  { s with calls := s.calls ++ [call] }

/-- What metering does with the record it resolved. -/
def BillingStore.meter (s : BillingStore) (p : ℕ) (found : Option Subscription) (version : ℕ) :
    Option Metering → BillingStore
  | none => s
  | some data =>
    match found with
    | none => s
    | some sub => s.push (.write p (recorded sub data) version)

/-- `resolveSubscription`, on its own or as the start of `recordDocumentUsage`. -/
def BillingStore.resolve (s : BillingStore) (p : ℕ) (tenantId : String)
    (meter : Option Metering) : BillingStore :=
  match (s.caches p tenantId).filter fun e => s.now < e.expiresAt with
  | some hit => s.meter p hit.subscription hit.version meter
  | none =>
    s.push (.selected p tenantId (s.subscriptions.find? tenantId) (s.version tenantId) meter)

/-- The operator's `putSubscription`, its upsert. -/
def BillingStore.put (s : BillingStore) (p : ℕ) (sub : Subscription) : BillingStore :=
  { s with
    subscriptions := upsertSubscription s.subscriptions sub
    calls := s.calls ++ [.drop p sub.tenantId]
    version := Function.update s.version sub.tenantId (s.version sub.tenantId + 1)
    lastPut := Function.update s.lastPut sub.tenantId (some sub) }

/-- The next statement of a call. -/
def BillingStore.proceed (s : BillingStore) : Call → BillingStore
  | .selected p tenantId found version meter =>
    let ttl := if found.isSome then cacheTtlMs API_KEY_CACHE_TTL_SECONDS
      else negativeTtlMs API_KEY_CACHE_TTL_SECONDS
    (s.setCache p tenantId (some ⟨found, s.now + ttl, version⟩)).meter p found version meter
  | .write p next _ =>
    { s with
      subscriptions := upsertSubscription s.subscriptions next
      calls := s.calls ++ [.drop p next.tenantId] }
  | .drop p tenantId => s.setCache p tenantId none

def BillingStore.forget (s : BillingStore) (i : ℕ) : BillingStore :=
  { s with calls := s.calls.eraseIdx i }

/-- A resolution (with metering or without), an operator's put, the next statement of the
`i`th call under way, the loss of that call, or the passing of time. -/
inductive Action where
  | resolve (p : ℕ) (tenantId : String) (meter : Option Metering)
  | put (p : ℕ) (sub : Subscription)
  | proceed (i : ℕ)
  | lose (i : ℕ)
  | wait (ms : ℕ)

def step (s : BillingStore) : Action → Option BillingStore
  | .resolve p tenantId meter => some (s.resolve p tenantId meter)
  | .put p sub => some (s.put p sub)
  | .proceed i => s.calls[i]?.map fun call => (s.forget i).proceed API_KEY_CACHE_TTL_SECONDS call
  | .lose i => some (s.forget i)
  | .wait ms => some { s with now := s.now + ms }

end HeirsOcr.Billing
