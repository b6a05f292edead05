import HeirsOcr.Backups
import HeirsOcr.ReadCache
import HeirsOcr.Subscriptions

/-!
# The billing caches of a process

A process caches the subscription of each tenant and the list of plans, each for a short
time. `putSubscription`, `putPlan` and `deletePlan` drop the entry they make old once their
statement has run; a restore writes both tables and drops nothing. A read may be between its
`SELECT` and its store meanwhile. So a read can put a row back that was replaced, and after a
restore the caches have what was there before it.
-/
namespace HeirsOcr.BillingCaches
open KeyedTable Json RowReplay StepMachine Interleaving ReadCache Backups

/-- The entry of a tenant, and the one of the plan list. -/
inductive CacheKey where
  | subscription (tenantId : String)
  | plans
  deriving DecidableEq, Repr

inductive Cached (S N : Type) where
  | subscription (found : Option S)
  | plans (plans : List (Value N))
  deriving DecidableEq

/-- The statements that write the two tables. -/
inductive Write (N : Type) where
  | putSubscription (tenantId planId status : String) (sub : Value N)
  | putPlan (id tier : String) (hidden : Bool) (plan : Value N)
  | deletePlan (id : String)
  | restore (statement : Statement N)

variable {N τ S : Type}

def Write.execute : Write N → τ → Store N τ → Option (Store N τ)
  | .putSubscription tenantId planId status sub, now, db =>
    some (upsertSubscription db ⟨tenantId, planId, status, .ofValue sub, now⟩)
  | .putPlan id tier hidden plan, now, db =>
    some (upsertPlan db ⟨id, tier, hidden, .ofValue plan, now⟩)
  | .deletePlan id, _, db => some { db with plans := db.plans.delete fun r => r.id = id }
  | .restore statement, now, db => Backups.execute statement now db

/-- The cached answer a statement makes old. -/
def Write.target : Write N → Option CacheKey
  | .putSubscription tenantId _ _ _ => some (.subscription tenantId)
  | .putPlan _ _ _ _ | .deletePlan _ | .restore (.upsert .plans _) => some .plans
  | .restore (.upsert .subscriptions row) => (text? (row.get? "tenant_id")).map .subscription
  | .restore (.upsert .platformSettings _) | .restore .throws => none

def TIER_ORDER : List String := ["trial", "payg", "starter", "business", "enterprise"]

/-- `TIER_ORDER.indexOf(plan.tier)`. -/
def tierIndex (plan : Value N) : ℤ :=
  match text? (plan.get? "tier") with
  | some tier => if tier ∈ TIER_ORDER then TIER_ORDER.idxOf tier else -1
  | none => -1

section View

variable (localeCompare : String → String → ℤ) (reviveSubscription : Value N → S)
  (API_KEY_CACHE_TTL_SECONDS : ℕ)

def byTierThenId (a b : Value N) : ℤ :=
  let tiers := tierIndex a - tierIndex b
  if tiers = 0 then
    localeCompare ((text? (a.get? "id")).getD "") ((text? (b.get? "id")).getD "")
  else tiers

/-- A plan is its data as it was read. -/
def selectPlans (db : Store N τ) : List (Value N) :=
  (db.plans.rows.map fun r => r.data.toValue).insertionSort
    fun a b => byTierThenId localeCompare a b ≤ 0

def selectSubscription (db : Store N τ) (tenantId : String) : Option S :=
  (db.subscriptions.find? tenantId).map fun r => reviveSubscription r.data.toValue

def view (db : Store N τ) : CacheKey → Cached S N
  | .subscription tenantId => .subscription (selectSubscription reviveSubscription db tenantId)
  | .plans => .plans (selectPlans localeCompare db)

/-- That a tenant has no subscription is kept for five seconds at most. -/
def ttlMs : CacheKey → Cached S N → ℤ
  | _, .subscription none => Billing.negativeTtlMs API_KEY_CACHE_TTL_SECONDS
  | _, .subscription (some _) | _, .plans _ => Billing.cacheTtlMs API_KEY_CACHE_TTL_SECONDS

variable {localeCompare reviveSubscription}

theorem view_upsertSubscription (db : Store N τ) (r : SubscriptionRow N τ) {k : CacheKey}
    (hk : some (CacheKey.subscription r.tenantId) ≠ some k) :
    view localeCompare reviveSubscription (upsertSubscription db r) k =
      view localeCompare reviveSubscription db k := by
  cases k with
  | plans => rfl
  | subscription tenantId =>
    have hne : r.tenantId ≠ tenantId := by
      rintro rfl
      exact hk rfl
    simp only [view, selectSubscription, upsertSubscription, Table.find?_upsert, if_neg hne]

theorem view_plans (db : Store N τ) (plans : Plans N τ) {k : CacheKey}
    (hk : some CacheKey.plans ≠ some k) :
    view localeCompare reviveSubscription { db with plans := plans } k =
      view localeCompare reviveSubscription db k := by
  cases k with
  | plans => exact absurd rfl hk
  | subscription tenantId => rfl

/-- A statement leaves alone what a read of another key selects. -/
theorem view_execute {w : Write N} {now : τ} {s t : Store N τ} {k : CacheKey}
    (h : w.execute now s = some t) (hk : w.target ≠ some k) :
    view localeCompare reviveSubscription t k = view localeCompare reviveSubscription s k := by
  cases w with
  | putSubscription tenantId planId status sub =>
    obtain rfl := Option.some.inj h
    exact view_upsertSubscription s _ hk
  | putPlan id tier hidden plan =>
    obtain rfl := Option.some.inj h
    exact view_plans s _ hk
  | deletePlan id =>
    obtain rfl := Option.some.inj h
    exact view_plans s _ hk
  | restore statement =>
    obtain ⟨row, r, rfl, rfl⟩ | ⟨row, r, rfl, htenant, rfl⟩ | ⟨row, r, rfl, rfl⟩ :=
      execute_cases h
    · exact view_plans s _ hk
    · rw [Write.target, htenant, Option.map_some] at hk
      exact view_upsertSubscription s r hk
    · cases k <;> rfl

variable (localeCompare reviveSubscription)

def backend : Backend (Store N τ) CacheKey (Cached S N) (Write N) τ where
  view := view localeCompare reviveSubscription
  execute := Write.execute
  target := Write.target
  frame := view_execute
  ttlMs := ttlMs API_KEY_CACHE_TTL_SECONDS

end View

/-- A call of the two stores, or a restore with the document its first query answered. -/
inductive BillingCall (N : Type) where
  | resolveSubscription (tenantId : String)
  | listPlans
  | putSubscription (tenantId planId status : String) (sub : Value N)
  | putPlan (id tier : String) (hidden : Bool) (plan : Value N)
  | deletePlan (id : String)
  | restoreBackup (data : Value N)

/-- The statements of a call and the entries it drops after them. -/
def BillingCall.request : BillingCall N → Request CacheKey (Write N)
  | .resolveSubscription tenantId => .read (.subscription tenantId)
  | .listPlans => .read .plans
  | .putSubscription tenantId planId status sub =>
    .write [.putSubscription tenantId planId status sub] [.subscription tenantId]
  | .putPlan id tier hidden plan => .write [.putPlan id tier hidden plan] [.plans]
  | .deletePlan id => .write [.deletePlan id] [.plans]
  | .restoreBackup data => .write ((restoreStatements data).map .restore) []

def action : Action (BillingCall N) (Answer τ) ℕ →
    Action (Request CacheKey (Write N)) (Answer τ) ℕ
  | .start call => .start call.request
  | .advance i answer => .advance i answer
  | .environment ms => .environment ms

section Runs

variable (localeCompare : String → String → ℤ) (reviveSubscription : Value N → S)
  (API_KEY_CACHE_TTL_SECONDS : ℕ)

def billing : System (Process (Store N τ) CacheKey (Cached S N))
    (ReadCache.Call CacheKey (Cached S N) (Write N)) (Request CacheKey (Write N)) (Answer τ) ℕ :=
  system (backend localeCompare reviveSubscription API_KEY_CACHE_TTL_SECONDS)

/-- A process that has just started. -/
def started (db : Store N τ) (now : ℤ) : State (Process (Store N τ) CacheKey (Cached S N))
    (ReadCache.Call CacheKey (Cached S N) (Write N)) :=
  fresh (backend localeCompare reviveSubscription API_KEY_CACHE_TTL_SECONDS) db now

/-- In a run in which no read caches a row that a returned write has replaced, and no restore
returns while an entry is older than a row it wrote, every read that starts after a writing
call has returned gets what that call stored, or something newer. -/
theorem billing_reads_fresh (db : Store N τ) (now : ℤ)
    (as : List (Action (BillingCall N) (Answer τ) ℕ))
    (hcurrent : Guarded (billing localeCompare reviveSubscription API_KEY_CACHE_TTL_SECONDS).step
      CachesCurrent (started localeCompare reviveSubscription API_KEY_CACHE_TTL_SECONDS db now)
      (as.map action)) :
    Throughout (billing localeCompare reviveSubscription API_KEY_CACHE_TTL_SECONDS).step
      (fun s => ReadsFresh s.shared)
      (started localeCompare reviveSubscription API_KEY_CACHE_TTL_SECONDS db now)
      (as.map action) :=
  readsFresh_throughout _ hcurrent

end Runs

/-- The order of characters; the ids below are ASCII. -/
def compareIds (a b : String) : ℤ := if a < b then -1 else if b < a then 1 else 0

def subscribed (status : String) : Value ℕ := .object [("status", .string status)]

def tariff (tier : String) : Value ℕ := .object [("id", .string "basic"), ("tier", .string tier)]

/-- One tenant with a subscription and one plan. -/
def oneTenant : Store ℕ ℕ where
  plans := ⟨[⟨"basic", "starter", false, .ofValue (tariff "starter"), 0⟩], by decide⟩
  subscriptions := ⟨[⟨"acme", "basic", "active", .ofValue (subscribed "active"), 0⟩], by decide⟩
  platformSettings := ∅
  backups := ∅

/-- A read, a write that returns, and a read. -/
def oneAfterTheOther : List (Action (BillingCall ℕ) (Answer ℕ) ℕ) :=
  [.start (.resolveSubscription "acme"), .advance 0 (.done 1), .advance 0 (.done 1),
    .start (.putSubscription "acme" "basic" "canceled" (subscribed "canceled")),
    .advance 0 (.done 2), .advance 0 (.done 2),
    .start (.resolveSubscription "acme"), .advance 0 (.done 3), .advance 0 (.done 3)]

theorem billing_reads_fresh_sequential :
    Guarded (billing compareIds id 30).step CachesCurrent (started compareIds id 30 oneTenant 0)
        (oneAfterTheOther.map action) ∧
      Throughout (billing compareIds id 30).step (fun s => ReadsFresh s.shared)
        (started compareIds id 30 oneTenant 0) (oneAfterTheOther.map action) := by
  have hcurrent : Guarded (billing compareIds id 30).step CachesCurrent
      (started compareIds id 30 oneTenant 0) (oneAfterTheOther.map action) := by
    decide +kernel
  exact ⟨hcurrent, billing_reads_fresh compareIds id 30 oneTenant 0 oneAfterTheOther hcurrent⟩

/-- The subscription is read before it is replaced and cached after. -/
def refilled : List (Action (BillingCall ℕ) (Answer ℕ) ℕ) :=
  [.start (.resolveSubscription "acme"), .advance 0 (.done 1),
    .start (.putSubscription "acme" "basic" "canceled" (subscribed "canceled")),
    .advance 1 (.done 2), .advance 1 (.done 2), .advance 0 (.done 3),
    .start (.resolveSubscription "acme")]

/-- The same with the list of plans. -/
def plansRefilled : List (Action (BillingCall ℕ) (Answer ℕ) ℕ) :=
  [.start .listPlans, .advance 0 (.done 1),
    .start (.putPlan "basic" "business" false (tariff "business")),
    .advance 1 (.done 2), .advance 1 (.done 2), .advance 0 (.done 3), .start .listPlans]

/-- The subscription is cached when a restore replaces it. -/
def restoredBehind : List (Action (BillingCall ℕ) (Answer ℕ) ℕ) :=
  [.start (.resolveSubscription "acme"), .advance 0 (.done 1), .advance 0 (.done 1),
    .start (.restoreBackup (.object [("subscriptions", .array [.object
      [("tenant_id", .string "acme"), ("plan_id", .string "basic"),
        ("status", .string "canceled"), ("data", subscribed "canceled")]])])),
    .advance 0 (.done 2), .advance 0 (.done 2), .start (.resolveSubscription "acme")]

/-- In each of the three the last read returns the row from before the write. -/
theorem stale_reads :
    ¬Throughout (billing compareIds id 30).step (fun s => ReadsFresh s.shared)
        (started compareIds id 30 oneTenant 0) (refilled.map action) ∧
      ¬Throughout (billing compareIds id 30).step (fun s => ReadsFresh s.shared)
        (started compareIds id 30 oneTenant 0) (plansRefilled.map action) ∧
      ¬Throughout (billing compareIds id 30).step (fun s => ReadsFresh s.shared)
        (started compareIds id 30 oneTenant 0) (restoredBehind.map action) := by
  decide +kernel

end HeirsOcr.BillingCaches
