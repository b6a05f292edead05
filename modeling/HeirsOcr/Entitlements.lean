import Mathlib.Tactic

/-!
# Subscriptions and what they bill

The subscription record with its snapshotted plan, the status it effectively has at a
moment, the trial window a plan opens with, and the price of one document. Everything is
a pure function of the record and the time. Money is in minor units, times are
milliseconds.
-/
namespace HeirsOcr.Billing

inductive CurrencyCode where
  | NGN
  | USD
  | GBP
  | EUR
  deriving DecidableEq, Repr

structure Money where
  amountMinor : ℤ
  currency : CurrencyCode
  deriving DecidableEq, Repr

/-- The three ways a plan bills. -/
inductive BillingModel where
  | trial
  | per_document (unitPrice : Money) (perPageSurcharge minimumCharge : Option Money)
  | monthly (basePrice : Money) (includedDocuments : Option ℤ) (overageUnitPrice : Option Money)
  deriving DecidableEq, Repr

inductive Sensitivity where
  | standard
  | pii
  | restricted
  deriving DecidableEq, Repr

inductive Feature where
  | async_jobs
  | pii_functions
  | batch_upload
  | webhooks
  | priority_processing
  | custom_form_schemas
  | extended_retention
  | sla_support
  deriving DecidableEq, Repr

/-- Ceilings of a plan; `none` is no limit. -/
structure PlanLimits where
  documentsPerPeriod : Option ℤ
  maxPagesPerDocument : Option ℤ
  maxFileSizeBytes : Option ℤ
  rateLimitPerMinute : Option ℤ
  maxConcurrentJobs : Option ℤ
  dataRetentionDays : ℤ
  deriving DecidableEq, Repr

structure Entitlements where
  allowedFunctions : List String
  maxSensitivity : Sensitivity
  features : List Feature
  limits : PlanLimits
  deriving DecidableEq, Repr

inductive PlanTier where
  | trial
  | payg
  | starter
  | business
  | enterprise
  deriving DecidableEq, Repr

structure TrialPolicy where
  durationDays : Option ℤ
  includedDocuments : Option ℤ
  maxPagesPerDocument : Option ℤ
  maxFileSizeBytes : Option ℤ
  requiresPaymentMethod : Bool
  deriving DecidableEq, Repr

structure SubscriptionPlan where
  id : String
  name : String
  tier : PlanTier
  description : Option String
  billing : BillingModel
  entitlements : Entitlements
  trial : Option TrialPolicy
  hidden : Bool
  deriving DecidableEq, Repr

/-- A trial policy resolved to dates; `none` in a bound is no bound. -/
structure TrialWindow where
  startedAt : ℤ
  endsAt : Option ℤ
  documentsRemaining : Option ℤ
  maxPagesPerDocument : Option ℤ
  maxFileSizeBytes : Option ℤ
  endedAt : Option ℤ
  deriving DecidableEq, Repr

inductive SubscriptionStatus where
  | trialing
  | active
  | past_due
  | canceled
  | expired
  | suspended
  deriving DecidableEq, Repr

inductive PaymentProvider where
  | paystack
  | flutterwave
  | stripe
  | manual
  deriving DecidableEq, Repr

structure PaymentBinding where
  provider : PaymentProvider
  customerRef : Option String
  providerSubscriptionRef : Option String
  hasPaymentMethod : Bool
  deriving DecidableEq, Repr

structure PeriodUsage where
  documentsProcessed : ℤ
  pagesProcessed : ℤ
  tokensUsed : ℤ
  amountAccruedMinor : ℤ
  deriving DecidableEq, Repr

structure Subscription where
  id : String
  tenantId : String
  plan : SubscriptionPlan
  status : SubscriptionStatus
  trial : Option TrialWindow
  currentPeriodStart : ℤ
  currentPeriodEnd : ℤ
  cancelAtPeriodEnd : Bool
  canceledAt : Option ℤ
  usage : PeriodUsage
  payment : PaymentBinding
  createdAt : ℤ
  updatedAt : ℤ
  deriving DecidableEq, Repr

def DAY_MS : ℤ := 24 * 60 * 60 * 1000

/-- The status outside a trial window. -/
def untrialedStatus (sub : Subscription) (now : ℤ) : SubscriptionStatus :=
  if sub.cancelAtPeriodEnd && now ≥ sub.currentPeriodEnd then .expired else sub.status

/-- The status a subscription has at `now`, whatever is stored. -/
def effectiveStatus (sub : Subscription) (now : ℤ) : SubscriptionStatus :=
  if sub.status = .suspended then .suspended
  else
    match sub.status, sub.trial with
    | .trialing, some trial =>
      let timeUp := trial.endsAt.any fun endsAt => now ≥ endsAt
      let docsUp := trial.documentsRemaining.any fun remaining => remaining ≤ 0
      if timeUp || docsUp then
        if sub.payment.hasPaymentMethod then .active else .expired
      else .trialing
    | _, _ => untrialedStatus sub now

def resolveTrialWindow (policy : TrialPolicy) (now : ℤ) : TrialWindow where
  startedAt := now
  endsAt := policy.durationDays.map fun days => now + days * DAY_MS
  documentsRemaining := policy.includedDocuments
  maxPagesPerDocument := policy.maxPagesPerDocument
  maxFileSizeBytes := policy.maxFileSizeBytes
  endedAt := none

/-- The charge for one document; `none` when nothing is charged. -/
def quoteDocument (sub : Subscription) (pages : ℤ) (now : ℤ) : Option Money :=
  let remaining := (sub.trial.bind TrialWindow.documentsRemaining).getD 0
  if effectiveStatus sub now = .trialing ∧ remaining > 0 then none
  else
    match sub.plan.billing with
    | .trial => none
    | .per_document unitPrice perPageSurcharge minimumCharge =>
      let surcharge := (perPageSurcharge.elim 0 Money.amountMinor) * max 0 pages
      let raw := unitPrice.amountMinor + surcharge
      some ⟨max raw (minimumCharge.elim 0 Money.amountMinor), unitPrice.currency⟩
    | .monthly _ includedDocuments overageUnitPrice =>
      if includedDocuments.all fun included => sub.usage.documentsProcessed < included then none
      else overageUnitPrice

/-- A subscription that is effectively in its trial is stored as one, with a window that
still covers a document. -/
theorem trialing_of_effectiveStatus {sub : Subscription} {now : ℤ}
    (h : effectiveStatus sub now = .trialing) {trial : TrialWindow} (ht : sub.trial = some trial) :
    sub.status = .trialing ∧ ∀ remaining ∈ trial.documentsRemaining, 0 < remaining := by
  unfold effectiveStatus at h
  by_cases hsus : sub.status = .suspended
  · rw [if_pos hsus] at h
    cases h
  rw [if_neg hsus] at h
  cases hs : sub.status with
  | trialing =>
    simp only [hs, ht] at h
    cases hup : (trial.endsAt.any fun endsAt => decide (now ≥ endsAt)) ||
        trial.documentsRemaining.any fun remaining => decide (remaining ≤ 0) with
    | true =>
      simp only [hup, if_true] at h
      split_ifs at h
    | false =>
      refine ⟨rfl, fun remaining hr => ?_⟩
      have hdocs := (Bool.or_eq_false_iff.mp hup).2
      rw [Option.mem_def.mp hr] at hdocs
      simpa using hdocs
  | _ =>
    simp only [hs, untrialedStatus] at h
    split_ifs at h

end HeirsOcr.Billing
