import HeirsOcr.Entitlements
import HeirsOcr.ProviderRouter

/-!
# The document quota and the price of a document

`checkDocumentQuota` admits a document, `quoteDocument` prices it, and each has its own
case analysis: the gate stops at the tighter of the plan limit and the billing allowance,
unless the plan bills overage, while the price looks at the allowance alone. A plan
limit below the allowance of a plan with overage is therefore no limit at all: between
the two, documents are admitted and cost nothing.
-/
namespace HeirsOcr.Billing
open Providers (OcrFunctionKey)

def isSlugStart (c : Char) : Bool := ('a' ≤ c && c ≤ 'z') || ('0' ≤ c && c ≤ '9')

/-- `/^[a-z0-9][a-z0-9_-]*$/`. -/
def isSlug : List Char → Bool
  | [] => false
  | c :: cs => isSlugStart c && cs.all fun c => isSlugStart c || c == '_' || c == '-'

def moneySchema (m : Money) : Bool := 0 ≤ m.amountMinor

def billingSchema : BillingModel → Bool
  | .trial => true
  | .per_document unitPrice perPageSurcharge minimumCharge =>
    moneySchema unitPrice && perPageSurcharge.all moneySchema && minimumCharge.all moneySchema
  | .monthly basePrice includedDocuments overageUnitPrice =>
    moneySchema basePrice && includedDocuments.all (0 ≤ ·) && overageUnitPrice.all moneySchema

def nullableLimit (limit : Option ℤ) : Bool := limit.all (0 ≤ ·)

def limitsSchema (limits : PlanLimits) : Bool :=
  nullableLimit limits.documentsPerPeriod && nullableLimit limits.maxPagesPerDocument &&
    nullableLimit limits.maxFileSizeBytes && nullableLimit limits.rateLimitPerMinute &&
    nullableLimit limits.maxConcurrentJobs && 0 ≤ limits.dataRetentionDays

def functionKeys : List OcrFunctionKey :=
  [.SIGNING, .ID_VERIFICATION, .DOCUMENT_CLASSIFICATION, .FORM_DATA_EXTRACTION, .RECEIPT_PARSING,
    .TEXT_EXTRACTION, .RESUME_PARSING, .DOCUMENT_AUTHENTICITY, .AUTO_EXTRACTION,
    .BUDGET_ANALYSIS, .EXPENSE_CLAIM, .LOAN_REVIEW, .BANK_STATEMENT_ANALYSIS]

def functionKeySchema (key : String) : Bool := (functionKeys.map OcrFunctionKey.toText).contains key

def entitlementsSchema (e : Entitlements) : Bool :=
  e.allowedFunctions.all functionKeySchema && limitsSchema e.limits

def trialPolicySchema (policy : TrialPolicy) : Bool :=
  policy.durationDays.all (0 < ·) && policy.includedDocuments.all (0 < ·) &&
    policy.maxPagesPerDocument.all (0 < ·) && policy.maxFileSizeBytes.all (0 < ·)

/-- What `planInputSchema` checks of a payload that has the shape of a plan. -/
def planInputSchema (plan : SubscriptionPlan) : Bool :=
  isSlug plan.id.toList && plan.name != "" && billingSchema plan.billing &&
    entitlementsSchema plan.entitlements && plan.trial.all trialPolicySchema

inductive EntitlementDenialCode where
  | SUBSCRIPTION_INACTIVE
  | NOT_ENTITLED
  | QUOTA_EXCEEDED
  | SENSITIVITY_BLOCKED
  deriving DecidableEq, Repr

inductive EntitlementDecision where
  | allow
  | deny (code : EntitlementDenialCode) (reason : String)
  deriving DecidableEq, Repr

def SubscriptionStatus.toText : SubscriptionStatus → String
  | .trialing => "trialing"
  | .active => "active"
  | .past_due => "past_due"
  | .canceled => "canceled"
  | .expired => "expired"
  | .suspended => "suspended"

/-- Whether the subscription may serve requests at all; `past_due` still may. -/
def isServable (sub : Subscription) (now : ℤ) : Bool :=
  let s := effectiveStatus sub now
  s == .trialing || s == .active || s == .past_due

def requireActive (sub : Subscription) (now : ℤ) : EntitlementDecision :=
  if isServable sub now then .allow
  else
    let status := (effectiveStatus sub now).toText
    .deny .SUBSCRIPTION_INACTIVE
      s!"Subscription is {status} — reactivate or add a payment method to continue."

/-- The tighter of the billing allowance and the plan limit. -/
def periodDocumentCap (billing : BillingModel) (limit : Option ℤ) : Option ℤ :=
  let billingCap :=
    match billing with
    | .monthly _ includedDocuments _ => includedDocuments
    | _ => none
  match billingCap, limit with
  | none, _ => limit
  | some cap, none => some cap
  | some cap, some limit => some (min cap limit)

def overageAllowed : BillingModel → Bool
  | .monthly _ _ overageUnitPrice => overageUnitPrice.isSome
  | _ => false

/-- The gate of one more document. A trial that counts documents, or has lost its
window, is decided on the trial allowance alone. -/
def checkDocumentQuota (sub : Subscription) (now : ℤ) : EntitlementDecision :=
  if effectiveStatus sub now = .trialing ∧
      sub.trial.all fun trial => trial.documentsRemaining.isSome then
    if (sub.trial.bind TrialWindow.documentsRemaining).getD 0 ≤ 0 then
      .deny .QUOTA_EXCEEDED "Trial document allowance is used up."
    else .allow
  else
    match periodDocumentCap sub.plan.billing sub.plan.entitlements.limits.documentsPerPeriod with
    | none => .allow
    | some cap =>
      if cap ≤ sub.usage.documentsProcessed ∧ !overageAllowed sub.plan.billing then
        .deny .QUOTA_EXCEEDED
          s!"Period document allowance ({cap}) reached. Upgrade or enable overage to continue."
      else .allow

section Monthly

variable {sub : Subscription} {now : ℤ} {basePrice : Money} {included : Option ℤ}
  {overage : Option Money}

/-- The gate of a monthly plan outside the trial. -/
theorem checkDocumentQuota_monthly (hplan : sub.plan.billing = .monthly basePrice included overage)
    (htrial : effectiveStatus sub now ≠ .trialing) :
    checkDocumentQuota sub now = .allow ↔
      overage ≠ none ∨
        ∀ cap ∈ periodDocumentCap sub.plan.billing
          sub.plan.entitlements.limits.documentsPerPeriod, sub.usage.documentsProcessed < cap := by
  rw [checkDocumentQuota, if_neg fun h => htrial h.1]
  cases hcap : periodDocumentCap sub.plan.billing
      sub.plan.entitlements.limits.documentsPerPeriod with
  | none => simp
  | some cap =>
    cases overage with
    | some price => simp [hplan, overageAllowed]
    | none =>
      by_cases hover : cap ≤ sub.usage.documentsProcessed
      · simp [hplan, overageAllowed, hover]
      · simp [hplan, overageAllowed, hover, not_le.mp hover]

/-- The price of a monthly plan outside the trial. -/
theorem quoteDocument_monthly (hplan : sub.plan.billing = .monthly basePrice included overage)
    (htrial : effectiveStatus sub now ≠ .trialing) (pages : ℤ) :
    quoteDocument sub pages now =
      if ∀ n ∈ included, sub.usage.documentsProcessed < n then none else overage := by
  simp only [quoteDocument, hplan]
  rw [if_neg fun h => htrial h.1]
  cases included <;> simp

end Monthly

def BillingModel.includedDocuments : BillingModel → Option ℤ
  | .monthly _ includedDocuments _ => includedDocuments
  | _ => none

def BillingModel.overageUnitPrice : BillingModel → Option Money
  | .monthly _ _ overageUnitPrice => overageUnitPrice
  | _ => none

/-- The cap in force; `none` is no cap. -/
def effectiveCap (sub : Subscription) : Option ℤ :=
  periodDocumentCap sub.plan.billing sub.plan.entitlements.limits.documentsPerPeriod

/-- A document admitted past the cap is charged the overage price, and one admitted for
nothing is below the cap. -/
def GatePriceAgree (sub : Subscription) (pages now : ℤ) : Prop :=
  (checkDocumentQuota sub now = .allow →
    (∃ cap ∈ effectiveCap sub, cap ≤ sub.usage.documentsProcessed) →
      ∃ price, sub.plan.billing.overageUnitPrice = some price ∧
        quoteDocument sub pages now = some price) ∧
  (checkDocumentQuota sub now = .allow → quoteDocument sub pages now = none →
    ∀ cap ∈ effectiveCap sub, sub.usage.documentsProcessed < cap)

/-- The plan bills overage, and usage is at or past the plan limit but within the billing
allowance. -/
def PastLimitWithinAllowance (sub : Subscription) : Prop :=
  sub.plan.billing.overageUnitPrice ≠ none ∧
  (∃ limit ∈ sub.plan.entitlements.limits.documentsPerPeriod,
    limit ≤ sub.usage.documentsProcessed) ∧
  ∀ included ∈ sub.plan.billing.includedDocuments, sub.usage.documentsProcessed < included

section Monthly

variable {basePrice : Money} {included : Option ℤ} {overage : Option Money} {limit : Option ℤ}

/-- Usage is at the cap when it is at the allowance or at the limit. -/
theorem reached_cap_iff (usage : ℤ) :
    (∃ cap ∈ periodDocumentCap (.monthly basePrice included overage) limit, cap ≤ usage) ↔
      (∃ n ∈ included, n ≤ usage) ∨ ∃ l ∈ limit, l ≤ usage := by
  cases included <;> cases limit <;> simp [periodDocumentCap]

end Monthly

/-- For every monthly subscription outside its trial, gate and price agree exactly when
usage is not past the plan limit of a plan with overage while within its allowance. -/
theorem gatePriceAgree_iff (sub : Subscription) (pages now : ℤ) {basePrice : Money}
    {included : Option ℤ} {overage : Option Money}
    (hplan : sub.plan.billing = .monthly basePrice included overage)
    (htrial : effectiveStatus sub now ≠ .trialing) :
    GatePriceAgree sub pages now ↔ ¬PastLimitWithinAllowance sub := by
  have hgate := checkDocumentQuota_monthly hplan htrial
  have hquote := quoteDocument_monthly hplan htrial pages
  have hcap : (∃ cap ∈ effectiveCap sub, cap ≤ sub.usage.documentsProcessed) ↔
      (∃ n ∈ included, n ≤ sub.usage.documentsProcessed) ∨
        ∃ limit ∈ sub.plan.entitlements.limits.documentsPerPeriod,
          limit ≤ sub.usage.documentsProcessed := by
    rw [effectiveCap, hplan]
    exact reached_cap_iff sub.usage.documentsProcessed
  have hoverage : sub.plan.billing.overageUnitPrice = overage := by rw [hplan]; rfl
  have hincluded : sub.plan.billing.includedDocuments = included := by rw [hplan]; rfl
  unfold GatePriceAgree PastLimitWithinAllowance
  rw [hoverage, hincluded]
  constructor
  · rintro ⟨hcharged, -⟩ ⟨hbills, hlimit, hwithin⟩
    obtain ⟨price, -, hprice⟩ := hcharged (hgate.mpr (Or.inl hbills)) (hcap.mpr (Or.inr hlimit))
    rw [hquote, if_pos hwithin] at hprice
    cases hprice
  · intro hgap
    have hcharged : checkDocumentQuota sub now = .allow →
        (∃ cap ∈ effectiveCap sub, cap ≤ sub.usage.documentsProcessed) →
          ∃ price, overage = some price ∧ quoteDocument sub pages now = some price := by
      intro hadmitted hreached
      have hbills : overage ≠ none := by
        refine (hgate.mp hadmitted).resolve_right fun hbelow => ?_
        obtain ⟨cap, hmem, hle⟩ := hreached
        have hlt := hbelow cap hmem
        omega
      obtain ⟨price, rfl⟩ := Option.ne_none_iff_exists'.mp hbills
      refine ⟨price, rfl, ?_⟩
      rw [hquote, if_neg]
      intro hwithin
      refine hgap ⟨hbills, (hcap.mp hreached).resolve_left ?_, hwithin⟩
      rintro ⟨n, hn, hle⟩
      have hlt := hwithin n hn
      omega
    refine ⟨hcharged, fun hadmitted hfree cap hmem => ?_⟩
    by_contra hle
    obtain ⟨price, -, hprice⟩ := hcharged hadmitted ⟨cap, hmem, by omega⟩
    rw [hfree] at hprice
    cases hprice

/-- A business plan with 1000 documents included, a limit of 500, and overage. -/
def limitedPlan : SubscriptionPlan where
  id := "business-500"
  name := "Business 500"
  tier := .business
  description := none
  billing := .monthly ⟨5000000, .NGN⟩ (some 1000) (some ⟨7500, .NGN⟩)
  entitlements := ⟨[], .pii, [], ⟨some 500, none, none, none, none, 30⟩⟩
  trial := none
  hidden := false

/-- A subscription to a plan that has processed so many documents. -/
def subscribed (plan : SubscriptionPlan) (documents : ℤ) : Subscription where
  id := "sub_1"
  tenantId := "acme"
  plan := plan
  status := .active
  trial := none
  currentPeriodStart := 0
  currentPeriodEnd := 30 * DAY_MS
  cancelAtPeriodEnd := false
  canceledAt := none
  usage := ⟨documents, 0, 0, 0⟩
  payment := ⟨.manual, none, none, false⟩
  createdAt := 0
  updatedAt := 0

/-- Below the limit nothing is charged, and past the allowance overage is. -/
theorem gatePriceAgree_iff_limitedPlan :
    GatePriceAgree (subscribed limitedPlan 499) 1 0 ∧
      GatePriceAgree (subscribed limitedPlan 1000) 1 0 :=
  ⟨(gatePriceAgree_iff _ 1 0 rfl (by decide)).mpr (by simp [PastLimitWithinAllowance, subscribed,
      limitedPlan]),
    (gatePriceAgree_iff _ 1 0 rfl (by decide)).mpr (by simp [PastLimitWithinAllowance, subscribed,
      limitedPlan, BillingModel.includedDocuments])⟩

/-- At the limit of an accepted plan the next document is admitted and costs nothing. -/
theorem free_past_limit :
    planInputSchema limitedPlan = true ∧ effectiveStatus (subscribed limitedPlan 500) 0 = .active ∧
      ¬GatePriceAgree (subscribed limitedPlan 500) 1 0 := by
  refine ⟨by decide, by decide, fun h => ?_⟩
  obtain ⟨price, -, hprice⟩ := h.1 (by decide) ⟨500, by decide, by decide⟩
  have hfree : quoteDocument (subscribed limitedPlan 500) 1 0 = none := by decide
  rw [hfree] at hprice
  cases hprice

end HeirsOcr.Billing
