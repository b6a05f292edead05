import HeirsOcr.DocumentQuota

/-!
# What a subscription lets through

`requireSubscription` asks three questions of a subscription, and the first that is denied
becomes the error of the request. The limits a document meets are the plan's, narrowed in a
trial by the trial's own.
-/
namespace HeirsOcr.Billing

def Sensitivity.toText : Sensitivity → String
  | .standard => "standard"
  | .pii => "pii"
  | .restricted => "restricted"

def SENSITIVITY_RANK : Sensitivity → ℕ
  | .standard => 0
  | .pii => 1
  | .restricted => 2

/-- No listed function means all of them. -/
def canUseFunction (sub : Subscription) (fnKey : String) (sensitivity : Sensitivity) :
    EntitlementDecision :=
  let e := sub.plan.entitlements
  if e.allowedFunctions ≠ [] ∧ fnKey ∉ e.allowedFunctions then
    .deny .NOT_ENTITLED ("Your plan does not include the '" ++ fnKey ++ "' function.")
  else if SENSITIVITY_RANK e.maxSensitivity < SENSITIVITY_RANK sensitivity then
    .deny .SENSITIVITY_BLOCKED ("'" ++ fnKey ++ "' handles " ++ sensitivity.toText ++
      " data, above your plan's " ++ e.maxSensitivity.toText ++ " ceiling.")
  else .allow

/-- The smaller of two ceilings. -/
def tighter : Option ℤ → Option ℤ → Option ℤ
  | none, b => b
  | some a, none => some a
  | some a, some b => some (min a b)

def effectiveLimits (sub : Subscription) (now : ℤ) : PlanLimits :=
  let base := sub.plan.entitlements.limits
  if effectiveStatus sub now ≠ .trialing then base
  else
    match sub.trial with
    | none => base
    | some trial =>
      { base with
        maxPagesPerDocument := tighter base.maxPagesPerDocument trial.maxPagesPerDocument
        maxFileSizeBytes := tighter base.maxFileSizeBytes trial.maxFileSizeBytes }

def CODE_MAP : EntitlementDenialCode → OcrErrorCode
  | .SUBSCRIPTION_INACTIVE => .PAYMENT_REQUIRED
  | .NOT_ENTITLED => .FORBIDDEN
  | .SENSITIVITY_BLOCKED => .FORBIDDEN
  | .QUOTA_EXCEEDED => .QUOTA_EXCEEDED

/-- The error of a denial; only a spent quota is worth a retry. -/
def EntitlementDecision.error? : EntitlementDecision → Option OcrError
  | .allow => none
  | .deny code reason => some ⟨CODE_MAP code, reason, code = .QUOTA_EXCEEDED⟩

/-- The first denial, `none` when the request is allowed. -/
def evaluateSubscription (sub : Subscription) (fnKey : String) (sensitivity : Sensitivity)
    (now : ℤ) : Option OcrError :=
  [requireActive sub now, canUseFunction sub fnKey sensitivity,
    checkDocumentQuota sub now].findSome? EntitlementDecision.error?

/-- The subscription serves the function now, and one more document. -/
structure Serves (sub : Subscription) (fnKey : String) (sensitivity : Sensitivity) (now : ℤ) :
    Prop where
  active : isServable sub now = true
  entitled : sub.plan.entitlements.allowedFunctions = [] ∨
    fnKey ∈ sub.plan.entitlements.allowedFunctions
  cleared : SENSITIVITY_RANK sensitivity ≤ SENSITIVITY_RANK sub.plan.entitlements.maxSensitivity
  quota : checkDocumentQuota sub now = .allow

section Gate

variable {sub : Subscription} {fnKey : String} {sensitivity : Sensitivity} {now : ℤ}

theorem error?_eq_none {d : EntitlementDecision} : d.error? = none ↔ d = .allow := by
  cases d with
  | allow => simp [EntitlementDecision.error?]
  | deny code reason => simp [EntitlementDecision.error?]

theorem requireActive_eq_allow : requireActive sub now = .allow ↔ isServable sub now = true := by
  unfold requireActive
  cases isServable sub now with
  | true => simp
  | false => simp

theorem canUseFunction_eq_allow : canUseFunction sub fnKey sensitivity = .allow ↔
    (sub.plan.entitlements.allowedFunctions = [] ∨
      fnKey ∈ sub.plan.entitlements.allowedFunctions) ∧
    SENSITIVITY_RANK sensitivity ≤ SENSITIVITY_RANK sub.plan.entitlements.maxSensitivity := by
  simp only [canUseFunction]
  by_cases hlisted : sub.plan.entitlements.allowedFunctions ≠ [] ∧
      fnKey ∉ sub.plan.entitlements.allowedFunctions
  · rw [if_pos hlisted]
    simp [hlisted.1, hlisted.2]
  · rw [if_neg hlisted]
    rw [not_and_or, not_not, not_not] at hlisted
    by_cases hrank : SENSITIVITY_RANK sub.plan.entitlements.maxSensitivity <
        SENSITIVITY_RANK sensitivity
    · rw [if_pos hrank]
      simp only [reduceCtorEq, false_iff, not_and, not_le]
      exact fun _ => hrank
    · rw [if_neg hrank]
      exact iff_of_true rfl ⟨hlisted, not_lt.mp hrank⟩

/-- The gate is open exactly when the subscription serves the request. -/
theorem evaluateSubscription_eq_none :
    evaluateSubscription sub fnKey sensitivity now = none ↔
      Serves sub fnKey sensitivity now := by
  unfold evaluateSubscription
  simp only [List.findSome?_eq_none_iff, List.mem_cons, List.not_mem_nil, or_false,
    forall_eq_or_imp, forall_eq, error?_eq_none, requireActive_eq_allow, canUseFunction_eq_allow]
  constructor
  · intro ⟨hactive, ⟨hentitled, hcleared⟩, hquota⟩
    exact ⟨hactive, hentitled, hcleared, hquota⟩
  · intro h
    exact ⟨h.active, ⟨h.entitled, h.cleared⟩, h.quota⟩

theorem tighter_le {a b : Option ℤ} {x : ℤ} (h : a = some x) :
    ∃ y ≤ x, tighter a b = some y := by
  subst h
  cases b with
  | none => exact ⟨x, le_rfl, rfl⟩
  | some y => exact ⟨min x y, min_le_left x y, rfl⟩

/-- A trial never widens a plan's ceiling on the file or on the pages. -/
theorem effectiveLimits_le (now : ℤ) :
    (∀ x ∈ sub.plan.entitlements.limits.maxFileSizeBytes,
      ∃ y ≤ x, (effectiveLimits sub now).maxFileSizeBytes = some y) ∧
    ∀ x ∈ sub.plan.entitlements.limits.maxPagesPerDocument,
      ∃ y ≤ x, (effectiveLimits sub now).maxPagesPerDocument = some y := by
  simp only [effectiveLimits]
  by_cases htrial : effectiveStatus sub now ≠ .trialing
  · rw [if_pos htrial]
    exact ⟨fun x hx => ⟨x, le_rfl, hx⟩, fun x hx => ⟨x, le_rfl, hx⟩⟩
  · rw [if_neg htrial]
    cases sub.trial with
    | none => exact ⟨fun x hx => ⟨x, le_rfl, hx⟩, fun x hx => ⟨x, le_rfl, hx⟩⟩
    | some trial => exact ⟨fun x hx => tighter_le hx, fun x hx => tighter_le hx⟩

end Gate

end HeirsOcr.Billing
