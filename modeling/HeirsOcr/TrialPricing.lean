import HeirsOcr.DocumentQuota

/-!
# The price of a document in a trial

`effectiveStatus` takes a trial for running while neither of its bounds is reached, and a bound
may be missing. `quoteDocument` takes a document for covered when documents remain, and where
the trial does not count documents, none do: then the plan prices the document as it would
after the trial.
-/
namespace HeirsOcr.Billing

/-- The trial of the subscription is bounded by documents. -/
def CountsDocuments (sub : Subscription) : Prop :=
  ∃ trial ∈ sub.trial, trial.documentsRemaining.isSome

/-- The plan asks nothing for the next document, trial or not. -/
def PlanCovers (usage : PeriodUsage) : BillingModel → Prop
  | .trial => True
  | .per_document _ _ _ => False
  | .monthly _ includedDocuments overageUnitPrice =>
    (∀ included ∈ includedDocuments, usage.documentsProcessed < included) ∨ overageUnitPrice = none

section Trial

variable {sub : Subscription} {now : ℤ}

/-- In a trial, documents remain exactly when the trial counts them. -/
theorem remaining_pos_iff (h : effectiveStatus sub now = .trialing) :
    0 < (sub.trial.bind TrialWindow.documentsRemaining).getD 0 ↔ CountsDocuments sub := by
  cases htrial : sub.trial with
  | none => simp [CountsDocuments, htrial]
  | some trial =>
    have hpos := (trialing_of_effectiveStatus h htrial).2
    cases hremaining : trial.documentsRemaining with
    | none => simp [CountsDocuments, htrial, hremaining]
    | some remaining =>
      have hone : 0 < remaining := hpos remaining hremaining
      simp [CountsDocuments, htrial, hremaining, hone]

/-- A trial that counts documents has the next one free. -/
theorem quoteDocument_of_countsDocuments (h : effectiveStatus sub now = .trialing)
    (hcounts : CountsDocuments sub) (pages : ℤ) : quoteDocument sub pages now = none := by
  rw [quoteDocument]
  exact if_pos ⟨h, (remaining_pos_iff h).mpr hcounts⟩

/-- A trial that does not is priced by the plan. -/
theorem quoteDocument_of_not_countsDocuments (h : effectiveStatus sub now = .trialing)
    (hcounts : ¬CountsDocuments sub) (pages : ℤ) :
    quoteDocument sub pages now = none ↔ PlanCovers sub.usage sub.plan.billing := by
  have hnone : ¬(effectiveStatus sub now = .trialing ∧
      (sub.trial.bind TrialWindow.documentsRemaining).getD 0 > 0) :=
    fun hfree => hcounts ((remaining_pos_iff h).mp hfree.2)
  simp only [quoteDocument, if_neg hnone]
  cases sub.plan.billing with
  | trial => simp [PlanCovers]
  | per_document unitPrice perPageSurcharge minimumCharge => simp [PlanCovers]
  | monthly basePrice includedDocuments overageUnitPrice =>
    have hall : (includedDocuments.all fun included =>
        decide (sub.usage.documentsProcessed < included)) = true ↔
          ∀ included ∈ includedDocuments, sub.usage.documentsProcessed < included := by
      cases includedDocuments <;> simp
    dsimp only
    rw [PlanCovers, ← hall]
    split_ifs with hcovered
    · simp [hcovered]
    · simp [hcovered]

/-- While a subscription is in its trial, documents are free exactly when the trial counts
documents or the plan asks nothing for the next document anyway. -/
theorem trial_free_iff (sub : Subscription) (now : ℤ)
    (h : effectiveStatus sub now = .trialing) :
    (∀ pages, quoteDocument sub pages now = none) ↔
      CountsDocuments sub ∨ PlanCovers sub.usage sub.plan.billing := by
  by_cases hcounts : CountsDocuments sub
  · have hfree := quoteDocument_of_countsDocuments h hcounts
    exact iff_of_true hfree (.inl hcounts)
  · have hprice := quoteDocument_of_not_countsDocuments h hcounts
    constructor
    · intro hfree
      exact .inr ((hprice 0).mp (hfree 0))
    · rintro (hcounts' | hcovers)
      · exact absurd hcounts' hcounts
      · exact fun pages => (hprice pages).mpr hcovers

end Trial

section Examples

/-- A plan at 100.00 a document after two weeks. -/
def fortnight : SubscriptionPlan where
  id := "fortnight"
  name := "Two weeks free"
  tier := .payg
  description := none
  billing := .per_document ⟨10000, .NGN⟩ none none
  entitlements := ⟨[], .standard, [], ⟨none, none, none, none, none, 30⟩⟩
  trial := some ⟨some 14, none, none, none, false⟩
  hidden := false

/-- A tenant on the first day of it. -/
def firstDay (trial : TrialPolicy) : Subscription where
  id := "sub"
  tenantId := "acme"
  plan := fortnight
  status := .trialing
  trial := some (resolveTrialWindow trial 0)
  currentPeriodStart := 0
  currentPeriodEnd := 30 * DAY_MS
  cancelAtPeriodEnd := false
  canceledAt := none
  usage := ⟨0, 0, 0, 0⟩
  payment := ⟨.manual, none, none, false⟩
  createdAt := 0
  updatedAt := 0

/-- With an allowance of documents beside the two weeks, it is free. -/
theorem trial_free_fortnight :
    quoteDocument (firstDay ⟨some 14, some 50, none, none, false⟩) 3 1 = none :=
  (trial_free_iff _ 1 (by decide)).mpr (.inl ⟨_, rfl, rfl⟩) 3

/-- With the two weeks alone, it is not. -/
theorem fortnight_charged :
    ¬ ∀ (sub : Subscription) (now : ℤ), planInputSchema sub.plan = true →
      effectiveStatus sub now = .trialing → ∀ pages, quoteDocument sub pages now = none := by
  intro hall
  have hfree := hall (firstDay ⟨some 14, none, none, none, false⟩) 1 (by decide +kernel)
    (by decide) 1
  revert hfree
  decide

end Examples

end HeirsOcr.Billing
