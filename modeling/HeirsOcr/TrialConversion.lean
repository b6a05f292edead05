import HeirsOcr.DocumentQuota
import HeirsOcr.Subscriptions

/-!
# What a trial leaves of the paid allowance

A document recorded during a trial takes one from the trial's allowance and adds one to
the period's count. When the trial converts, nothing resets that count, so the paid plan
starts its allowance with the trial's documents already on it. A plan keeps its whole
allowance when the trial processed nothing, and where there is none to lose.
-/
namespace HeirsOcr.TrialConversion
open Billing StepMachine

/-- One subscription and the clock. -/
structure Account where
  sub : Subscription
  now : ℤ

/-- A processed document, metered by `recordDocumentUsage` when no other call is under
way, or the passing of time. -/
inductive Action where
  | document (pages : ℤ) (tokensUsed : Option ℤ)
  | wait (ms : ℕ)

def step (s : Account) : Action → Option Account
  | .document pages tokensUsed => some { s with sub := recorded s.sub ⟨pages, tokensUsed, s.now⟩ }
  | .wait ms => some { s with now := s.now + ms }

/-- The documents processed in a run. -/
def documents (as : List Action) : ℕ :=
  as.countP fun a =>
    match a with
    | .document .. => true
    | .wait _ => false

/-- The subscription after the first `k` of a sequence of documents. -/
def processed (sub : Subscription) (ds : ℕ → Metering) : ℕ → Subscription
  | 0 => sub
  | k + 1 => recorded (processed sub ds k) (ds k)

/-- How many of the documents that follow are admitted and not charged. -/
noncomputable def freeDocuments (sub : Subscription) (ds : ℕ → Metering) : ℕ∞ :=
  {k | checkDocumentQuota (processed sub ds k) (ds k).now = .allow ∧
    quoteDocument (processed sub ds k) (ds k).pages (ds k).now = none}.encard

/-- The bound below which documents are free: the billing allowance of a plan with
overage, and the cap of one without. -/
def freeBound (plan : SubscriptionPlan) : Option ℤ :=
  if plan.billing.overageUnitPrice = none then
    periodDocumentCap plan.billing plan.entitlements.limits.documentsPerPeriod
  else plan.billing.includedDocuments

/-- The documents a period's flat fee covers. -/
def allowance (plan : SubscriptionPlan) : ℕ∞ :=
  match freeBound plan with
  | none => ⊤
  | some bound => bound.toNat

section Active

variable {sub : Subscription} {now now' : ℤ}

theorem effectiveStatus_recorded {data : Metering}
    (h : effectiveStatus sub data.now ≠ .trialing) (now' : ℤ) :
    effectiveStatus (recorded sub data) now' = effectiveStatus sub now' := by
  unfold recorded
  simp only [if_neg h]
  rfl

/-- In a trial window a subscription is trialing until the window is over. -/
theorem effectiveStatus_eq_trialing {trial : TrialWindow} (hstatus : sub.status = .trialing)
    (htrial : sub.trial = some trial) :
    effectiveStatus sub now = .trialing ↔
      (∀ endsAt ∈ trial.endsAt, now < endsAt) ∧ ∀ n ∈ trial.documentsRemaining, 0 < n := by
  simp only [effectiveStatus, hstatus, htrial]
  rw [if_neg (by decide)]
  cases trial.endsAt <;> cases trial.documentsRemaining <;>
    cases sub.payment.hasPaymentMethod <;> simp

theorem status_of_trialing (h : effectiveStatus sub now = .trialing) : sub.status = .trialing := by
  cases hs : sub.status with
  | trialing => rfl
  | suspended => simp [effectiveStatus, hs] at h
  | _ =>
    simp only [effectiveStatus, hs, untrialedStatus] at h
    rw [if_neg (by decide)] at h
    split_ifs at h

/-- A subscription that has become active is in no trial later. -/
theorem not_trialing_of_active (h : effectiveStatus sub now = .active) (hle : now ≤ now') :
    effectiveStatus sub now' ≠ .trialing := by
  intro h'
  have hstatus := status_of_trialing h'
  cases htrial : sub.trial with
  | some trial =>
    have hruns := (effectiveStatus_eq_trialing hstatus htrial).mp h'
    have hnow : effectiveStatus sub now = .trialing := by
      refine (effectiveStatus_eq_trialing hstatus htrial).mpr ⟨fun endsAt he => ?_, hruns.2⟩
      have hlater := hruns.1 endsAt he
      omega
    rw [hnow] at h
    cases h
  | none =>
    simp only [effectiveStatus, hstatus, htrial, untrialedStatus] at h
    rw [if_neg (by decide)] at h
    split_ifs at h

/-- Documents processed outside the trial only raise the period's counts. -/
theorem processed_not_trialing {ds : ℕ → Metering}
    (hds : ∀ k, effectiveStatus sub (ds k).now ≠ .trialing) (k : ℕ) :
    (processed sub ds k).plan = sub.plan ∧
      (processed sub ds k).usage.documentsProcessed = sub.usage.documentsProcessed + k ∧
      ∀ now', effectiveStatus (processed sub ds k) now' = effectiveStatus sub now' := by
  induction k with
  | zero => simp [processed]
  | succ k ih =>
    obtain ⟨hplan, husage, hstatus⟩ := ih
    have hnot : effectiveStatus (processed sub ds k) (ds k).now ≠ .trialing := by
      rw [hstatus]
      exact hds k
    refine ⟨hplan, ?_, fun now' => ?_⟩
    · have hone : (processed sub ds (k + 1)).usage.documentsProcessed =
          (processed sub ds k).usage.documentsProcessed + 1 := rfl
      rw [hone, husage]
      push_cast
      ring
    · rw [processed, effectiveStatus_recorded hnot, hstatus]

/-- A document outside the trial of a monthly plan is free below the bound. -/
theorem free_iff {basePrice : Money} {included : Option ℤ} {overage : Option Money}
    (hplan : sub.plan.billing = .monthly basePrice included overage)
    (htrial : effectiveStatus sub now ≠ .trialing) (pages : ℤ) :
    (checkDocumentQuota sub now = .allow ∧ quoteDocument sub pages now = none) ↔
      ∀ bound ∈ freeBound sub.plan, sub.usage.documentsProcessed < bound := by
  rw [checkDocumentQuota_monthly hplan htrial, quoteDocument_monthly hplan htrial pages]
  have hoverage : sub.plan.billing.overageUnitPrice = overage := by rw [hplan]; rfl
  have hincluded : sub.plan.billing.includedDocuments = included := by rw [hplan]; rfl
  unfold freeBound
  rw [hoverage, hincluded]
  cases overage with
  | none => simp
  | some price => simp

/-- As many documents are free as the allowance exceeds the count. -/
theorem freeDocuments_eq {basePrice : Money} {included : Option ℤ} {overage : Option Money}
    (hplan : sub.plan.billing = .monthly basePrice included overage)
    (hactive : effectiveStatus sub now = .active) {ds : ℕ → Metering}
    (hds : ∀ k, now ≤ (ds k).now) (husage : 0 ≤ sub.usage.documentsProcessed) :
    freeDocuments sub ds = allowance sub.plan - sub.usage.documentsProcessed.toNat := by
  have hnot : ∀ k, effectiveStatus sub (ds k).now ≠ .trialing := fun k =>
    not_trialing_of_active hactive (hds k)
  have hfree : ∀ k, (checkDocumentQuota (processed sub ds k) (ds k).now = .allow ∧
      quoteDocument (processed sub ds k) (ds k).pages (ds k).now = none) ↔
        ∀ bound ∈ freeBound sub.plan, sub.usage.documentsProcessed + k < bound := by
    intro k
    obtain ⟨hk, husagek, hstatusk⟩ := processed_not_trialing hnot k
    have hplank : (processed sub ds k).plan.billing = .monthly basePrice included overage := by
      rw [hk, hplan]
    have hnotk : effectiveStatus (processed sub ds k) (ds k).now ≠ .trialing := by
      rw [hstatusk]
      exact hnot k
    rw [free_iff hplank hnotk, hk, husagek]
  unfold freeDocuments allowance
  simp only [hfree]
  cases freeBound sub.plan with
  | none => simp
  | some bound =>
    have hset : {k : ℕ | ∀ b ∈ some bound, sub.usage.documentsProcessed + k < b} =
        (Finset.range (bound.toNat - sub.usage.documentsProcessed.toNat) : Set ℕ) := by
      ext k
      simp only [Option.mem_some_iff, forall_eq', Set.mem_ofPred_eq, Finset.coe_range,
        Set.mem_Iio]
      omega
    rw [hset, Set.encard_coe_eq_coe_finsetCard, Finset.card_range]
    push_cast
    rfl

end Active

/-- A run counts its documents and keeps the plan. -/
theorem exec_usage {s t : Account} {as : List Action} (h : exec step s as = some t) :
    t.sub.plan = s.sub.plan ∧
      t.sub.usage.documentsProcessed = s.sub.usage.documentsProcessed + documents as := by
  induction as generalizing s with
  | nil =>
    obtain rfl := Option.some.inj h
    simp [documents]
  | cons a as ih =>
    cases a with
    | document pages tokensUsed =>
      obtain ⟨hplan, husage⟩ :=
        ih (s := { s with sub := recorded s.sub ⟨pages, tokensUsed, s.now⟩ }) h
      have hone : (recorded s.sub ⟨pages, tokensUsed, s.now⟩).usage.documentsProcessed =
          s.sub.usage.documentsProcessed + 1 := rfl
      have hcount : documents (.document pages tokensUsed :: as) = documents as + 1 := by
        simp [documents]
      refine ⟨hplan, ?_⟩
      rw [husage, hone, hcount]
      push_cast
      ring
    | wait ms =>
      obtain ⟨hplan, husage⟩ := ih (s := { s with now := s.now + ms }) h
      have hcount : documents (.wait ms :: as) = documents as := by simp [documents]
      rw [hcount]
      exact ⟨hplan, husage⟩

/-- Some of an allowance is gone exactly when it is finite, not zero, and something was
counted against it. -/
theorem sub_eq_self_iff (n : ℕ∞) (k : ℕ) : n - k = n ↔ k = 0 ∨ n = 0 ∨ n = ⊤ := by
  cases n with
  | top => simp
  | coe n =>
    rw [← ENat.natCast_sub]
    simp only [Nat.cast_inj, Nat.cast_eq_zero, ENat.natCast_ne_top, or_false]
    omega

/-- The documents free at the end of a run are those the allowance has over its count. -/
theorem freeDocuments_of_run {s u : Account} {as : List Action}
    (hcount : 0 ≤ s.sub.usage.documentsProcessed) {basePrice : Money} {included : Option ℤ}
    {overage : Option Money} (hplan : s.sub.plan.billing = .monthly basePrice included overage)
    (hrun : exec step s as = some u) (hactive : effectiveStatus u.sub u.now = .active)
    {ds : ℕ → Metering} (hds : ∀ k, u.now ≤ (ds k).now) :
    freeDocuments u.sub ds =
      allowance s.sub.plan - (s.sub.usage.documentsProcessed + documents as).toNat := by
  obtain ⟨hplanu, husage⟩ := exec_usage hrun
  have hmonthly : u.sub.plan.billing = .monthly basePrice included overage := by
    rw [hplanu, hplan]
  rw [freeDocuments_eq hmonthly hactive hds (by omega), hplanu, husage]

/-- In every run whose last step leaves a subscription on a monthly plan active, as the step out of
its trial does, the documents it then has free are its whole allowance exactly when nothing is on
the period's count, or there is no allowance, or no bound to it. -/
theorem allowance_left_iff (s t u : Account) (as : List Action) (a : Action)
    (hcount : 0 ≤ s.sub.usage.documentsProcessed) {basePrice : Money} {included : Option ℤ}
    {overage : Option Money} (hplan : s.sub.plan.billing = .monthly basePrice included overage)
    (hrun : exec step s as = some t) (hstep : step t a = some u)
    (hactive : effectiveStatus u.sub u.now = .active)
    (ds : ℕ → Metering) (hds : ∀ k, u.now ≤ (ds k).now) :
    freeDocuments u.sub ds = allowance s.sub.plan ↔
      s.sub.usage.documentsProcessed + documents (as ++ [a]) = 0 ∨
        allowance s.sub.plan = 0 ∨ allowance s.sub.plan = ⊤ := by
  have hwhole : exec step s (as ++ [a]) = some u := by
    rw [exec_append, hrun]
    simp [exec, hstep]
  rw [freeDocuments_of_run hcount hplan hwhole hactive hds, sub_eq_self_iff]
  have hzero : (s.sub.usage.documentsProcessed + documents (as ++ [a])).toNat = 0 ↔
      s.sub.usage.documentsProcessed + documents (as ++ [a]) = 0 := by omega
  rw [hzero]

/-- A plan with 100 documents a month and no overage. -/
def hundredPlan : SubscriptionPlan where
  id := "starter-100"
  name := "Starter 100"
  tier := .starter
  description := none
  billing := .monthly ⟨1000000, .NGN⟩ (some 100) none
  entitlements := ⟨[], .standard, [], ⟨none, none, none, none, none, 30⟩⟩
  trial := some ⟨some 14, some 20, none, none, true⟩
  hidden := false

/-- A trial of 14 days and 20 documents, with a payment method on file. -/
def inTrial : Account where
  sub := { subscribed hundredPlan 0 with
    status := .trialing
    trial := some (resolveTrialWindow ⟨some 14, some 20, none, none, true⟩ 0)
    payment := ⟨.paystack, none, none, true⟩ }
  now := 0

def onePager (now : ℤ) : ℕ → Metering := fun _ => ⟨1, none, now⟩

/-- The trial runs out unused and the whole allowance is left. -/
theorem allowance_left_iff_unused :
    freeDocuments { inTrial with now := 14 * DAY_MS }.sub (onePager (14 * DAY_MS)) = 100 :=
  (allowance_left_iff inTrial inTrial { inTrial with now := 14 * DAY_MS } []
    (.wait (14 * DAY_MS).toNat) (by decide) rfl rfl (by rfl) (by decide)
    (onePager (14 * DAY_MS)) fun _ => le_rfl).mpr (Or.inl (by decide))

/-- One document in the trial, and the first paid period has 99 left of 100. -/
theorem trial_document_counted :
    ∃ u, exec step inTrial [.document 1 none, .wait (14 * DAY_MS).toNat] = some u ∧
      effectiveStatus u.sub u.now = .active ∧
        freeDocuments u.sub (onePager u.now) ≠ allowance inTrial.sub.plan := by
  obtain ⟨u, hrun⟩ : ∃ u,
      exec step inTrial [.document 1 none, .wait (14 * DAY_MS).toNat] = some u := ⟨_, rfl⟩
  have hactive : effectiveStatus u.sub u.now = .active := by
    obtain rfl := Option.some.inj hrun
    decide
  have hfree : freeDocuments u.sub (onePager u.now) = allowance inTrial.sub.plan - 1 :=
    freeDocuments_of_run (by decide) rfl hrun hactive fun _ => le_rfl
  refine ⟨u, hrun, hactive, ?_⟩
  rw [hfree]
  decide

end HeirsOcr.TrialConversion
