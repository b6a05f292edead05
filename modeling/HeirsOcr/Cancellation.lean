import HeirsOcr.DocumentQuota

/-!
# Cancellation at the end of the period

A subscription cancelled at the end of its period should be served up to that instant
and no longer. `effectiveStatus` looks at the period end only outside a trial window,
and a stored `canceled` is not served at any time, so both sides of the period end can
go wrong: a cancelled subscription stops at once, and one that is still stored as
trialing runs on. Time alone only ever ends what is served.
-/
namespace HeirsOcr.Billing

/-- A cancelled subscription is served until its period ends, and nothing that is to end
with its period is served after it. -/
def CancellationHonoured (sub : Subscription) (now : ℤ) : Prop :=
  (sub.status = .canceled → sub.cancelAtPeriodEnd → now < sub.currentPeriodEnd →
    isServable sub now) ∧
  (sub.cancelAtPeriodEnd → sub.currentPeriodEnd ≤ now → ¬isServable sub now)

/-- Neither bound of the trial window is reached. -/
def trialRuns (trial : TrialWindow) (now : ℤ) : Prop :=
  (∀ endsAt ∈ trial.endsAt, now < endsAt) ∧ ∀ n ∈ trial.documentsRemaining, 0 < n

/-- Stored as cancelled, with some of the period left. -/
def CanceledEarly (sub : Subscription) (now : ℤ) : Prop :=
  sub.status = .canceled ∧ sub.cancelAtPeriodEnd ∧ now < sub.currentPeriodEnd

/-- Past the period and stored as trialing, with a trial that runs or would convert. -/
def TrialingLate (sub : Subscription) (now : ℤ) : Prop :=
  sub.status = .trialing ∧ sub.cancelAtPeriodEnd ∧ sub.currentPeriodEnd ≤ now ∧
    ∃ trial ∈ sub.trial, trialRuns trial now ∨ sub.payment.hasPaymentMethod

section Status

variable {sub : Subscription} {now : ℤ}

/-- In a trial window the period end is not looked at. -/
theorem isServable_trialing {trial : TrialWindow} (hstatus : sub.status = .trialing)
    (htrial : sub.trial = some trial) :
    isServable sub now ↔ trialRuns trial now ∨ sub.payment.hasPaymentMethod := by
  have hover : ((trial.endsAt.any fun endsAt => decide (now ≥ endsAt)) ||
      trial.documentsRemaining.any fun remaining => decide (remaining ≤ 0)) = true ↔
        ¬trialRuns trial now := by
    rw [Bool.or_eq_true, trialRuns, not_and_or]
    refine or_congr ?_ ?_
    · cases trial.endsAt <;> simp
    · cases trial.documentsRemaining <;> simp
  simp only [isServable, effectiveStatus, hstatus, htrial]
  rw [if_neg (by decide)]
  by_cases hruns : trialRuns trial now
  · rw [if_neg fun h => hover.mp h hruns]
    simp [hruns]
  · rw [if_pos (hover.mpr hruns)]
    cases sub.payment.hasPaymentMethod <;> simp [hruns]

theorem not_isServable_canceled (hstatus : sub.status = .canceled) : ¬isServable sub now := by
  simp only [isServable, effectiveStatus, hstatus, untrialedStatus]
  rw [if_neg (by decide)]
  split_ifs <;> decide

/-- Outside a trial window the period end is the end. -/
theorem not_isServable_past_end (hcancel : sub.cancelAtPeriodEnd = true)
    (hend : sub.currentPeriodEnd ≤ now) (h : sub.status = .trialing → sub.trial = none) :
    ¬isServable sub now := by
  have hexpired : untrialedStatus sub now = .expired := by
    rw [untrialedStatus, if_pos (by simp [hcancel, hend])]
  cases hs : sub.status with
  | trialing => simp [isServable, effectiveStatus, hs, h hs, hexpired]
  | suspended => simp [isServable, effectiveStatus, hs]
  | _ => simp [isServable, effectiveStatus, hs, hexpired]

/-- A trial that runs has run before. -/
theorem trialRuns_anti {trial : TrialWindow} {earlier now : ℤ} (hle : earlier ≤ now)
    (h : trialRuns trial now) : trialRuns trial earlier :=
  ⟨fun endsAt hends => hle.trans_lt (h.1 endsAt hends), h.2⟩

/-- Outside a trial window a status is served as it is stored, until a cancelled period ends. -/
theorem isServable_untrialed (h : sub.status = .trialing → sub.trial = none) :
    isServable sub now ↔ (sub.cancelAtPeriodEnd = true → now < sub.currentPeriodEnd) ∧
      (sub.status = .trialing ∨ sub.status = .active ∨ sub.status = .past_due) := by
  by_cases hended : sub.cancelAtPeriodEnd = true ∧ sub.currentPeriodEnd ≤ now
  · have hnot := not_isServable_past_end hended.1 hended.2 h
    have hlate : ¬(sub.cancelAtPeriodEnd = true → now < sub.currentPeriodEnd) :=
      fun hbefore => absurd (hbefore hended.1) (not_lt.mpr hended.2)
    simp only [hnot, hlate, false_and]
    decide
  · have hbefore : sub.cancelAtPeriodEnd = true → now < sub.currentPeriodEnd :=
      fun hcancel => lt_of_not_ge fun hend => hended ⟨hcancel, hend⟩
    have hstored : untrialedStatus sub now = sub.status := by
      rw [untrialedStatus, if_neg]
      simpa using hbefore
    rw [and_iff_right hbefore]
    cases hs : sub.status with
    | trialing => simp [isServable, effectiveStatus, hs, h hs, hstored]
    | suspended => simp [isServable, effectiveStatus, hs]
    | _ => simp [isServable, effectiveStatus, hs, hstored]

end Status

/-- Cancellation is honoured exactly on a subscription that is not cancelled before its
period end and not trialing past it. -/
theorem cancellationHonoured_iff (sub : Subscription) (now : ℤ) :
    CancellationHonoured sub now ↔ ¬CanceledEarly sub now ∧ ¬TrialingLate sub now := by
  constructor
  · rintro ⟨hbefore, hafter⟩
    refine ⟨?_, ?_⟩
    · rintro ⟨hstatus, hcancel, hlt⟩
      exact not_isServable_canceled hstatus (hbefore hstatus hcancel hlt)
    · rintro ⟨hstatus, hcancel, hend, trial, htrial, hruns⟩
      exact hafter hcancel hend ((isServable_trialing hstatus htrial).mpr hruns)
  · rintro ⟨hearly, hlate⟩
    refine ⟨fun hstatus hcancel hlt => absurd ⟨hstatus, hcancel, hlt⟩ hearly, ?_⟩
    intro hcancel hend
    by_cases hwindow : sub.status = .trialing → sub.trial = none
    · exact not_isServable_past_end hcancel hend hwindow
    · obtain ⟨hstatus, htrial⟩ := Classical.not_imp.mp hwindow
      obtain ⟨trial, htrial⟩ := Option.ne_none_iff_exists'.mp htrial
      rw [isServable_trialing hstatus htrial]
      exact fun hruns => hlate ⟨hstatus, hcancel, hend, trial, htrial, hruns⟩

/-- Cancelled in the middle of the period. -/
def canceledEarly : Subscription :=
  { subscribed limitedPlan 0 with status := .canceled, cancelAtPeriodEnd := true }

/-- Cancelled during a trial whose window is longer than the period. -/
def trialingLate : Subscription :=
  { subscribed limitedPlan 0 with
    status := .trialing
    cancelAtPeriodEnd := true
    trial := some ⟨0, some (60 * DAY_MS), none, none, none, none⟩ }

/-- The first is refused while its period still runs, the second served after its end. -/
theorem cancellation_not_honoured :
    ¬CancellationHonoured canceledEarly 0 ∧ ¬CancellationHonoured trialingLate (30 * DAY_MS) := by
  refine ⟨fun h => ?_, fun h => ?_⟩
  · exact absurd (h.1 rfl rfl (by decide)) (by decide)
  · exact absurd (by decide) (h.2 rfl (by decide))

/-- What is served at an instant was served at every earlier one, for as long as the record
stays as it is. -/
theorem isServable_anti (sub : Subscription) {earlier now : ℤ} (hle : earlier ≤ now)
    (h : isServable sub now) : isServable sub earlier := by
  by_cases hwindow : sub.status = .trialing → sub.trial = none
  · obtain ⟨hbefore, hstored⟩ := (isServable_untrialed hwindow).mp h
    exact (isServable_untrialed hwindow).mpr
      ⟨fun hcancel => hle.trans_lt (hbefore hcancel), hstored⟩
  · obtain ⟨hstatus, htrial⟩ := Classical.not_imp.mp hwindow
    obtain ⟨trial, htrial⟩ := Option.ne_none_iff_exists'.mp htrial
    rw [isServable_trialing hstatus htrial] at h ⊢
    exact h.imp_left (trialRuns_anti hle)

theorem isServable_anti_trial : isServable trialingLate (30 * DAY_MS) :=
  isServable_anti trialingLate (by decide : 30 * DAY_MS ≤ 59 * DAY_MS) (by decide)

end HeirsOcr.Billing
