import HeirsOcr.Prompt
import HeirsOcr.ReviewBar
import HeirsOcr.Rounding

/-!
# The review of a loan application

The model reads the figures of an application, and the recommendation is computed from them.
Without an income there is none; without the monthly debt it is computed as if there were no
debt. The verdict asks for the income and for the requested amount, and not for the debt. Figures
are doubles, and each step with them is rounded.
-/
namespace HeirsOcr.LoanReview
open Doubles JsRecord Llm
open ReceiptProjection (Confidence)

structure LoanReviewArgs where
  currency : String
  maxDebtToIncome : Double
  min : 0 ≤ maxDebtToIncome.val
  max : maxDebtToIncome.val ≤ 1

structure Borrower where
  name : Option String
  dateOfBirth : Option String
  bvn : Option String
  employmentStatus : Option String
  employer : Option String
  deriving DecidableEq, Repr

structure Income where
  monthly : Option Double
  deriving DecidableEq

structure Obligations where
  monthlyDebt : Option Double
  deriving DecidableEq

/-- The raw fields that the model extracts. -/
structure LoanExtraction where
  borrower : Borrower
  requestedAmount : Option Double
  currency : Option String
  tenorMonths : Option Double
  income : Income
  obligations : Obligations
  riskFlags : List String
  summary : String
  deriving DecidableEq

structure Affordability where
  debtToIncome : Option ℚ
  disposableIncome : Option ℚ
  deriving DecidableEq, Repr

inductive Recommendation where
  | approve | review | decline | insufficientData
  deriving DecidableEq, Repr

structure LoanReviewResult extends LoanExtraction where
  affordability : Affordability
  recommendation : Recommendation
  confidence : Confidence
  warnings : List String
  deriving DecidableEq

def buildLoanReviewPrompt (markdown : String) (args : LoanReviewArgs) : Prompt where
  system := buildSystem [
    "You are a loan underwriting assistant reviewing an application pack.",
    "Extract the borrower (name, date of birth, BVN, employment status, employer),",
    "the requested amount, currency, tenor in months, stated monthly income, and stated",
    "monthly debt obligations. List any risk observations you notice as short riskFlags,",
    "and write a one-paragraph factual summary.",
    "Default currency is " ++ args.currency ++ ". Use null for any figure not present.",
    "Do NOT decide approval or compute affordability ratios — report only what the pack states."]
  user := "Review this loan application pack:\n\n" ++ wrapUntrusted "LOAN_PACK" markdown

def decide (r : Rounding) (dti disposable : Option ℚ) (maxDti : Double) (monthly : Option Double) :
    Recommendation :=
  match monthly, dti with
  | none, _ => .insufficientData
  | _, none => .insufficientData
  | some _, some dti =>
    if dti ≤ maxDti.val ∧ 0 < disposable.getD 0 then .approve
    else if dti ≤ r.round (maxDti.val + r.round (1 / 5)) then .review
    else .decline

/-- `amount ?? 0`. -/
def orZero (amount : Option Double) : ℚ := amount.elim 0 Double.val

/-- `complete` is the model's answer to a prompt. -/
def executeLoanReview (r : Rounding) (complete : Prompt → LoanExtraction) (markdown : String)
    (args : LoanReviewArgs) : LoanReviewResult :=
  let data := complete (buildLoanReviewPrompt markdown args)
  let monthly := data.income.monthly
  let debt := data.obligations.monthlyDebt
  let debtToIncome := monthly.bind fun monthly =>
    if 0 < monthly.val then some (r.round (orZero debt / monthly.val)) else none
  let disposableIncome := monthly.map fun monthly => r.round (monthly.val - orZero debt)
  { data with
    affordability := ⟨debtToIncome, disposableIncome⟩
    recommendation := decide r debtToIncome disposableIncome args.maxDebtToIncome monthly
    confidence := if monthly.isSome ∧ data.requestedAmount.isSome then .high else .low
    warnings :=
      (if monthly = none then
        ["Monthly income not found — affordability could not be computed."] else []) ++
      (if debt = none then
        ["Monthly debt obligations not found — assumed zero for affordability."] else []) ++
      if data.requestedAmount = none then ["Requested loan amount not found."] else [] }

def assessLoanReview (result : LoanReviewResult) : Confidence.ConfidenceAssessment :=
  Confidence.assess result.confidence result.warnings
    "Figures the recommendation rests on are missing from the application."
    (fromEntries [("borrower name",
      Confidence.isPresent (result.borrower.name.elim (.null : Json.Value ℚ) .string))])

/-- A figure that was read stays; one that is missing may be given an amount. -/
def Given (old new : Option Double) : Prop := ∀ amount ∈ old, new = some amount

/-- Two extractions that differ in nothing but amounts for figures the first one misses. -/
structure FiguresGiven (e e' : LoanExtraction) : Prop where
  monthly : Given e.income.monthly e'.income.monthly
  debt : Given e.obligations.monthlyDebt e'.obligations.monthlyDebt
  requested : Given e.requestedAmount e'.requestedAmount
  rest : e' = { e with
    income := e'.income
    obligations := e'.obligations
    requestedAmount := e'.requestedAmount }

/-- With high confidence, no amount for a missing figure changes the recommendation. -/
def RestsOnRead (r : Rounding) (markdown : String) (args : LoanReviewArgs) (e : LoanExtraction) :
    Prop :=
  (executeLoanReview r (fun _ => e) markdown args).confidence = .high →
    ∀ e', FiguresGiven e e' →
      (executeLoanReview r (fun _ => e') markdown args).recommendation =
        (executeLoanReview r (fun _ => e) markdown args).recommendation

section Recommendation

variable {r : Rounding} {markdown : String} {args : LoanReviewArgs} {e : LoanExtraction}

/-- Without an income above zero there is nothing to compute from. -/
theorem recommendation_insufficient (h : ∀ monthly ∈ e.income.monthly, monthly.val ≤ 0) :
    (executeLoanReview r (fun _ => e) markdown args).recommendation = .insufficientData := by
  unfold executeLoanReview
  cases hmonthly : e.income.monthly with
  | none => simp [decide, hmonthly]
  | some monthly =>
    have hle := h monthly hmonthly
    simp [decide, hmonthly, not_lt.mpr hle]

theorem recommendation_of_pos {monthly : Double} (hmonthly : e.income.monthly = some monthly)
    (hpos : 0 < monthly.val) :
    (executeLoanReview r (fun _ => e) markdown args).recommendation =
      decide r (some (r.round (orZero e.obligations.monthlyDebt / monthly.val)))
        (some (r.round (monthly.val - orZero e.obligations.monthlyDebt))) args.maxDebtToIncome
        (some monthly) := by
  unfold executeLoanReview
  simp only [hmonthly, Option.bind_some, Option.map_some, if_pos hpos]

/-- An income with no debt on it is approved, whatever the bar. -/
theorem approved_of_no_debt (r : Arithmetic) {monthly : Double}
    (hmonthly : e.income.monthly = some monthly) (hpos : 0 < monthly.val)
    (hdebt : e.obligations.monthlyDebt = none) :
    (executeLoanReview r.toRounding (fun _ => e) markdown args).recommendation = .approve := by
  have hdti : r.round (0 / monthly.val) = 0 := by
    rw [zero_div]
    exact r.zero
  have hdisposable : r.round (monthly.val - 0) = monthly.val := by
    rw [sub_zero]
    exact r.fixed monthly.isDouble
  rw [recommendation_of_pos hmonthly hpos, hdebt, orZero, Option.elim_none, hdti, hdisposable]
  exact if_pos ⟨args.min, hpos⟩

/-- An income that goes to the debt whole is not approved. -/
theorem not_approved_of_whole_debt (r : Arithmetic) {monthly : Double}
    (hmonthly : e.income.monthly = some monthly) (hpos : 0 < monthly.val)
    (hdebt : e.obligations.monthlyDebt = some monthly) :
    (executeLoanReview r.toRounding (fun _ => e) markdown args).recommendation ≠ .approve := by
  have hdisposable : r.round (monthly.val - monthly.val) = 0 := by
    rw [sub_self]
    exact r.zero
  rw [recommendation_of_pos hmonthly hpos, hdebt, orZero, Option.elim_some, hdisposable]
  simp only [decide, Option.getD_some, lt_irrefl, and_false, if_false]
  split_ifs
  · decide
  · decide

theorem confidence_high_iff : (executeLoanReview r (fun _ => e) markdown args).confidence = .high ↔
    e.income.monthly.isSome ∧ e.requestedAmount.isSome := by
  unfold executeLoanReview
  dsimp only
  split_ifs with hread
  · exact iff_of_true rfl hread
  · exact iff_of_false (by decide) hread

/-- Every missing figure raises a warning, so a person sees what was recommended without it. -/
theorem sentToReview_of_missing (h : e.income.monthly = none ∨ e.obligations.monthlyDebt = none ∨
    e.requestedAmount = none) :
    Confidence.SentToReview
      (assessLoanReview (executeLoanReview r (fun _ => e) markdown args)) := by
  have hwarnings : (executeLoanReview r (fun _ => e) markdown args).warnings ≠ [] := by
    unfold executeLoanReview
    rcases h with hmissing | hmissing | hmissing
    · simp [hmissing]
    · simp [hmissing]
    · simp [hmissing]
  exact (Confidence.sentToReview_iff _).mpr (Confidence.score_lt_of_check (.inr hwarnings))

/-- A recommendation rests on what was read exactly when the requested amount is missing, so that
confidence is low, or the monthly debt was read, or there is no income above zero. It does so
however the arithmetic is rounded. -/
theorem rests_on_read_iff (r : Arithmetic) (markdown : String) (args : LoanReviewArgs)
    (e : LoanExtraction) :
    RestsOnRead r.toRounding markdown args e ↔
      e.requestedAmount = none ∨ e.obligations.monthlyDebt ≠ none ∨
        ∀ monthly ∈ e.income.monthly, monthly.val ≤ 0 := by
  constructor
  · intro hrests
    by_contra hother
    simp only [not_or, not_not, not_forall, not_le] at hother
    obtain ⟨hrequested, hdebt, monthly, hmonthly, hpos⟩ := hother
    have hsame := hrests ?_ { e with obligations := ⟨some monthly⟩ }
      ⟨fun _ h => h, ?_, fun _ h => h, rfl⟩
    · rw [approved_of_no_debt r hmonthly hpos hdebt] at hsame
      exact not_approved_of_whole_debt (e := { e with obligations := ⟨some monthly⟩ }) r hmonthly
        hpos rfl hsame
    · rw [confidence_high_iff, hmonthly]
      exact ⟨rfl, Option.isSome_iff_ne_none.mpr hrequested⟩
    · rw [hdebt]
      intro _ h
      cases h
  · rintro hread hhigh e' hgiven
    obtain ⟨hincome, hrequested⟩ := confidence_high_iff.mp hhigh
    obtain ⟨monthly, hmonthly⟩ := Option.isSome_iff_exists.mp hincome
    have hmonthly' : e'.income.monthly = some monthly := hgiven.monthly monthly hmonthly
    rcases hread with hnone | hdebt | hle
    · rw [hnone] at hrequested
      cases hrequested
    · obtain ⟨debt, hread⟩ := Option.ne_none_iff_exists'.mp hdebt
      have hread' : e'.obligations.monthlyDebt = some debt := hgiven.debt debt hread
      unfold executeLoanReview
      simp only [hmonthly, hmonthly', hread, hread']
    · rw [recommendation_insufficient hle]
      apply recommendation_insufficient
      rw [hmonthly']
      rw [hmonthly] at hle
      exact hle

end Recommendation

/-- An application with an income and no debt on it. -/
def application : LoanExtraction where
  borrower := ⟨some "Ada Obi", none, none, some "employed", some "Acme"⟩
  requestedAmount := some (.ofInt 1000000 (by norm_num))
  currency := some "NGN"
  tenorMonths := some (.ofInt 12 (by norm_num))
  income := ⟨some (.ofInt 500000 (by norm_num))⟩
  obligations := ⟨none⟩
  riskFlags := []
  summary := "Applicant in stable employment."

/-- The arguments of a request that names a currency only. -/
def defaultArgs : LoanReviewArgs :=
  ⟨"NGN", ⟨nearest (2 / 5), isDouble_nearest (by decide +kernel)⟩, by decide +kernel,
    by decide +kernel⟩

/-- Without its debt of 400,000 the application is approved with high confidence. -/
theorem missing_debt_approved : ¬ ∀ (markdown : String) (args : LoanReviewArgs)
    (e : LoanExtraction), RestsOnRead .double markdown args e := by
  intro hall
  have hsame := hall "" defaultArgs application (by decide +kernel)
    { application with obligations := ⟨some (.ofInt 400000 (by norm_num))⟩ }
    ⟨fun _ h => h, fun _ h => (Option.not_mem_none _ h).elim, fun _ h => h, rfl⟩
  exact absurd hsame (by decide +kernel)

end HeirsOcr.LoanReview
