import HeirsOcr.Json
import HeirsOcr.Money
import HeirsOcr.ReceiptProjection

/-!
# Reconciliation of printed figures

Four functions check the figures a document shows against the totals it shows: a receipt, an
expense claim, a budget and a payslip. A check waits for its total and for one of the figures
that should add up to it, and counts the others as zero when they are missing. So a document
can fail a check that it would pass if a missing figure were filled in. Amounts are those whose
sums do not overflow.
-/
namespace HeirsOcr.Reconcile
open Doubles JsRecord Money ReceiptProjection

/-- A sum against the total it should come to: the two, when they disagree. -/
def mismatch (r : Rounding) (sum : ℚ) (total : Option ℚ) (epsilon : ℚ) : Option (ℚ × ℚ) :=
  total.bind fun total =>
    let expected : ℚ := toMinor r total
    if approxEqualMinor r sum expected epsilon then none else some (sum, expected)

/-- The lines that have an amount, against the total of the lines. -/
def linesMismatch (r : Rounding) (amounts : List (Option ℚ)) (total : Option ℚ) (epsilon : ℚ) :
    Option (ℚ × ℚ) :=
  let present := amounts.filter Option.isSome
  if present.length = 0 then none else mismatch r (sumMinor r present) total epsilon

/-- The parts of a total, when one of them is there. -/
def partsMismatch (r : Rounding) (parts : List (Option ℚ)) (total : Option ℚ) (epsilon : ℚ) :
    Option (ℚ × ℚ) :=
  if parts.any Option.isSome then mismatch r (sumMinor r parts) total epsilon else none

def verdictOf (mismatches : List (Option (ℚ × ℚ))) : Confidence :=
  if mismatches.any Option.isSome then .low else .high

def lineMismatch (r : Rounding) (result : ReceiptParsingResult) (epsilon : ℚ) : Option (ℚ × ℚ) :=
  linesMismatch r (result.lineItems.map LineItem.total) result.subtotal epsilon

def totalMismatch (r : Rounding) (result : ReceiptParsingResult) (epsilon : ℚ) : Option (ℚ × ℚ) :=
  partsMismatch r [result.subtotal, result.tax, result.tip] result.total epsilon

def reconcileTotals (r : Rounding) (intl : NumberFormat) (result : ReceiptParsingResult)
    (epsilon : ℚ) : ReceiptParsingResult :=
  let money := fun minor => formatMinor r intl minor result.currency
  let lines := lineMismatch r result epsilon
  let total := totalMismatch r result epsilon
  { result with
    confidence := verdictOf [lines, total]
    warnings := result.warnings ++
      lines.toList.map (fun m =>
        "Line items sum to " ++ money m.1 ++ " but subtotal is " ++ money m.2 ++ ".") ++
      total.toList.map (fun m =>
        "Subtotal + tax + tip = " ++ money m.1 ++ " but total is " ++ money m.2 ++ ".") }

structure Claimant where
  name : Option String
  employeeId : Option String
  department : Option String
  deriving DecidableEq, Repr

structure ExpenseLine where
  date : Option String
  category : Option String
  description : Option String
  amount : Option ℚ
  receiptAttached : Bool
  deriving DecidableEq, Repr

structure ExpenseClaimResult where
  claimant : Claimant
  title : Option String
  dateSubmitted : Option String
  currency : Option String
  lineItems : List ExpenseLine
  subtotal : Option ℚ
  tax : Option ℚ
  total : Option ℚ
  confidence : Confidence
  warnings : List String
  deriving DecidableEq, Repr

def reconcileExpenseClaim (r : Rounding) (intl : NumberFormat) (result : ExpenseClaimResult)
    (epsilon : ℚ) : ExpenseClaimResult :=
  let money := fun minor => formatMinor r intl minor result.currency
  let lines := linesMismatch r (result.lineItems.map ExpenseLine.amount) result.subtotal epsilon
  let total := partsMismatch r [result.subtotal, result.tax] result.total epsilon
  let missingReceipts := (result.lineItems.filter fun li => !li.receiptAttached).length
  { result with
    confidence := verdictOf [lines, total]
    warnings := result.warnings ++
      lines.toList.map (fun m =>
        "Line items sum to " ++ money m.1 ++ " but subtotal is " ++ money m.2 ++ ".") ++
      total.toList.map (fun m =>
        "Subtotal + tax = " ++ money m.1 ++ " but total is " ++ money m.2 ++ ".") ++
      if 0 < missingReceipts then
        [toString missingReceipts ++ " line item(s) have no attached receipt."]
      else [] }

structure BudgetLine where
  category : String
  description : Option String
  planned : Option ℚ
  actual : Option ℚ
  variance : Option ℚ
  deriving DecidableEq, Repr

structure BudgetTotals where
  planned : Option ℚ
  actual : Option ℚ
  variance : Option ℚ
  deriving DecidableEq, Repr

structure BudgetAnalysisResult where
  title : Option String
  period : Option String
  currency : Option String
  lineItems : List BudgetLine
  totals : BudgetTotals
  confidence : Confidence
  warnings : List String
  deriving DecidableEq, Repr

def reconcileBudget (r : Rounding) (intl : NumberFormat) (result : BudgetAnalysisResult)
    (epsilon : ℚ) : BudgetAnalysisResult :=
  let money := fun minor => formatMinor r intl minor result.currency
  let planned :=
    linesMismatch r (result.lineItems.map BudgetLine.planned) result.totals.planned epsilon
  let actual :=
    linesMismatch r (result.lineItems.map BudgetLine.actual) result.totals.actual epsilon
  let warning := fun (label : String) (m : ℚ × ℚ) =>
    label ++ " line items sum to " ++ money m.1 ++ " but total " ++ label ++ " is " ++ money m.2 ++
      "."
  { result with
    confidence := verdictOf [planned, actual]
    warnings := result.warnings ++ planned.toList.map (warning "planned") ++
      actual.toList.map (warning "actual") }

abbrev PayslipFields := Record (Json.Value ℚ)

structure Reconciliation where
  confidence : Confidence
  warnings : List String
  deriving DecidableEq, Repr

def num : Option (Json.Value ℚ) → Option ℚ
  | some (.number amount) => some amount
  | _ => none

def currencyOf (fields : PayslipFields) : Option String :=
  match JsRecord.get fields "currency" with
  | some (.string currency) => some currency
  | _ => none

def figure (fields : PayslipFields) (key : String) : Option ℚ := num (JsRecord.get fields key)

def grossMismatch (r : Rounding) (fields : PayslipFields) : Option (ℚ × ℚ) :=
  partsMismatch r [figure fields "basicSalary", figure fields "allowances"]
    (figure fields "grossPay") (EPSILON r)

/-- The net pay fits the gross pay with the deductions as a line beside tax and pension, or as
the total of all three. -/
def netMismatch (r : Rounding) (fields : PayslipFields) : Option (ℚ × ℚ) :=
  (figure fields "netPay").bind fun netPay =>
    (figure fields "grossPay").bind fun grossPay =>
      let gross : ℚ := toMinor r grossPay
      let net : ℚ := toMinor r netPay
      let itemised := r.round (gross - sumMinor r [figure fields "deductions", figure fields "tax",
        figure fields "pension"])
      let deductionsAsTotal := r.round (gross - sumMinor r [figure fields "deductions"])
      if approxEqualMinor r itemised net (EPSILON r) ||
          approxEqualMinor r deductionsAsTotal net (EPSILON r)
        then none else some (itemised, net)

def reconcilePayslip (r : Rounding) (intl : NumberFormat) (fields : PayslipFields) :
    Reconciliation :=
  let money := fun minor => formatMinor r intl minor (currencyOf fields)
  { confidence := verdictOf [grossMismatch r fields, netMismatch r fields]
    warnings :=
      (grossMismatch r fields).toList.map (fun m =>
        "Basic + allowances = " ++ money m.1 ++ " but gross pay is " ++ money m.2 ++ ".") ++
      (netMismatch r fields).toList.map (fun m =>
        "Gross − deductions − tax − pension = " ++ money m.1 ++ " but net pay is " ++
          money m.2 ++ ".") }

/-- Two sums in minor units agree: they are two units apart at most, or two hundredths of the
second. -/
def Agree (r : Rounding) (a b : ℚ) : Prop :=
  |r.round (a - b)| ≤ max 2 (r.round (r.round (2 / 100) * |b|))

/-- What a document should satisfy: the figures it is about, which of them must have been read for
a comparison, and what the comparison asks. -/
structure Identity (α : Type) where
  components : α → List (Option ℚ)
  totals : α → List (Option ℚ)
  checked : α → Prop
  fits : α → Prop

/-- Nothing to compare, or an agreement. -/
def Identity.Satisfied {α : Type} (identity : Identity α) (e : α) : Prop :=
  identity.checked e → identity.fits e

/-- Figures add up to a total. -/
def sumIdentity {α : Type} (r : Rounding) (figures : α → List (Option ℚ)) (total : α → Option ℚ) :
    Identity α where
  components := figures
  totals := fun e => [total e]
  checked := fun e => (∃ figure ∈ figures e, figure.isSome) ∧ (total e).isSome
  fits := fun e => ∀ amount ∈ total e, Agree r (sumMinor r (figures e)) (toMinor r amount)

/-- What the gross pay leaves is the net pay. -/
def netIdentity (r : Rounding) : Identity PayslipFields where
  components := fun fields =>
    [figure fields "deductions", figure fields "tax", figure fields "pension"]
  totals := fun fields => [figure fields "grossPay", figure fields "netPay"]
  checked := fun fields => (figure fields "grossPay").isSome ∧ (figure fields "netPay").isSome
  fits := fun fields => ∀ gross ∈ figure fields "grossPay", ∀ net ∈ figure fields "netPay",
    Agree r (r.round (toMinor r gross - sumMinor r [figure fields "deductions", figure fields "tax",
      figure fields "pension"])) (toMinor r net) ∨
    Agree r (r.round (toMinor r gross - sumMinor r [figure fields "deductions"])) (toMinor r net)

/-- A function that judges documents, and what it judges them by. -/
structure Reconciler (α : Type) where
  verdict : α → Confidence
  identities : List (Identity α)

def receipts (r : Rounding) (intl : NumberFormat) : Reconciler ReceiptParsingResult where
  verdict := fun result => (reconcileTotals r intl result (EPSILON r)).confidence
  identities := [
    sumIdentity r (fun result => result.lineItems.map LineItem.total) fun result => result.subtotal,
    sumIdentity r (fun result => [result.subtotal, result.tax, result.tip])
      fun result => result.total]

def expenseClaims (r : Rounding) (intl : NumberFormat) : Reconciler ExpenseClaimResult where
  verdict := fun result => (reconcileExpenseClaim r intl result (EPSILON r)).confidence
  identities := [
    sumIdentity r (fun result => result.lineItems.map ExpenseLine.amount)
      fun result => result.subtotal,
    sumIdentity r (fun result => [result.subtotal, result.tax]) fun result => result.total]

def budgets (r : Rounding) (intl : NumberFormat) : Reconciler BudgetAnalysisResult where
  verdict := fun result => (reconcileBudget r intl result (EPSILON r)).confidence
  identities := [
    sumIdentity r (fun result => result.lineItems.map BudgetLine.planned)
      fun result => result.totals.planned,
    sumIdentity r (fun result => result.lineItems.map BudgetLine.actual)
      fun result => result.totals.actual]

def payslips (r : Rounding) (intl : NumberFormat) : Reconciler PayslipFields where
  verdict := fun fields => (reconcilePayslip r intl fields).confidence
  identities := [
    sumIdentity r (fun fields => [figure fields "basicSalary", figure fields "allowances"])
      fun fields => figure fields "grossPay",
    netIdentity r]

/-- A missing figure gets an amount, and one that was read keeps its own. -/
def Fills (old new : Option ℚ) : Prop := new.isSome ∧ ∀ amount ∈ old, new = some amount

/-- A missing figure gets zero. -/
def ZeroFills (old new : Option ℚ) : Prop := new = some (old.getD 0)

section Law

variable {α : Type}

/-- Each figure of the one document fills that of the other. -/
def Filled (reconciler : Reconciler α) (fill : Option ℚ → Option ℚ → Prop) (e e' : α) : Prop :=
  ∀ identity ∈ reconciler.identities,
    List.Forall₂ fill (identity.components e) (identity.components e') ∧
      List.Forall₂ fill (identity.totals e) (identity.totals e')

/-- A low verdict stands whatever amounts the missing figures have. -/
def NoFalseAlarm (reconciler : Reconciler α) : Prop :=
  ∀ e, reconciler.verdict e = .low → ¬ ∃ e', Filled reconciler Fills e e' ∧
    ∀ identity ∈ reconciler.identities, identity.Satisfied e'

/-- The verdict is low exactly when there is a comparison that fails whatever amounts the missing
figures have, as long as its own missing components are zero. -/
def AlarmsOnZeros (reconciler : Reconciler α) : Prop :=
  ∀ e, reconciler.verdict e = .low ↔
    ∃ identity ∈ reconciler.identities, identity.checked e ∧
      ∀ e', Filled reconciler Fills e e' →
        List.Forall₂ ZeroFills (identity.components e) (identity.components e') →
          ¬ identity.Satisfied e'

/-- Zeros for the missing components are what an identity is checked with. -/
def CountsZeros (identity : Identity α) : Prop :=
  ∀ e e', identity.checked e → List.Forall₂ Fills (identity.totals e) (identity.totals e') →
    List.Forall₂ ZeroFills (identity.components e) (identity.components e') →
      (identity.Satisfied e' ↔ identity.fits e)

theorem ZeroFills.fills {old new : Option ℚ} (h : ZeroFills old new) : Fills old new := by
  refine ⟨by rw [h]; rfl, fun amount hread => ?_⟩
  rw [h, hread, Option.getD_some]

theorem Fills.eq_of_isSome {old new : Option ℚ} (h : Fills old new) (hread : old.isSome) :
    new = old := by
  obtain ⟨amount, rfl⟩ := Option.isSome_iff_exists.mp hread
  exact h.2 amount rfl

theorem eq_map_of_zeroFills {figures figures' : List (Option ℚ)}
    (h : List.Forall₂ ZeroFills figures figures') :
    figures' = figures.map fun figure => some (figure.getD 0) := by
  induction h with
  | nil => rfl
  | cons hfill _ ih => rw [hfill, ih, List.map_cons]

/-- The law of a reconciler from that of its identities. -/
theorem alarmsOnZeros_of_countsZeros {reconciler : Reconciler α}
    (hverdict : ∀ e, reconciler.verdict e = .low ↔
      ∃ identity ∈ reconciler.identities, identity.checked e ∧ ¬ identity.fits e)
    (hcounts : ∀ identity ∈ reconciler.identities, CountsZeros identity)
    (hzeros : ∀ e, ∃ e', Filled reconciler ZeroFills e e') : AlarmsOnZeros reconciler := by
  intro e
  rw [hverdict]
  constructor
  · rintro ⟨identity, hmem, hchecked, hfails⟩
    refine ⟨identity, hmem, hchecked, fun e' hfilled hzero hsatisfied => hfails ?_⟩
    exact (hcounts identity hmem e e' hchecked (hfilled identity hmem).2 hzero).mp hsatisfied
  · rintro ⟨identity, hmem, hchecked, hfails⟩
    refine ⟨identity, hmem, hchecked, fun hfits => ?_⟩
    obtain ⟨e', hzero⟩ := hzeros e
    have hfilled : Filled reconciler Fills e e' := fun identity hmem =>
      ⟨(hzero identity hmem).1.imp fun _ _ => ZeroFills.fills,
        (hzero identity hmem).2.imp fun _ _ => ZeroFills.fills⟩
    obtain ⟨hcomponents, htotals⟩ := hzero identity hmem
    exact hfails e' hfilled hcomponents
      ((hcounts identity hmem e e' hchecked (hfilled identity hmem).2 hcomponents).mpr hfits)

variable {r : Arithmetic}

theorem approxEqualMinor_iff {a b : ℚ} :
    approxEqualMinor r.toRounding a b (EPSILON r.toRounding) = true ↔ Agree r.toRounding a b := by
  rw [approxEqualMinor, toMinor_epsilon, decide_eq_true_iff]
  rfl

theorem countsZeros_sum (figures : α → List (Option ℚ)) (total : α → Option ℚ) :
    CountsZeros (sumIdentity r.toRounding figures total) := by
  rintro e e' ⟨⟨figure, hmem, -⟩, hread⟩ htotals hzeros
  have htotal : total e' = total e := by
    cases htotals with
    | cons hfills _ => exact hfills.eq_of_isSome hread
  have hfigures := eq_map_of_zeroFills hzeros
  dsimp only [sumIdentity] at hfigures
  have hchecked : (sumIdentity r.toRounding figures total).checked e' := by
    refine ⟨⟨some (figure.getD 0), ?_, rfl⟩, by rwa [htotal]⟩
    rw [hfigures]
    exact List.mem_map_of_mem hmem
  rw [Identity.Satisfied, imp_iff_right hchecked]
  dsimp only [sumIdentity]
  rw [htotal, hfigures, sumMinor_getD]

theorem countsZeros_net : CountsZeros (netIdentity r.toRounding) := by
  rintro fields fields' ⟨hgross, hnet⟩ htotals hzeros
  obtain ⟨hgross', hnet'⟩ : figure fields' "grossPay" = figure fields "grossPay" ∧
      figure fields' "netPay" = figure fields "netPay" := by
    cases htotals with
    | cons hfirst hrest =>
      cases hrest with
      | cons hsecond _ => exact ⟨hfirst.eq_of_isSome hgross, hsecond.eq_of_isSome hnet⟩
  have hfigures := eq_map_of_zeroFills hzeros
  dsimp only [netIdentity] at hfigures
  have hdeductions : figure fields' "deductions" = some ((figure fields "deductions").getD 0) :=
    (List.cons.inj hfigures).1
  have hitemised : sumMinor r.toRounding [figure fields' "deductions", figure fields' "tax",
      figure fields' "pension"] = sumMinor r.toRounding [figure fields "deductions",
        figure fields "tax", figure fields "pension"] := by
    rw [hfigures, sumMinor_getD]
  have htotal : sumMinor r.toRounding [figure fields' "deductions"] =
      sumMinor r.toRounding [figure fields "deductions"] := by
    rw [hdeductions, ← sumMinor_getD [figure fields "deductions"]]
    rfl
  have hchecked : (netIdentity r.toRounding).checked fields' := by
    dsimp only [netIdentity]
    rw [hgross', hnet']
    exact ⟨hgross, hnet⟩
  rw [Identity.Satisfied, imp_iff_right hchecked]
  dsimp only [netIdentity]
  rw [hgross', hnet', hitemised, htotal]

/-- A comparison of a sum with a total that was read fails when the two disagree. -/
theorem mismatch_isSome {sum : ℚ} {total : Option ℚ} :
    (mismatch r.toRounding sum total (EPSILON r.toRounding)).isSome ↔
      total.isSome ∧ ¬ ∀ amount ∈ total, Agree r.toRounding sum (toMinor r.toRounding amount) := by
  cases total with
  | none => simp [mismatch]
  | some amount =>
    simp only [mismatch, Option.bind_some, Option.isSome_some, true_and, Option.mem_def,
      Option.some.injEq, forall_eq']
    rw [← approxEqualMinor_iff]
    cases approxEqualMinor r.toRounding sum (toMinor r.toRounding amount) (EPSILON r.toRounding)
    · simp
    · simp

theorem linesMismatch_isSome (figures : α → List (Option ℚ)) (total : α → Option ℚ) (e : α) :
    (linesMismatch r.toRounding (figures e) (total e) (EPSILON r.toRounding)).isSome ↔
      (sumIdentity r.toRounding figures total).checked e ∧
        ¬ (sumIdentity r.toRounding figures total).fits e := by
  have hnone : ((figures e).filter Option.isSome).length = 0 ↔
      ¬ ∃ figure ∈ figures e, figure.isSome := by
    simp [List.filter_eq_nil_iff]
  dsimp only [linesMismatch, sumIdentity]
  rw [sumMinor_filter]
  by_cases h : ∃ figure ∈ figures e, figure.isSome
  · rw [if_neg fun hzero => hnone.mp hzero h, mismatch_isSome, and_iff_right h]
  · rw [if_pos (hnone.mpr h), and_assoc]
    exact iff_of_false (by simp) fun hread => h hread.1

theorem partsMismatch_isSome (figures : α → List (Option ℚ)) (total : α → Option ℚ) (e : α) :
    (partsMismatch r.toRounding (figures e) (total e) (EPSILON r.toRounding)).isSome ↔
      (sumIdentity r.toRounding figures total).checked e ∧
        ¬ (sumIdentity r.toRounding figures total).fits e := by
  have hany : (figures e).any Option.isSome = true ↔ ∃ figure ∈ figures e, figure.isSome :=
    List.any_eq_true
  dsimp only [partsMismatch, sumIdentity]
  by_cases h : ∃ figure ∈ figures e, figure.isSome
  · rw [if_pos (hany.mpr h), mismatch_isSome, and_iff_right h]
  · rw [if_neg fun hsome => h (hany.mp hsome), and_assoc]
    exact iff_of_false (by simp) fun hread => h hread.1

/-- The net pay is compared when it and the gross pay were read. -/
theorem netMismatch_isSome (fields : PayslipFields) : (netMismatch r.toRounding fields).isSome ↔
    (netIdentity r.toRounding).checked fields ∧ ¬ (netIdentity r.toRounding).fits fields := by
  dsimp only [netMismatch, netIdentity]
  cases figure fields "netPay" with
  | none => simp
  | some net =>
    cases figure fields "grossPay" with
    | none => simp
    | some gross =>
      simp only [Option.bind_some, Option.isSome_some, true_and, Option.mem_def,
        Option.some.injEq, forall_eq', not_or, ← approxEqualMinor_iff]
      split_ifs with hfits
      · simpa using fun hitemised => by simpa [hitemised] using hfits
      · simpa [not_or] using hfits

/-- Of two checks, each of which fails as its identity does, one makes the verdict low. -/
theorem verdictOf_eq_low {first second : Option (ℚ × ℚ)} {p q : Identity α} {e : α}
    (hfirst : first.isSome ↔ p.checked e ∧ ¬ p.fits e)
    (hsecond : second.isSome ↔ q.checked e ∧ ¬ q.fits e) :
    verdictOf [first, second] = .low ↔
      ∃ identity ∈ [p, q], identity.checked e ∧ ¬ identity.fits e := by
  simp only [List.mem_cons, List.not_mem_nil, or_false, exists_eq_or_imp, exists_eq_left, verdictOf,
    List.any_cons, List.any_nil, Bool.or_false, ← hfirst, ← hsecond]
  cases first.isSome
  · cases second.isSome <;> simp
  · simp

theorem forall_mem_pair {β : Type*} {P : β → Prop} {first second : β} :
    (∀ x ∈ [first, second], P x) ↔ P first ∧ P second := by
  simp

theorem zeroFills_map {γ : Type*} (items : List γ) (figureOf : γ → Option ℚ) (zeroed : γ → γ)
    (h : ∀ item, figureOf (zeroed item) = some ((figureOf item).getD 0)) :
    List.Forall₂ ZeroFills (items.map figureOf) ((items.map zeroed).map figureOf) := by
  induction items with
  | nil => exact .nil
  | cons item items ih => exact .cons (h item) ih

end Law

section Reconcilers

variable {r : Arithmetic} {intl : NumberFormat}

/-- The law of a reconciler that compares two sums with their totals. -/
theorem alarmsOnZeros_of_sums {α : Type} {reconciler : Reconciler α}
    {lines parts : α → List (Option ℚ)} {subtotal total : α → Option ℚ} (zeroed : α → α)
    (hidentities : reconciler.identities =
      [sumIdentity r.toRounding lines subtotal, sumIdentity r.toRounding parts total])
    (hverdict : ∀ e, reconciler.verdict e = .low ↔
      ∃ identity ∈ reconciler.identities, identity.checked e ∧ ¬ identity.fits e)
    (hlines : ∀ e, List.Forall₂ ZeroFills (lines e) (lines (zeroed e)))
    (hsubtotal : ∀ e, ZeroFills (subtotal e) (subtotal (zeroed e)))
    (hparts : ∀ e, List.Forall₂ ZeroFills (parts e) (parts (zeroed e)))
    (htotal : ∀ e, ZeroFills (total e) (total (zeroed e))) : AlarmsOnZeros reconciler := by
  refine alarmsOnZeros_of_countsZeros hverdict ?_ fun e => ⟨zeroed e, ?_⟩
  · rw [hidentities]
    exact forall_mem_pair.mpr ⟨countsZeros_sum _ _, countsZeros_sum _ _⟩
  · rw [Filled, hidentities]
    exact forall_mem_pair.mpr ⟨⟨hlines e, .cons (hsubtotal e) .nil⟩,
      hparts e, .cons (htotal e) .nil⟩

theorem low_iff_receipts (result : ReceiptParsingResult) :
    (receipts r.toRounding intl).verdict result = .low ↔
      ∃ identity ∈ (receipts r.toRounding intl).identities,
        identity.checked result ∧ ¬ identity.fits result := by
  refine verdictOf_eq_low ?_ ?_
  · exact linesMismatch_isSome (fun e => e.lineItems.map LineItem.total)
      (fun e => e.subtotal) result
  · exact partsMismatch_isSome (fun e => [e.subtotal, e.tax, e.tip]) (fun e => e.total) result

theorem alarmsOnZeros_receipts : AlarmsOnZeros (receipts r.toRounding intl) := by
  let zeroed (result : ReceiptParsingResult) : ReceiptParsingResult :=
    { result with
      lineItems := result.lineItems.map fun item => { item with total := some (item.total.getD 0) }
      subtotal := some (result.subtotal.getD 0)
      tax := some (result.tax.getD 0)
      tip := some (result.tip.getD 0)
      total := some (result.total.getD 0) }
  refine alarmsOnZeros_of_sums zeroed rfl low_iff_receipts ?_ (fun _ => rfl) ?_ fun _ => rfl
  · exact fun _ => zeroFills_map _ _ _ fun _ => rfl
  · exact fun _ => .cons rfl (.cons rfl (.cons rfl .nil))

theorem alarmsOnZeros_expenseClaims : AlarmsOnZeros (expenseClaims r.toRounding intl) := by
  let zeroed (result : ExpenseClaimResult) : ExpenseClaimResult :=
    { result with
      lineItems := result.lineItems.map fun item =>
        { item with amount := some (item.amount.getD 0) }
      subtotal := some (result.subtotal.getD 0)
      tax := some (result.tax.getD 0)
      total := some (result.total.getD 0) }
  refine alarmsOnZeros_of_sums zeroed rfl (fun result => verdictOf_eq_low ?_ ?_) ?_
    (fun _ => rfl) ?_ fun _ => rfl
  · exact linesMismatch_isSome (fun e => e.lineItems.map ExpenseLine.amount)
      (fun e => e.subtotal) result
  · exact partsMismatch_isSome (fun e => [e.subtotal, e.tax]) (fun e => e.total) result
  · exact fun _ => zeroFills_map _ _ _ fun _ => rfl
  · exact fun _ => .cons rfl (.cons rfl .nil)

theorem alarmsOnZeros_budgets : AlarmsOnZeros (budgets r.toRounding intl) := by
  let zeroed (result : BudgetAnalysisResult) : BudgetAnalysisResult :=
    { result with
      lineItems := result.lineItems.map fun item =>
        { item with planned := some (item.planned.getD 0), actual := some (item.actual.getD 0) }
      totals :=
        { result.totals with
          planned := some (result.totals.planned.getD 0)
          actual := some (result.totals.actual.getD 0) } }
  refine alarmsOnZeros_of_sums zeroed rfl (fun result => verdictOf_eq_low ?_ ?_) ?_
    (fun _ => rfl) ?_ fun _ => rfl
  · exact linesMismatch_isSome (fun e => e.lineItems.map BudgetLine.planned)
      (fun e => e.totals.planned) result
  · exact linesMismatch_isSome (fun e => e.lineItems.map BudgetLine.actual)
      (fun e => e.totals.actual) result
  · exact fun _ => zeroFills_map _ _ _ fun _ => rfl
  · exact fun _ => zeroFills_map _ _ _ fun _ => rfl

/-- The fields of a payslip that are read as amounts. -/
def FIGURES : List String :=
  ["basicSalary", "allowances", "grossPay", "netPay", "deductions", "tax", "pension"]

/-- Zeros for the figures that are missing. -/
def zeroFilled (fields : PayslipFields) : PayslipFields :=
  (FIGURES.map fun key => (key, Json.Value.number ((figure fields key).getD 0))).foldl
    (fun o entry => JsRecord.set o entry.1 entry.2) fields

theorem figure_zeroFilled (fields : PayslipFields) {key : String} (h : key ∈ FIGURES) :
    ZeroFills (figure fields key) (figure (zeroFilled fields) key) := by
  rw [ZeroFills, zeroFilled, figure, get_foldl_set]
  simp only [FIGURES, List.mem_cons, List.not_mem_nil, or_false] at h
  rcases h with rfl | rfl | rfl | rfl | rfl | rfl | rfl
  all_goals rfl

theorem alarmsOnZeros_payslips : AlarmsOnZeros (payslips r.toRounding intl) := by
  refine alarmsOnZeros_of_countsZeros (fun fields => verdictOf_eq_low ?_ ?_) ?_ fun fields => ?_
  · exact partsMismatch_isSome (fun e => [figure e "basicSalary", figure e "allowances"])
      (fun e => figure e "grossPay") fields
  · exact netMismatch_isSome fields
  · exact forall_mem_pair.mpr ⟨countsZeros_sum _ _, countsZeros_net⟩
  · have hzero {key : String} (hkey : key ∈ FIGURES) := figure_zeroFilled fields hkey
    refine ⟨zeroFilled fields, forall_mem_pair.mpr ⟨⟨?_, ?_⟩, ?_, ?_⟩⟩
    · exact .cons (hzero (by decide)) (.cons (hzero (by decide)) .nil)
    · exact .cons (hzero (by decide)) .nil
    · exact .cons (hzero (by decide)) (.cons (hzero (by decide)) (.cons (hzero (by decide)) .nil))
    · exact .cons (hzero (by decide)) (.cons (hzero (by decide)) .nil)

end Reconcilers

/-- Each reconciler alarms on what it read, with zeros for the components that are missing, however
the arithmetic is rounded: its verdict is low exactly when an identity is checked that no amounts
for the missing figures satisfy, other than amounts for its own missing components. -/
theorem alarms_on_zeros (r : Arithmetic) (intl : NumberFormat) :
    AlarmsOnZeros (receipts r.toRounding intl) ∧ AlarmsOnZeros (expenseClaims r.toRounding intl) ∧
      AlarmsOnZeros (budgets r.toRounding intl) ∧ AlarmsOnZeros (payslips r.toRounding intl) :=
  ⟨alarmsOnZeros_receipts, alarmsOnZeros_expenseClaims, alarmsOnZeros_budgets,
    alarmsOnZeros_payslips⟩

/-- Exact sums of minor units are compared with the total's own, within two units or two
hundredths. -/
theorem fits_exact {α : Type} (figures : α → List (Option ℚ)) (total : α → Option ℚ) (e : α) :
    (sumIdentity .exact figures total).fits e ↔
      ∀ amount ∈ total e,
        |((figures e).map (minorOrZero .exact)).sum - (round (amount * 100) : ℤ)| ≤
          max 2 (2 / 100 * |((round (amount * 100) : ℤ) : ℚ)|) := by
  dsimp only [sumIdentity]
  rw [sumMinor_exact]
  rfl

/-- 1000 before tax, no tax, no tip to be read and a total of 9999: low, and a tip of 8999 would
make it high. -/
def untipped : ReceiptParsingResult where
  merchant := ⟨some "Shop", none, none⟩
  dateTime := none
  currency := some "NGN"
  lineItems := [⟨"item", some 1, some 1000, some 1000⟩]
  subtotal := some 1000
  tax := some 0
  tip := none
  total := some 9999
  paymentMethod := some "CASH"
  confidence := .high
  warnings := []

theorem missing_tip_alarms : ¬ ∀ intl : NumberFormat,
    NoFalseAlarm (receipts .double intl) ∧ NoFalseAlarm (expenseClaims .double intl) ∧
      NoFalseAlarm (budgets .double intl) ∧ NoFalseAlarm (payslips .double intl) := by
  intro hall
  let intl : NumberFormat := ⟨fun _ _ => none, fun _ => ""⟩
  let tipped : ReceiptParsingResult := { untipped with tip := some 8999 }
  refine (hall intl).1 untipped (by decide +kernel) ⟨tipped, ?_, fun identity hmem => ?_⟩
  · have hread {figure : Option ℚ} (h : figure.isSome) : Fills figure figure := ⟨h, fun _ h => h⟩
    have htip : Fills none (some 8999) := ⟨rfl, fun _ h => by cases h⟩
    refine forall_mem_pair.mpr ⟨⟨.cons (hread rfl) .nil, .cons (hread rfl) .nil⟩, ?_,
      .cons (hread rfl) .nil⟩
    exact .cons (hread rfl) (.cons (hread rfl) (.cons htip .nil))
  · have hhigh : (receipts Arithmetic.double.toRounding intl).verdict tipped ≠ .low := by
      decide +kernel
    intro hchecked
    by_contra hfits
    exact hhigh ((low_iff_receipts _).mpr ⟨identity, hmem, hchecked, hfits⟩)

end HeirsOcr.Reconcile
