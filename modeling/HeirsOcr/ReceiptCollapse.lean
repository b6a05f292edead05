import HeirsOcr.Reconciliation

/-!
# A receipt as one line

A caller that wants a receipt as one expense gets one line that carries the subtotal: the one
that is printed, the sum of the lines that have an amount, or what the total leaves. The line is
made of a receipt that is reconciled already, and a receipt without a subtotal may have passed
with lines that do not add up to its total.
-/
namespace HeirsOcr.ReceiptCollapse
open Doubles Money ReceiptProjection Reconcile

/-- The sum of the lines that have an amount. -/
def pricedSum (r : Rounding) (result : ReceiptParsingResult) : ℚ :=
  (result.lineItems.filter fun li => li.total.isSome).foldl
    (fun acc li => r.round (acc + li.total.getD 0)) 0

/-- The amount the synthesized line should carry. -/
def subtotalAmount (r : Rounding) (result : ReceiptParsingResult) : Option ℚ :=
  match result.subtotal with
  | some subtotal => some subtotal
  | none =>
    if 0 < (result.lineItems.filter fun li => li.total.isSome).length then
      some (pricedSum r result)
    else
      result.total.map fun total =>
        r.round (r.round (total - result.tax.getD 0) - result.tip.getD 0)

def describeReceipt (result : ReceiptParsingResult) : String :=
  let trimmed := result.merchant.name.map fun name => String.ofList (JsText.trim name.toList)
  let merchant := trimmed.filter fun name => name ≠ ""
  let count := result.lineItems.length
  if count = 0 then merchant.getD "Receipt"
  else
    match merchant with
    | some name => name ++ " (" ++ toString count ++ " items)"
    | none => toString count ++ " items"

def collapseToSingleLineItem (r : Rounding) (result : ReceiptParsingResult) :
    ReceiptParsingResult :=
  if result.lineItems.length = 1 then result
  else
    match subtotalAmount r result with
    | none => { result with lineItems := [] }
    | some amount =>
      { result with lineItems := [⟨describeReceipt result, some 1, some amount, some amount⟩] }

/-- The receipt as one line, once it is reconciled. -/
def collapsed (r : Rounding) (intl : NumberFormat) (result : ReceiptParsingResult) :
    ReceiptParsingResult :=
  collapseToSingleLineItem r (reconcileTotals r intl result (EPSILON r))

/-- An amount adds up to a total with the tax and the tip. -/
def AddsUp (r : Rounding) (result : ReceiptParsingResult) (total : ℚ) (amount : Option ℚ) : Prop :=
  approxEqualMinor r (sumMinor r [amount, result.tax, result.tip]) (toMinor r total) (EPSILON r) =
    true

/-- What collapsing the reconciled receipt leaves, beside a printed total. -/
structure Faithful (r : Rounding) (intl : NumberFormat) (result : ReceiptParsingResult)
    (total : ℚ) : Prop where
  oneLine : (collapsed r intl result).lineItems.length ≤ 1
  addsUp : ∀ line ∈ (collapsed r intl result).lineItems, AddsUp r result total line.total
  rest : collapsed r intl result =
    { reconcileTotals r intl result (EPSILON r) with
      lineItems := (collapsed r intl result).lineItems }
  high : (reconcileTotals r intl (collapsed r intl result) (EPSILON r)).confidence = .high

/-- The subtotal is printed, or no line has an amount, or those that have one add up to the total
with the tax and the tip. -/
def LinesCover (r : Rounding) (result : ReceiptParsingResult) (total : ℚ) : Prop :=
  result.subtotal.isSome ∨ (∀ line ∈ result.lineItems, line.total = none) ∨
    AddsUp r result total (some (pricedSum r result))

instance (r : Rounding) (result : ReceiptParsingResult) (total : ℚ) (amount : Option ℚ) :
    Decidable (AddsUp r result total amount) :=
  inferInstanceAs (Decidable (_ = true))

instance (r : Rounding) (result : ReceiptParsingResult) (total : ℚ) :
    Decidable (LinesCover r result total) :=
  inferInstanceAs (Decidable (_ ∨ _ ∨ _))

section Collapse

variable {intl : NumberFormat} {result : ReceiptParsingResult} {total : ℚ}

theorem high_iff {r : Rounding} : (reconcileTotals r intl result (EPSILON r)).confidence = .high ↔
    (lineMismatch r result (EPSILON r)).isSome = false ∧
      (totalMismatch r result (EPSILON r)).isSome = false := by
  simp only [reconcileTotals, verdictOf, List.any_cons, List.any_nil, Bool.or_false]
  cases (lineMismatch r result (EPSILON r)).isSome
  · cases (totalMismatch r result (EPSILON r)).isSome <;> simp
  · simp

theorem collapse_eq {r : Rounding} {amount : ℚ} (hlines : result.lineItems.length ≠ 1)
    (hamount : subtotalAmount r result = some amount) :
    collapsed r intl result =
      { reconcileTotals r intl result (EPSILON r) with
        lineItems := [⟨describeReceipt result, some 1, some amount, some amount⟩] } := by
  have hlines' : (reconcileTotals r intl result (EPSILON r)).lineItems.length ≠ 1 := hlines
  have hamount' : subtotalAmount r (reconcileTotals r intl result (EPSILON r)) = some amount :=
    hamount
  rw [collapsed, collapseToSingleLineItem, if_neg hlines', hamount']
  rfl

/-- A printed total leaves an amount for the line. -/
theorem exists_subtotalAmount (r : Rounding) (htotal : result.total = some total) :
    ∃ amount, subtotalAmount r result = some amount := by
  rw [subtotalAmount, htotal]
  cases result.subtotal with
  | some subtotal => exact ⟨subtotal, rfl⟩
  | none =>
    dsimp only
    split_ifs
    · exact ⟨_, rfl⟩
    · exact ⟨_, rfl⟩

theorem addsUp_iff_agree {r : Arithmetic} {amount : Option ℚ} :
    AddsUp r.toRounding result total amount ↔
      Agree r.toRounding (sumMinor r.toRounding [amount, result.tax, result.tip])
        (toMinor r.toRounding total) :=
  approxEqualMinor_iff

/-- One line that carries the subtotal agrees with it. -/
theorem linesMismatch_singleton {amount : ℚ} {subtotal : Option ℚ}
    (h : ∀ printed ∈ subtotal, printed = amount) :
    (linesMismatch .exact [some amount] subtotal (EPSILON .exact)).isSome = false := by
  rw [← Bool.not_eq_true]
  intro hmismatch
  obtain ⟨-, hdiffers⟩ := (linesMismatch_isSome (r := .exact) (fun _ : Unit => [some amount])
    (fun _ => subtotal) ()).mp hmismatch
  refine hdiffers fun printed hprinted => ?_
  have hsum : sumMinor .exact [some amount] = toMinor .exact amount := by
    simp [sumMinor_exact, minorOrZero]
  dsimp only [sumIdentity]
  rw [h printed hprinted, ← approxEqualMinor_iff]
  exact hsum ▸ approxEqualMinor_self _

/-- The collapsed receipt passes the checks that its receipt passes. -/
theorem high_collapse {amount : ℚ}
    (hhigh : (reconcileTotals .exact intl result (EPSILON .exact)).confidence = .high)
    (hlines : result.lineItems.length ≠ 1) (hamount : subtotalAmount .exact result = some amount) :
    (reconcileTotals .exact intl (collapsed .exact intl result) (EPSILON .exact)).confidence =
      .high := by
  rw [collapse_eq hlines hamount, high_iff]
  refine ⟨linesMismatch_singleton fun subtotal hsubtotal => ?_, (high_iff.mp hhigh).2⟩
  have hprinted : result.subtotal = some subtotal := hsubtotal
  rw [subtotalAmount, hprinted] at hamount
  exact Option.some.inj hamount

/-- With the subtotal printed, the line is the subtotal, which the verdict is about. -/
theorem addsUp_subtotal {r : Arithmetic} {subtotal : ℚ}
    (hhigh : (reconcileTotals r.toRounding intl result (EPSILON r.toRounding)).confidence = .high)
    (htotal : result.total = some total) (hsubtotal : result.subtotal = some subtotal) :
    AddsUp r.toRounding result total (some subtotal) := by
  by_contra hdiffers
  have hmismatch : (totalMismatch r.toRounding result (EPSILON r.toRounding)).isSome := by
    refine (partsMismatch_isSome (fun e : ReceiptParsingResult => [e.subtotal, e.tax, e.tip])
      (fun e => e.total) result).mpr ⟨⟨⟨some subtotal, ?_, rfl⟩, ?_⟩, fun hfits => ?_⟩
    · simp [hsubtotal]
    · simp [htotal]
    · have hagree := hfits total htotal
      dsimp only [sumIdentity] at hagree
      rw [hsubtotal] at hagree
      exact hdiffers (addsUp_iff_agree.mpr hagree)
  rw [(high_iff.mp hhigh).2] at hmismatch
  cases hmismatch

/-- The line that takes what the total leaves adds up to it but for the rounding to minor units. -/
theorem addsUp_rest : AddsUp .exact result total
    (some (total - result.tax.getD 0 - result.tip.getD 0)) := by
  have hround := abs_toMinor_add_le (total - result.tax.getD 0 - result.tip.getD 0)
    (result.tax.getD 0) (result.tip.getD 0)
  have hsum : total - result.tax.getD 0 - result.tip.getD 0 + result.tax.getD 0 +
      result.tip.getD 0 = total := by ring
  have hminor (figure : Option ℚ) :
      minorOrZero .exact figure = toMinor .exact (figure.getD 0) :=
    (minorOrZero_getD (r := .exact) figure).symm
  have hsums : sumMinor .exact [some (total - result.tax.getD 0 - result.tip.getD 0), result.tax,
      result.tip] = toMinor .exact (total - result.tax.getD 0 - result.tip.getD 0) +
        toMinor .exact (result.tax.getD 0) + toMinor .exact (result.tip.getD 0) := by
    simp [sumMinor_exact, hminor, add_assoc]
  rw [hsum, ← hsums] at hround
  exact approxEqualMinor_of_abs_le (r := .exact) hround

theorem addsUp_iff {amount : ℚ}
    (hhigh : (reconcileTotals .exact intl result (EPSILON .exact)).confidence = .high)
    (htotal : result.total = some total) (hamount : subtotalAmount .exact result = some amount) :
    AddsUp .exact result total (some amount) ↔ LinesCover .exact result total := by
  cases hsubtotal : result.subtotal with
  | some subtotal =>
    rw [subtotalAmount, hsubtotal] at hamount
    obtain rfl := Option.some.inj hamount
    exact iff_of_true (addsUp_subtotal (r := .exact) hhigh htotal hsubtotal)
      (.inl (by simp [hsubtotal]))
  | none =>
    rw [subtotalAmount, hsubtotal, htotal] at hamount
    have hpriced : 0 < (result.lineItems.filter fun li => li.total.isSome).length ↔
        ¬ ∀ line ∈ result.lineItems, line.total = none := by
      simp [List.length_pos_iff, List.filter_eq_nil_iff]
    by_cases hnone : ∀ line ∈ result.lineItems, line.total = none
    · rw [if_neg fun hpos => hpriced.mp hpos hnone] at hamount
      obtain rfl := Option.some.inj hamount
      exact iff_of_true addsUp_rest (.inr (.inl hnone))
    · rw [if_pos (hpriced.mpr hnone)] at hamount
      obtain rfl := Option.some.inj hamount
      simp [LinesCover, hsubtotal, hnone]

end Collapse

/-- A platform that writes every amount alike. -/
def plainFormat : NumberFormat := ⟨fun _ _ => none, fun _ => "0.00"⟩

/-- Rice and beans with a printed subtotal, tax and total. -/
def basket : ReceiptParsingResult where
  merchant := ⟨some "Corner Shop", none, none⟩
  dateTime := none
  currency := some "NGN"
  lineItems := [⟨"Rice", some 1, some 200, some 200⟩, ⟨"Beans", some 1, some 100, some 100⟩]
  subtotal := some 300
  tax := some (45 / 2)
  tip := some 0
  total := some (645 / 2)
  paymentMethod := none
  confidence := .high
  warnings := []

end HeirsOcr.ReceiptCollapse
