import HeirsOcr.JsText
import HeirsOcr.Rounding
import Mathlib.Algebra.Order.Round

/-!
# Money

Amounts are summed and compared as whole minor units, kobo or cents, and two sums agree within
a relative tolerance that never falls under an absolute one. Each step is rounded; what the
platform makes of a number in a currency is a parameter.
-/
namespace HeirsOcr.Money
open Doubles

section Rounded

variable (r : Rounding)

/-- The relative tolerance of "these two totals agree". -/
def EPSILON : ℚ := r.round (2 / 100)

/-- Whole minor units for an amount, a half rounded up. -/
def toMinor (amount : ℚ) : ℤ := round (r.round (amount * 100))

def toMajor (minor : ℚ) : ℚ := r.round (minor / 100)

/-- What an amount adds to a sum; a missing one counts as zero. -/
def minorOrZero (value : Option ℚ) : ℚ := value.elim 0 fun amount => toMinor r amount

/-- The sum of amounts in minor units, each rounded before it is added. -/
def sumMinor (values : List (Option ℚ)) : ℚ :=
  values.foldl (fun total value => r.round (total + minorOrZero r value)) 0

def approxEqualMinor (a b epsilon : ℚ) : Bool :=
  |r.round (a - b)| ≤ max (toMinor r epsilon : ℚ) (r.round (epsilon * |b|))

end Rounded

/-- `Intl.NumberFormat` for `en-NG`: with a currency, where it may throw, and without. -/
structure NumberFormat where
  currency : String → ℚ → Option String
  decimal : ℚ → String

def isAsciiLetter (c : Char) : Bool := 'A' ≤ c && c ≤ 'Z' || 'a' ≤ c && c ≤ 'z'

def isCurrencyCode (currency : Option String) : Option String :=
  currency.filter fun code => code.length = 3 && code.toList.all isAsciiLetter

def formatMinor (r : Rounding) (intl : NumberFormat) (minor : ℚ) (currency : Option String) :
    String :=
  let amount := toMajor r minor
  ((isCurrencyCode currency).bind fun code =>
    intl.currency (String.ofList (JsText.toUpperCase code.toList)) amount).getD
      (intl.decimal amount)

section Sums

variable {r : Arithmetic}

@[simp] theorem toMinor_zero : toMinor r.toRounding 0 = 0 := by simp [toMinor]

theorem minorOrZero_getD (value : Option ℚ) :
    minorOrZero r.toRounding (some (value.getD 0)) = minorOrZero r.toRounding value := by
  cases value with
  | none => simp [minorOrZero]
  | some amount => rfl

/-- The missing amounts may be left out of the sum. -/
theorem sumMinor_filter (values : List (Option ℚ)) :
    sumMinor r.toRounding (values.filter Option.isSome) = sumMinor r.toRounding values := by
  -- what has been rounded stays when nothing is added to it
  have hheld : ∀ total, r.round total = total →
      (values.filter Option.isSome).foldl
          (fun total value => r.round (total + minorOrZero r.toRounding value)) total =
        values.foldl (fun total value => r.round (total + minorOrZero r.toRounding value))
          total := by
    induction values with
    | nil => exact fun _ _ => rfl
    | cons value values ih =>
      intro total htotal
      cases value with
      | none =>
        have hzero : r.round (total + minorOrZero r.toRounding none) = total := by
          rw [minorOrZero, Option.elim_none, add_zero, htotal]
        rw [List.filter_cons_of_neg (by simp), List.foldl_cons, hzero]
        exact ih total htotal
      | some amount =>
        rw [List.filter_cons_of_pos (by simp), List.foldl_cons, List.foldl_cons]
        exact ih _ (r.idem _)
  exact hheld 0 r.zero

/-- The missing amounts may be written as zeros. -/
theorem sumMinor_getD (values : List (Option ℚ)) :
    sumMinor r.toRounding (values.map fun value => some (value.getD 0)) =
      sumMinor r.toRounding values := by
  simp only [sumMinor, List.foldl_map, minorOrZero_getD]

/-- Exact sums are plain ones. -/
theorem sumMinor_exact (values : List (Option ℚ)) :
    sumMinor .exact values = (values.map (minorOrZero .exact)).sum := by
  rw [sumMinor, List.sum_eq_foldl, List.foldl_map]
  rfl

/-- Two hundredths, however they are rounded, are two minor units. -/
theorem toMinor_epsilon : toMinor r.toRounding (EPSILON r.toRounding) = 2 := by
  have hlow : 1 / 64 ≤ EPSILON r.toRounding :=
    r.ge_of_isDouble (isDouble_of_eq (m := 1) (e := -6) (by norm_num) (by norm_num) (by norm_num)
      (by norm_num)) (by norm_num)
  have hhigh : EPSILON r.toRounding ≤ 3 / 128 :=
    r.le_of_isDouble (isDouble_of_eq (m := 3) (e := -7) (by norm_num) (by norm_num) (by norm_num)
      (by norm_num)) (by norm_num)
  have hlow' : 25 / 16 ≤ r.round (EPSILON r.toRounding * 100) :=
    r.ge_of_isDouble (isDouble_of_eq (m := 25) (e := -4) (by norm_num) (by norm_num) (by norm_num)
      (by norm_num)) (by linarith)
  have hhigh' : r.round (EPSILON r.toRounding * 100) ≤ 75 / 32 :=
    r.le_of_isDouble (isDouble_of_eq (m := 75) (e := -5) (by norm_num) (by norm_num) (by norm_num)
      (by norm_num)) (by linarith)
  rw [toMinor, round_eq, Int.floor_eq_iff]
  norm_num
  constructor
  · linarith
  · linarith

/-- Sums two minor units apart agree whatever they are. -/
theorem approxEqualMinor_of_abs_le {a b : ℚ} (h : |r.round (a - b)| ≤ 2) :
    approxEqualMinor r.toRounding a b (EPSILON r.toRounding) = true := by
  have hfloor : (2 : ℚ) ≤ max (toMinor r.toRounding (EPSILON r.toRounding) : ℚ)
      (r.round (EPSILON r.toRounding * |b|)) := by
    rw [toMinor_epsilon]
    exact le_max_left _ _
  exact decide_eq_true (h.trans hfloor)

@[simp] theorem approxEqualMinor_self (a : ℚ) :
    approxEqualMinor r.toRounding a a (EPSILON r.toRounding) = true :=
  approxEqualMinor_of_abs_le (by simp)

end Sums

/-- To round three amounts apart and their sum at once differs by two units at most. -/
theorem abs_toMinor_add_le (a b c : ℚ) :
    |(toMinor .exact a + toMinor .exact b + toMinor .exact c : ℚ) - toMinor .exact (a + b + c)| ≤
      2 := by
  have ha := abs_le.mp (abs_sub_round (a * 100))
  have hb := abs_le.mp (abs_sub_round (b * 100))
  have hc := abs_le.mp (abs_sub_round (c * 100))
  have habc := abs_le.mp (abs_sub_round ((a + b + c) * 100))
  simp only [toMinor, Rounding.exact, id]
  rw [abs_le]
  constructor
  · linarith [ha.1, hb.1, hc.1, habc.2, ha.2, hb.2, hc.2, habc.1]
  · linarith [ha.1, hb.1, hc.1, habc.2, ha.2, hb.2, hc.2, habc.1]

end HeirsOcr.Money
