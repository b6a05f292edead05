import HeirsOcr.ProviderRouter

/-!
# Confidence of a result

A score between 0 and 1 with a reason for every deduction. Deductions multiply, and the
score is floored to three decimals; all arithmetic is in exact rationals.
-/
namespace HeirsOcr.Confidence
open Providers

structure ConfidenceAssessment where
  score : ℚ
  reasons : List String
  deriving DecidableEq

structure Deduction where
  factor : ℚ
  reason : String
  deriving DecidableEq

def clamp01 (n : ℚ) : ℚ := max 0 (min 1 n)

/-- Floors to three decimals, with the source's allowance for noise. -/
def floor3 (n : ℚ) : ℚ := ⌊n * 1000 + 1 / 1000000000⌋ / 1000

/-- `(n * 100).toFixed(1)` and a percent sign, for `n` that is not negative. -/
def percent (n : ℚ) : String :=
  let tenths := ⌊n * 1000 + 1 / 2⌋.toNat
  toString (tenths / 10) ++ "." ++ toString (tenths % 10) ++ "%"

/-- Folds deductions into an assessment; the checks that passed are left out. -/
def scoreFrom (deductions : List (Option Deduction)) : ConfidenceAssessment :=
  let taken := deductions.reduceOption
  ⟨floor3 ((taken.map fun d => clamp01 d.factor).prod), taken.map Deduction.reason⟩

/-- Multiplies independent assessments. -/
def combine (assessments : List ConfidenceAssessment) : ConfidenceAssessment :=
  ⟨floor3 ((assessments.map fun a => clamp01 a.score).prod),
    assessments.flatMap ConfidenceAssessment.reasons⟩

/-- Applies the extraction's own character confidence on top of a function's score. -/
def withExtraction (doc : RecognizedDocument) (assessment : ConfidenceAssessment) :
    ConfidenceAssessment :=
  match doc.ocrConfidence with
  | none => assessment
  | some ocr =>
    if 1 ≤ ocr then assessment
    else
      let read := percent ocr
      let reason := s!"OCR read the text at {read} character confidence ({doc.provider})."
      combine [scoreFrom [some ⟨ocr, reason⟩], assessment]

theorem clamp01_nonneg (n : ℚ) : 0 ≤ clamp01 n := le_max_left _ _

theorem clamp01_le_one (n : ℚ) : clamp01 n ≤ 1 := max_le zero_le_one (min_le_left _ _)

theorem prod_clamp_mem_unit {α : Type*} (l : List α) (f : α → ℚ) :
    0 ≤ (l.map fun a => clamp01 (f a)).prod ∧ (l.map fun a => clamp01 (f a)).prod ≤ 1 := by
  induction l with
  | nil => simp
  | cons a l ih =>
    rw [List.map_cons, List.prod_cons]
    exact ⟨mul_nonneg (clamp01_nonneg _) ih.1,
      mul_le_one₀ (clamp01_le_one _) ih.1 ih.2⟩

/-- A product of clamped factors floors to a score between 0 and 1. -/
theorem floor3_prod_mem_unit {α : Type*} (l : List α) (f : α → ℚ) :
    0 ≤ floor3 ((l.map fun a => clamp01 (f a)).prod) ∧
      floor3 ((l.map fun a => clamp01 (f a)).prod) ≤ 1 := by
  have hprod := prod_clamp_mem_unit l f
  generalize (l.map fun a => clamp01 (f a)).prod = n at hprod
  have hlow : 0 ≤ ⌊n * 1000 + 1 / 1000000000⌋ := Int.floor_nonneg.mpr (by linarith [hprod.1])
  have hhigh : ⌊n * 1000 + 1 / 1000000000⌋ < 1001 := by
    apply Int.floor_lt.mpr
    push_cast
    linarith [hprod.2]
  have hlow' : (0 : ℚ) ≤ ⌊n * 1000 + 1 / 1000000000⌋ := by exact_mod_cast hlow
  have hhigh' : (⌊n * 1000 + 1 / 1000000000⌋ : ℚ) ≤ 1000 := by
    exact_mod_cast Int.lt_add_one_iff.mp hhigh
  constructor
  · exact div_nonneg hlow' (by norm_num)
  · rw [floor3, div_le_one (by norm_num)]
    exact hhigh'

/-- Every score the service computes is between 0 and 1, deductions and assessments of
any size included. -/
theorem score_mem_unit (deductions : List (Option Deduction))
    (assessments : List ConfidenceAssessment) :
    (scoreFrom deductions).score ∈ Set.Icc 0 1 ∧ (combine assessments).score ∈ Set.Icc 0 1 :=
  ⟨floor3_prod_mem_unit _ _, floor3_prod_mem_unit _ _⟩

end HeirsOcr.Confidence
