import HeirsOcr.Confidence
import HeirsOcr.Pipeline
import HeirsOcr.ReceiptProjection
import HeirsOcr.SchemaBounds
import Mathlib.Data.List.ReduceOption

/-!
# The bar a result is reviewed under

A failed check, a warning and a field that was not found each take a factor off the score, and a
result below the threshold is sent to a person. The factor of the missing fields is the part of
the fields that was found, so it comes as near to one as there are fields to find.
-/
namespace HeirsOcr.Confidence
open FormData JsRecord Json Pipeline Providers

def FAILED_CHECK_FACTOR : ℚ := 1 / 2

def WARNING_FACTOR : ℚ := 9 / 10

/-- What `LOW_CONFIDENCE_THRESHOLD` is when the environment does not set it. -/
def defaultThreshold : ℚ := 19 / 20

/-- A verdict, plus one deduction per warning it raised. -/
def verdictDeductions (verdict : ReceiptProjection.Confidence) (warnings : List String)
    (failedReason : String) : List Deduction :=
  (if verdict = .low then [⟨FAILED_CHECK_FACTOR, failedReason⟩] else []) ++
    warnings.map fun reason => ⟨WARNING_FACTOR, reason⟩

/-- The labels that were not found, in the order of the properties. -/
def missingLabels (fields : Record Bool) : List String :=
  ((propertyOrder fields.rows).filter fun entry => !entry.2).map Prod.fst

/-- The part of the fields that was found, and the names of the others. -/
def completeness (fields : Record Bool) : Option Deduction :=
  let labels := (propertyOrder fields.rows).map Prod.fst
  if labels.length = 0 then none
  else
    let missing := missingLabels fields
    if missing.length = 0 then none
    else some ⟨(labels.length - missing.length : ℚ) / labels.length,
      "Not found on the document: " ++ ", ".intercalate missing ++ "."⟩

section Present

variable {N : Type}

mutual

/-- Neither null, blank text nor an empty list or object. -/
def isPresent : Value N → Bool
  | .null => false
  | .string s => 0 < (JsText.trim s.toList).length
  | .array items => 0 < items.length
  | .object members => anyPresent members
  | .bool _ | .number _ => true

def anyPresent : List (String × Value N) → Bool
  | [] => false
  | (_, value) :: rest => isPresent value || anyPresent rest

end

/-- The functions that every object inherits. -/
def INHERITED : List String :=
  ["constructor", "hasOwnProperty", "isPrototypeOf", "propertyIsEnumerable", "toLocaleString",
    "toString", "valueOf", "__defineGetter__", "__defineSetter__", "__lookupGetter__",
    "__lookupSetter__"]

/-- The properties a raw schema declares, else whatever keys came back. -/
def declaredProperties (jsonSchema : JsonObject N) (result : FormDataExtractionResult N) :
    List String :=
  match jsonSchema.lookup "properties" with
  | some (.object members) => (propertyOrder members).map Prod.fst
  | some (.array items) => (List.range items.length).map toString
  | _ => (propertyOrder result.fields).map Prod.fst

/-- Of the fields the caller asked for, those that were found. -/
def foundFields (result : FormDataExtractionResult N) (args : FormDataExtractionArgs N) :
    Record Bool :=
  let names := match args with
    | .fields specs => specs.map FieldSpec.name
    | .jsonSchema schema => declaredProperties schema result
  fromEntries (names.map fun name =>
    (name, ((result.fields.lookup name).map isPresent).getD (name ∈ INHERITED)))

def assessFormDataExtraction (result : FormDataExtractionResult N)
    (args : FormDataExtractionArgs N) : ConfidenceAssessment :=
  scoreFrom [completeness (foundFields result args)]

end Present

/-- The assessment of a function that checks its result and counts the fields it found. -/
def assess (verdict : ReceiptProjection.Confidence) (warnings : List String)
    (failedReason : String) (fields : Record Bool) : ConfidenceAssessment :=
  scoreFrom ((verdictDeductions verdict warnings failedReason).map some ++ [completeness fields])

/-- The score is below the bar, and under the default threshold a run that ends with it is
flagged. -/
structure SentToReview (assessment : ConfidenceAssessment) : Prop where
  score : assessment.score < defaultThreshold
  needsReview : ∀ {Json Llm TArgs TResult : Type} (env : Environment)
    (fn : OcrFunctionDefinition Json Llm TArgs TResult) (input : DocumentInput)
    (doc : RecognizedDocument) (cached : Bool) (cache : ExtractionCache)
    (calls : List RecognizeCall) (args : TArgs) (result : TResult),
    env.LOW_CONFIDENCE_THRESHOLD = defaultThreshold → fn.confidenceOf result args = assessment →
      (succeeded env fn input doc cached cache calls args result).functionUsage.lowConfidence =
        some true ∧
      ∃ answer, (succeeded env fn input doc cached cache calls args result).response =
        .ok (result, answer) ∧ answer.needsReview = true

/-- Something about the result is for a person to look at. -/
def Flawed (verdict : ReceiptProjection.Confidence) (warnings : List String)
    (fields : Record Bool) : Prop :=
  verdict = .low ∨ warnings ≠ [] ∨ missingLabels fields ≠ []

/-- A check failed, there is a warning, every field was found, or more than one of twenty fields
is missing. -/
def FlawsWeigh (verdict : ReceiptProjection.Confidence) (warnings : List String)
    (fields : Record Bool) : Prop :=
  verdict = .low ∨ warnings ≠ [] ∨ missingLabels fields = [] ∨
    (1 / 20 + 1 / 10 ^ 12 : ℚ) * fields.rows.length < (missingLabels fields).length

theorem floor3_le_floor3 {n m : ℚ} (h : n ≤ m) : floor3 n ≤ floor3 m := by
  have hfloor : ⌊n * 1000 + 1 / 1000000000⌋ ≤ ⌊m * 1000 + 1 / 1000000000⌋ :=
    Int.floor_le_floor (by linarith)
  have hcast : (⌊n * 1000 + 1 / 1000000000⌋ : ℚ) ≤ ⌊m * 1000 + 1 / 1000000000⌋ := by
    exact_mod_cast hfloor
  exact div_le_div_of_nonneg_right hcast (by norm_num)

theorem floor3_floor3 (n : ℚ) : floor3 (floor3 n) = floor3 n := by
  have hfloor : ⌊floor3 n * 1000 + 1 / 1000000000⌋ = ⌊n * 1000 + 1 / 1000000000⌋ := by
    rw [floor3, div_mul_cancel₀ _ (by norm_num), Int.floor_intCast_add]
    have hnoise : ⌊(1 / 1000000000 : ℚ)⌋ = 0 := by norm_num
    rw [hnoise, add_zero]
  rw [floor3, hfloor, floor3]

/-- The allowance for noise lifts what is a trillionth below the bar onto it. -/
theorem floor3_lt_iff (n : ℚ) : floor3 n < defaultThreshold ↔ n < 19 / 20 - 1 / 10 ^ 12 := by
  have hcast : floor3 n < defaultThreshold ↔ ⌊n * 1000 + 1 / 1000000000⌋ < 950 := by
    rw [floor3, defaultThreshold, div_lt_iff₀ (by norm_num)]
    constructor
    · intro h
      have hlt : (⌊n * 1000 + 1 / 1000000000⌋ : ℚ) < (950 : ℤ) := by
        push_cast
        linarith
      exact_mod_cast hlt
    · intro h
      have hlt : (⌊n * 1000 + 1 / 1000000000⌋ : ℚ) < (950 : ℤ) := by exact_mod_cast h
      push_cast at hlt
      linarith
  rw [hcast, Int.floor_lt]
  push_cast
  constructor
  · intro h
    linarith
  · intro h
    linarith

theorem clamp01_of_mem {n : ℚ} (hlow : 0 ≤ n) (hhigh : n ≤ 1) : clamp01 n = n := by
  rw [clamp01, min_eq_right hhigh, max_eq_right hlow]

/-- A product of clamped factors is no greater than any of them. -/
theorem prod_clamp_le {α : Type*} {l : List α} {f : α → ℚ} {a : α} (ha : a ∈ l) :
    (l.map fun a => clamp01 (f a)).prod ≤ clamp01 (f a) := by
  induction l with
  | nil => exact absurd ha List.not_mem_nil
  | cons b l ih =>
    obtain ⟨hlow, hhigh⟩ := prod_clamp_mem_unit l f
    rw [List.map_cons, List.prod_cons]
    rcases List.mem_cons.mp ha with rfl | ha
    · exact mul_le_of_le_one_right (clamp01_nonneg _) hhigh
    · exact (mul_le_of_le_one_left hlow (clamp01_le_one _)).trans (ih ha)

/-- A deduction holds the score down to its factor. -/
theorem score_le_of_mem {deductions : List (Option Deduction)} {d : Deduction}
    (hd : some d ∈ deductions) : (scoreFrom deductions).score ≤ floor3 (clamp01 d.factor) :=
  floor3_le_floor3 (prod_clamp_le (List.reduceOption_mem_iff.mpr hd))

/-- A score among those combined bounds the combined one. -/
theorem combine_score_le {assessments : List ConfidenceAssessment} {a : ConfidenceAssessment}
    (ha : a ∈ assessments) (hmem : a.score ∈ Set.Icc 0 1) (hdigits : floor3 a.score = a.score) :
    (combine assessments).score ≤ a.score := by
  have hle := floor3_le_floor3 (prod_clamp_le (f := ConfidenceAssessment.score) ha)
  rwa [clamp01_of_mem hmem.1 hmem.2, hdigits] at hle

/-- What is recognized badly only lowers a score. -/
theorem withExtraction_score_le (doc : RecognizedDocument) {a : ConfidenceAssessment}
    (hmem : a.score ∈ Set.Icc 0 1) (hdigits : floor3 a.score = a.score) :
    (withExtraction doc a).score ≤ a.score := by
  rw [withExtraction]
  cases doc.ocrConfidence with
  | none => exact le_refl _
  | some ocr =>
    dsimp only
    split_ifs with hocr
    · exact le_refl _
    · exact combine_score_le (List.mem_pair.mpr (Or.inr rfl)) hmem hdigits

section Bar

variable {verdict : ReceiptProjection.Confidence} {warnings : List String} {failedReason : String}
  {fields : Record Bool}

/-- A score below the bar stays below it in the pipeline. -/
theorem sentToReview_iff (deductions : List (Option Deduction)) :
    SentToReview (scoreFrom deductions) ↔ (scoreFrom deductions).score < defaultThreshold := by
  refine ⟨fun h => h.score, fun hscore => ⟨hscore, ?_⟩⟩
  intro Json Llm TArgs TResult env fn input doc cached cache calls args result hthreshold
    hassessment
  have hbelow : (withExtraction doc (fn.confidenceOf result args)).score <
      env.LOW_CONFIDENCE_THRESHOLD := by
    rw [hthreshold, hassessment]
    exact (withExtraction_score_le doc (score_mem_unit deductions []).1
      (floor3_floor3 _)).trans_lt hscore
  have hflag : decide ((withExtraction doc (fn.confidenceOf result args)).score <
      env.LOW_CONFIDENCE_THRESHOLD) = true := decide_eq_true hbelow
  exact ⟨congrArg some hflag, _, rfl, hflag⟩

theorem length_propertyOrder (fields : Record Bool) :
    ((propertyOrder fields.rows).map Prod.fst).length = fields.rows.length := by
  rw [List.length_map, (propertyOrder_perm fields.rows).length_eq]

theorem length_missingLabels_le (fields : Record Bool) :
    (missingLabels fields).length ≤ fields.rows.length := by
  rw [missingLabels, List.length_map, ← (propertyOrder_perm fields.rows).length_eq]
  exact List.length_filter_le _ _

theorem completeness_eq_some (hmissing : missingLabels fields ≠ []) :
    completeness fields =
      some ⟨(fields.rows.length - (missingLabels fields).length : ℚ) / fields.rows.length,
        "Not found on the document: " ++ ", ".intercalate (missingLabels fields) ++ "."⟩ := by
  have hpos : 0 < (missingLabels fields).length := List.length_pos_iff.mpr hmissing
  have hle := length_missingLabels_le fields
  unfold completeness
  dsimp only
  rw [length_propertyOrder, if_neg (by omega), if_neg (by omega)]

theorem completeness_eq_none (hmissing : missingLabels fields = []) :
    completeness fields = none := by
  unfold completeness
  rw [hmissing]
  apply ite_eq_left_iff.mpr
  intro _
  exact if_pos rfl

theorem assess_reasons : (assess verdict warnings failedReason fields).reasons =
    (if verdict = .low then [failedReason] else []) ++ (warnings ++
      if missingLabels fields = [] then []
      else ["Not found on the document: " ++ ", ".intercalate (missingLabels fields) ++ "."]) := by
  have hchecks : ((verdictDeductions verdict warnings failedReason).map some).reduceOption.map
      Deduction.reason = (if verdict = .low then [failedReason] else []) ++ warnings := by
    have htaken (l : List Deduction) : (l.map some).reduceOption = l := by
      induction l with
      | nil => rfl
      | cons d l ih => rw [List.map_cons, List.reduceOption_cons_of_some, ih]
    rw [htaken, verdictDeductions, List.map_append, List.map_map]
    congr 1
    · split_ifs
      · rfl
      · rfl
    · exact List.map_id _
  unfold assess scoreFrom
  dsimp only
  rw [List.reduceOption_append, List.map_append, hchecks, List.append_assoc]
  congr 2
  split_ifs with hmissing
  · rw [completeness_eq_none hmissing]
    rfl
  · rw [completeness_eq_some hmissing]
    rfl

/-- The part of the fields that was found is between none and all of them. -/
theorem fillRate_mem_unit (fields : Record Bool) :
    0 ≤ (fields.rows.length - (missingLabels fields).length : ℚ) / fields.rows.length ∧
      (fields.rows.length - (missingLabels fields).length : ℚ) / fields.rows.length ≤ 1 := by
  have hle : ((missingLabels fields).length : ℚ) ≤ fields.rows.length := by
    exact_mod_cast length_missingLabels_le fields
  have hmissing : (0 : ℚ) ≤ (missingLabels fields).length := Nat.cast_nonneg _
  constructor
  · exact div_nonneg (by linarith) (Nat.cast_nonneg _)
  · exact div_le_one_of_le₀ (by linarith) (Nat.cast_nonneg _)

/-- One failed check or one warning is enough. -/
theorem score_lt_of_check (h : verdict = .low ∨ warnings ≠ []) :
    (assess verdict warnings failedReason fields).score < defaultThreshold := by
  have hdeduction : ∃ d ∈ verdictDeductions verdict warnings failedReason, d.factor ≤ 9 / 10 := by
    rcases h with rfl | hwarnings
    · exact ⟨⟨FAILED_CHECK_FACTOR, failedReason⟩, by simp [verdictDeductions],
        by norm_num [FAILED_CHECK_FACTOR]⟩
    · obtain ⟨warning, hwarning⟩ := List.exists_mem_of_ne_nil _ hwarnings
      refine ⟨⟨WARNING_FACTOR, warning⟩, List.mem_append_right _ (List.mem_map_of_mem hwarning), ?_⟩
      norm_num [WARNING_FACTOR]
  obtain ⟨d, hd, hfactor⟩ := hdeduction
  refine (score_le_of_mem (List.mem_append_left _ (List.mem_map_of_mem hd))).trans_lt ?_
  rw [floor3_lt_iff, clamp01]
  refine (max_le (by norm_num) ((min_le_right _ _).trans hfactor)).trans_lt ?_
  norm_num

/-- Without those, the missing fields have to be more than one in twenty. -/
theorem score_lt_iff_of_missing (hmissing : missingLabels fields ≠ []) :
    (assess .high [] failedReason fields).score < defaultThreshold ↔
      (1 / 20 + 1 / 10 ^ 12 : ℚ) * fields.rows.length < (missingLabels fields).length := by
  have hscore : (assess .high [] failedReason fields).score =
      floor3 ((fields.rows.length - (missingLabels fields).length : ℚ) / fields.rows.length) := by
    rw [assess, completeness_eq_some hmissing]
    simp [verdictDeductions, scoreFrom,
      clamp01_of_mem (fillRate_mem_unit fields).1 (fillRate_mem_unit fields).2]
  have hpos : (0 : ℚ) < fields.rows.length := by
    exact_mod_cast (List.length_pos_iff.mpr hmissing).trans_le (length_missingLabels_le fields)
  rw [hscore, floor3_lt_iff, div_lt_iff₀ hpos]
  constructor
  · intro h
    linarith
  · intro h
    linarith

/-- With up to fifty fields the allowance for noise makes no difference. -/
theorem oneInTwenty_iff {n k : ℕ} (hn : n ≤ MAX_FIELDS) :
    (1 / 20 + 1 / 10 ^ 12 : ℚ) * n < k ↔ n < 20 * k := by
  have hn' : (n : ℚ) ≤ 50 := by exact_mod_cast hn
  have hnonneg : (0 : ℚ) ≤ n := Nat.cast_nonneg n
  constructor
  · intro h
    have hlt : (n : ℚ) < 20 * k := by linarith
    exact_mod_cast hlt
  · intro h
    have hle : (n : ℚ) + 1 ≤ 20 * k := by exact_mod_cast h
    linarith

/-- A flaw sends a result to review exactly when it weighs enough: of up to fifty fields, one in
twenty may be missing. -/
theorem flaws_reviewed_iff (verdict : ReceiptProjection.Confidence) (warnings : List String)
    (failedReason : String) (fields : Record Bool) :
    ((Flawed verdict warnings fields → SentToReview (assess verdict warnings failedReason fields)) ↔
      FlawsWeigh verdict warnings fields) ∧
    (fields.rows.length ≤ MAX_FIELDS →
      ((1 / 20 + 1 / 10 ^ 12 : ℚ) * fields.rows.length < (missingLabels fields).length ↔
        fields.rows.length < 20 * (missingLabels fields).length)) := by
  constructor
  · unfold assess
    rw [sentToReview_iff, ← assess]
    unfold Flawed FlawsWeigh
    by_cases hcheck : verdict = .low ∨ warnings ≠ []
    · have hscore := @score_lt_of_check _ _ failedReason fields hcheck
      tauto
    · obtain ⟨hverdict, hwarnings⟩ := not_or.mp hcheck
      obtain rfl : verdict = .high := by
        cases verdict with
        | high => rfl
        | low => exact absurd rfl hverdict
      obtain rfl := not_not.mp hwarnings
      by_cases hmissing : missingLabels fields = []
      · simp [hmissing]
      · rw [score_lt_iff_of_missing hmissing]
        simp [hmissing]
  · exact oneInTwenty_iff

end Bar

/-- A form of twenty text fields, named after the letters. -/
def letters : FormDataExtractionArgs ℚ :=
  .fields ("abcdefghijklmnopqrst".toList.map fun c =>
    ⟨String.ofList [c], .string, none, true, none⟩)

/-- Every letter but the first. -/
def allButOne : FormDataExtractionResult ℚ :=
  ⟨("a", .string "") :: "bcdefghijklmnopqrst".toList.map fun c =>
    (String.ofList [c], .string "x")⟩

/-- Of twenty requested fields one is blank, and the score is on the bar. -/
theorem one_of_twenty_missing : ¬ ∀ (verdict : ReceiptProjection.Confidence)
    (warnings : List String) (failedReason : String) (fields : Record Bool),
    fields.rows.length ≤ MAX_FIELDS → Flawed verdict warnings fields →
      SentToReview (assess verdict warnings failedReason fields) := by
  intro hall
  have hflawed : Flawed .high [] (foundFields allButOne letters) :=
    .inr (.inr (by decide +kernel))
  have hreview := hall .high [] "" _ (by decide +kernel) hflawed
  have hscore : (assessFormDataExtraction allButOne letters).score < defaultThreshold :=
    hreview.score
  exact absurd hscore (by decide +kernel)

end HeirsOcr.Confidence
