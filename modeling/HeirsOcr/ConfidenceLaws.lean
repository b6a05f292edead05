import HeirsOcr.ReviewBar

/-!
# Laws of the confidence score

A score is built from deductions by `scoreFrom`, `combine` and `withExtraction`, in any
nesting. Whatever is built holds a score of three decimals, and the reasons travel with the
score: there are none exactly when nothing was taken off.
-/
namespace HeirsOcr.Confidence
open Providers

/-- How an assessment was put together. -/
inductive Grouping where
  | scoreFrom (deductions : List (Option Deduction))
  | combine (groups : List Grouping)
  | withExtraction (doc : RecognizedDocument) (group : Grouping)

namespace Grouping

mutual

def assessment : Grouping → ConfidenceAssessment
  | scoreFrom deductions => Confidence.scoreFrom deductions
  | combine groups => Confidence.combine (assessments groups)
  | withExtraction doc group => Confidence.withExtraction doc group.assessment

def assessments : List Grouping → List ConfidenceAssessment
  | [] => []
  | group :: groups => group.assessment :: assessments groups

end

mutual

/-- Every deduction takes at least a thousandth off, and so does a character confidence below
one, up to the allowance for noise. -/
def Weighs : Grouping → Prop
  | scoreFrom deductions => ∀ d, some d ∈ deductions → d.factor ≤ 999 / 1000
  | combine groups => AllWeigh groups
  | withExtraction doc group =>
    (∀ ocr, doc.ocrConfidence = some ocr → ocr < 1 - 1 / 10 ^ 12 ∨ 1 ≤ ocr) ∧ group.Weighs

def AllWeigh : List Grouping → Prop
  | [] => True
  | group :: groups => group.Weighs ∧ AllWeigh groups

end

/-- `g.Adds g'`: one more deduction or assessment somewhere in `g` makes `g'`. -/
inductive Adds : Grouping → Grouping → Prop
  | deduction (l r : List (Option Deduction)) (d : Option Deduction) :
    Adds (scoreFrom (l ++ r)) (scoreFrom (l ++ d :: r))
  | assessment (l r : List Grouping) (group : Grouping) :
    Adds (combine (l ++ r)) (combine (l ++ group :: r))
  | others (l r : List Grouping) (group : Grouping) : Adds group (combine (l ++ group :: r))
  | extraction (doc : RecognizedDocument) (group : Grouping) :
    Adds group (withExtraction doc group)
  | within (l r : List Grouping) {group group' : Grouping} : Adds group group' →
    Adds (combine (l ++ group :: r)) (combine (l ++ group' :: r))
  | beneath (doc : RecognizedDocument) {group group' : Grouping} : Adds group group' →
    Adds (withExtraction doc group) (withExtraction doc group')

/-- `g.Reorders g'`: somewhere in `g` the assessments combined are put in another order. -/
inductive Reorders : Grouping → Grouping → Prop
  | combined {groups groups' : List Grouping} : groups.Perm groups' →
    Reorders (combine groups) (combine groups')
  | within (l r : List Grouping) {group group' : Grouping} : Reorders group group' →
    Reorders (combine (l ++ group :: r)) (combine (l ++ group' :: r))
  | beneath (doc : RecognizedDocument) {group group' : Grouping} : Reorders group group' →
    Reorders (withExtraction doc group) (withExtraction doc group')

theorem assessments_eq_map (groups : List Grouping) :
    assessments groups = groups.map assessment := by
  induction groups with
  | nil => rfl
  | cons group groups ih => rw [assessments, ih, List.map_cons]

theorem assessment_combine (groups : List Grouping) :
    (combine groups).assessment = Confidence.combine (groups.map assessment) := by
  rw [assessment, assessments_eq_map]

end Grouping

/-- What every assessment keeps: a score of three decimals between 0 and 1, and reasons exactly
when a thousandth or more was taken off. -/
structure Consistent (a : ConfidenceAssessment) : Prop where
  nonneg : 0 ≤ a.score
  le_one : a.score ≤ 1
  digits : floor3 a.score = a.score
  clean : a.reasons = [] → a.score = 1
  flawed : a.reasons ≠ [] → a.score ≤ 999 / 1000

theorem floor3_one : floor3 1 = 1 := by
  have hfloor : ⌊(1 * 1000 + 1 / 1000000000 : ℚ)⌋ = 1000 := by
    rw [Int.floor_eq_iff]
    norm_num
  rw [floor3, hfloor]
  norm_num

/-- Only what is a trillionth below one is lifted onto it. -/
theorem floor3_le_of_lt {n : ℚ} (h : n < 1 - 1 / 10 ^ 12) : floor3 n ≤ 999 / 1000 := by
  have hfloor : ⌊n * 1000 + 1 / 1000000000⌋ < 1000 := by
    apply Int.floor_lt.mpr
    push_cast
    linarith
  have hcast : (⌊n * 1000 + 1 / 1000000000⌋ : ℚ) ≤ 999 := by
    exact_mod_cast Int.lt_add_one_iff.mp hfloor
  rw [floor3]
  linarith

theorem clamp01_mono {n m : ℚ} (h : n ≤ m) : clamp01 n ≤ clamp01 m :=
  max_le_max_left 0 (min_le_min_left 1 h)

/-- A floored product of clamped factors is consistent with reasons that are there exactly when
some factor is below one. -/
theorem consistent_of_factors {α : Type*} {factors : List α} {f : α → ℚ} {reasons : List String}
    (hclean : reasons = [] → ∀ x ∈ factors, f x = 1)
    (hflawed : reasons ≠ [] → ∃ x ∈ factors, f x < 1 - 1 / 10 ^ 12) :
    Consistent ⟨floor3 ((factors.map fun x => clamp01 (f x)).prod), reasons⟩ where
  nonneg := (floor3_prod_mem_unit factors f).1
  le_one := (floor3_prod_mem_unit factors f).2
  digits := floor3_floor3 _
  clean := by
    intro hnone
    have hone : factors.map (fun x => clamp01 (f x)) = factors.map fun _ => 1 :=
      List.map_congr_left fun x hx => by
        rw [hclean hnone x hx, clamp01_of_mem zero_le_one le_rfl]
    dsimp only
    rw [hone, List.map_const', List.prod_replicate, one_pow, floor3_one]
  flawed := by
    intro hsome
    obtain ⟨x, hx, hlt⟩ := hflawed hsome
    apply floor3_le_of_lt
    calc (factors.map fun x => clamp01 (f x)).prod
        ≤ clamp01 (f x) := prod_clamp_le hx
      _ < 1 - 1 / 10 ^ 12 := max_lt (by norm_num) ((min_le_right _ _).trans_lt hlt)

theorem consistent_scoreFrom {deductions : List (Option Deduction)}
    (h : ∀ d, some d ∈ deductions → d.factor < 1 - 1 / 10 ^ 12) :
    Consistent (scoreFrom deductions) := by
  apply consistent_of_factors
  · intro hnone d hd
    rw [List.map_eq_nil_iff.mp hnone] at hd
    exact absurd hd List.not_mem_nil
  · intro hsome
    obtain ⟨d, hd⟩ := List.exists_mem_of_ne_nil _ (mt List.map_eq_nil_iff.mpr hsome)
    exact ⟨d, hd, h d (List.reduceOption_mem_iff.mp hd)⟩

theorem consistent_combine {assessments : List ConfidenceAssessment}
    (h : ∀ a ∈ assessments, Consistent a) : Consistent (combine assessments) := by
  apply consistent_of_factors
  · intro hnone a ha
    exact (h a ha).clean (List.flatMap_eq_nil_iff.mp hnone a ha)
  · intro hsome
    by_contra hall
    apply hsome
    rw [List.flatMap_eq_nil_iff]
    intro a ha
    by_contra hreasons
    have hle := (h a ha).flawed hreasons
    exact hall ⟨a, ha, hle.trans_lt (by norm_num)⟩

theorem consistent_withExtraction {doc : RecognizedDocument} {a : ConfidenceAssessment}
    (hdoc : ∀ ocr, doc.ocrConfidence = some ocr → ocr < 1 - 1 / 10 ^ 12 ∨ 1 ≤ ocr)
    (ha : Consistent a) : Consistent (withExtraction doc a) := by
  rw [withExtraction]
  cases hocr : doc.ocrConfidence with
  | none => exact ha
  | some ocr =>
    dsimp only
    split_ifs with hexact
    · exact ha
    · apply consistent_combine
      intro b hb
      rcases List.mem_pair.mp hb with rfl | rfl
      · apply consistent_scoreFrom
        intro d hd
        rw [List.mem_singleton] at hd
        cases hd
        exact (hdoc ocr hocr).resolve_right hexact
      · exact ha

/-- Another factor only lowers a product. -/
theorem prod_clamp_insert_le {α : Type*} (l r : List α) (x : α) (f : α → ℚ) :
    ((l ++ x :: r).map fun x => clamp01 (f x)).prod ≤
      ((l ++ r).map fun x => clamp01 (f x)).prod := by
  simp only [List.map_append, List.map_cons, List.prod_append, List.prod_cons]
  have hrest := (prod_clamp_mem_unit r f).1
  exact mul_le_mul_of_nonneg_left (mul_le_of_le_one_left hrest (clamp01_le_one _))
    (prod_clamp_mem_unit l f).1

/-- A lower factor in the place of another lowers the product. -/
theorem prod_clamp_replace_le {α : Type*} (l r : List α) {x y : α} {f : α → ℚ}
    (h : f y ≤ f x) : ((l ++ y :: r).map fun x => clamp01 (f x)).prod ≤
      ((l ++ x :: r).map fun x => clamp01 (f x)).prod := by
  simp only [List.map_append, List.map_cons, List.prod_append, List.prod_cons]
  exact mul_le_mul_of_nonneg_left
    (mul_le_mul_of_nonneg_right (clamp01_mono h) (prod_clamp_mem_unit r f).1)
    (prod_clamp_mem_unit l f).1

/-- The extraction's signal on a lower score is no higher. -/
theorem withExtraction_score_mono (doc : RecognizedDocument) {a b : ConfidenceAssessment}
    (h : b.score ≤ a.score) : (withExtraction doc b).score ≤ (withExtraction doc a).score := by
  rw [withExtraction, withExtraction]
  cases doc.ocrConfidence with
  | none => exact h
  | some ocr =>
    dsimp only
    split_ifs with hexact
    · exact h
    · exact floor3_le_floor3 (prod_clamp_replace_le [_] [] h)

namespace Grouping

mutual

/-- The invariant every combinator keeps. -/
theorem consistent : ∀ {g : Grouping}, g.Weighs → Consistent g.assessment
  | scoreFrom deductions, h => by
    rw [assessment]
    exact consistent_scoreFrom fun d hd => (h d hd).trans_lt (by norm_num)
  | combine groups, h => by
    rw [assessment_combine]
    apply consistent_combine
    intro a ha
    obtain ⟨group, hgroup, rfl⟩ := List.mem_map.mp ha
    exact consistent_of_mem h group hgroup
  | withExtraction doc group, h => by
    rw [assessment]
    exact consistent_withExtraction h.1 (consistent h.2)

theorem consistent_of_mem : ∀ {groups : List Grouping}, AllWeigh groups →
    ∀ group ∈ groups, Consistent group.assessment
  | group :: groups, h, other, hother => by
    rcases List.mem_cons.mp hother with hhead | htail
    · rw [hhead]
      exact consistent h.1
    · exact consistent_of_mem h.2 other htail

end

/-- Between 0 and 1 and of three decimals, whatever the factors. -/
theorem score_mem : ∀ g : Grouping,
    g.assessment.score ∈ Set.Icc 0 1 ∧ floor3 g.assessment.score = g.assessment.score
  | scoreFrom deductions => ⟨floor3_prod_mem_unit _ _, floor3_floor3 _⟩
  | combine groups => ⟨floor3_prod_mem_unit _ _, floor3_floor3 _⟩
  | withExtraction doc group => by
    rw [assessment, Confidence.withExtraction]
    cases doc.ocrConfidence with
    | none => exact score_mem group
    | some ocr =>
      dsimp only
      split_ifs
      · exact score_mem group
      · exact ⟨floor3_prod_mem_unit _ _, floor3_floor3 _⟩

theorem combine_score_le_of_mem {groups : List Grouping} {group : Grouping}
    (h : group ∈ groups) : (combine groups).assessment.score ≤ group.assessment.score := by
  rw [assessment_combine]
  exact combine_score_le (List.mem_map_of_mem h) (score_mem group).1 (score_mem group).2

/-- One more deduction or assessment, at any level, never raises the score. -/
theorem score_le_of_adds {g g' : Grouping} (h : g.Adds g') :
    g'.assessment.score ≤ g.assessment.score := by
  induction h with
  | deduction l r d =>
    cases d with
    | none => simp [assessment, Confidence.scoreFrom, List.reduceOption_append]
    | some d =>
      simp only [assessment, Confidence.scoreFrom, List.reduceOption_append,
        List.reduceOption_cons_of_some]
      exact floor3_le_floor3 (prod_clamp_insert_le _ _ _ _)
  | assessment l r group =>
    simp only [assessment_combine, List.map_append, List.map_cons]
    exact floor3_le_floor3 (prod_clamp_insert_le _ _ _ _)
  | others l r group => exact combine_score_le_of_mem (by simp)
  | extraction doc group =>
    exact withExtraction_score_le doc (score_mem group).1 (score_mem group).2
  | within l r _ ih =>
    simp only [assessment_combine, List.map_append, List.map_cons]
    exact floor3_le_floor3 (prod_clamp_replace_le _ _ ih)
  | beneath doc _ ih => exact withExtraction_score_mono doc ih

/-- The order of the assessments combined, at any level, does not change the score. -/
theorem score_eq_of_reorders {g g' : Grouping} (h : g.Reorders g') :
    g'.assessment.score = g.assessment.score := by
  induction h with
  | combined hperm =>
    rw [assessment_combine, assessment_combine, Confidence.combine, Confidence.combine]
    dsimp only
    rw [((hperm.map assessment).map fun a => clamp01 a.score).prod_eq]
  | within l r _ ih =>
    simp only [assessment_combine, List.map_append, List.map_cons]
    exact le_antisymm (floor3_le_floor3 (prod_clamp_replace_le _ _ ih.le))
      (floor3_le_floor3 (prod_clamp_replace_le _ _ ih.ge))
  | beneath doc _ ih =>
    exact le_antisymm (withExtraction_score_mono doc ih.le) (withExtraction_score_mono doc ih.ge)

end Grouping

/-- The laws of a score, however its deductions are grouped. -/
theorem confidence_laws (g : Grouping) (h : g.Weighs) :
    g.assessment.score ∈ Set.Icc 0 1 ∧
      (g.assessment.score = 1 ↔ g.assessment.reasons = []) ∧
      (∀ g', g.Adds g' → g'.assessment.score ≤ g.assessment.score) ∧
      ∀ g', g.Reorders g' → g'.assessment.score = g.assessment.score := by
  have hconsistent := Grouping.consistent h
  refine ⟨⟨hconsistent.nonneg, hconsistent.le_one⟩, ⟨?_, hconsistent.clean⟩,
    fun g' => Grouping.score_le_of_adds, fun g' => Grouping.score_eq_of_reorders⟩
  intro hone
  by_contra hreasons
  have hle := hconsistent.flawed hreasons
  rw [hone] at hle
  norm_num at hle

/-- A routed receipt with one missing field of two, read at 0.9. -/
def routedReceipt : Grouping :=
  .withExtraction ⟨"", "", [], [], 1, "tesseract", none, none, some (9 / 10)⟩
    (.combine [.scoreFrom [none], .scoreFrom [some ⟨1 / 2, "Not found on the document: total."⟩]])

theorem confidence_laws_routedReceipt : routedReceipt.Weighs ∧
    routedReceipt.assessment.score ∈ Set.Icc 0 1 := by
  have hweighs : routedReceipt.Weighs := by
    simp only [routedReceipt, Grouping.Weighs, Grouping.AllWeigh]
    refine ⟨?_, by simp, ?_, trivial⟩
    · intro ocr hocr
      obtain rfl := Option.some.inj hocr
      norm_num
    · intro d hd
      obtain rfl := Option.some.inj (List.mem_singleton.mp hd)
      norm_num
  exact ⟨hweighs, (confidence_laws routedReceipt hweighs).1⟩

end HeirsOcr.Confidence
