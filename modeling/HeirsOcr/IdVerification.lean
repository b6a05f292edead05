import Mathlib.Data.Bool.AllAny
import Mathlib.Data.List.Sort
import Mathlib.Data.String.Basic
import HeirsOcr.IdDates

/-!
# Identity documents against expected values

Names, dates and numbers of a document are compared with what the caller holds, each side folded
first. A match of names or dates is one of something: two sides that fold to nothing do not match.
Document numbers lack that guard.
-/
namespace HeirsOcr.IdVerification
open JsText Runs

/-- The capitals of every character. -/
structure CaseMap where
  upper : Char → List Char
  /-- Capitals are their own. -/
  upper_upper : ∀ c, ∀ d ∈ upper c, upper d = [d]
  upper_ascii : ∀ c : Char, c.toNat < 0x80 → upper c = upperChar c

theorem upperChar_upperChar (c : Char) : ∀ d ∈ upperChar c, upperChar d = [d] := by
  by_cases hsmall : 0x61 ≤ c.toNat ∧ c.toNat ≤ 0x7a
  · have hall := forall_char_range (fun c => (upperChar c).all (fun d => upperChar d = [d]) = true)
      (by decide) c hsmall.1 hsmall.2
    exact List.all_iff_forall_prop.mp hall
  · have hother : ¬(decide (0x61 ≤ c.toNat) && decide (c.toNat ≤ 0x7a)) = true := by
      simpa using hsmall
    have hcases : upperChar c = [c] ∨ ∀ d ∈ upperChar c, upperChar d = [d] := by
      rw [upperChar, if_neg hother]
      split
      all_goals first
        | exact .inr (List.all_iff_forall_prop.mp (by decide))
        | exact .inl rfl
    rcases hcases with hself | hall
    · intro d hd
      rw [hself] at hd
      obtain rfl := List.mem_singleton.mp hd
      exact hself
    · exact hall

/-- The map where one side lies in ASCII. -/
def CaseMap.latin : CaseMap := ⟨upperChar, upperChar_upperChar, fun _ _ => rfl⟩

variable (u : Unicode) (m : CaseMap)

structure NameParts where
  surname : Option (List Char)
  firstName : Option (List Char)
  middleName : Option (List Char)

/-- `text.replace(/[...]+/g, " ")` for the characters of a class. -/
def collapse (p : Char → Bool) : List Char → List Char
  | [] => []
  | c :: cs =>
    if p c then
      if cs.head?.any p then collapse p cs else ' ' :: collapse p cs
    else c :: collapse p cs

/-- A text that is not empty. -/
def nonEmpty (text : List Char) : Option (List Char) := if text = [] then none else some text

def normalizeNamePart (value : Option (List Char)) : Option (List Char) :=
  value.bind fun value =>
    nonEmpty (trim (collapse isSpace
      (collapse (fun c => c == '<' || c == ',') (value.flatMap m.upper))))

def joinSpace (parts : List (Option (List Char))) : List Char :=
  [' '].intercalate (parts.filterMap fun part => part.bind nonEmpty)

/-- A first name of several given names keeps the first, and the rest go to the middle name. -/
def normalizeNameParts (parts : NameParts) : NameParts :=
  let given := ((normalizeNamePart m parts.firstName).map (List.splitOn ' ')).getD []
  { surname := normalizeNamePart m parts.surname
    firstName := given.head?
    middleName := normalizeNamePart m
      (some (joinSpace (given.tail.map some ++ [normalizeNamePart m parts.middleName]))) }

def composeFullName (parts : NameParts) : Option (List Char) :=
  nonEmpty (joinSpace [parts.firstName, parts.middleName, parts.surname])

/-- The class `[A-Z0-9]`. -/
def isAlnum (c : Char) : Bool := (0x41 ≤ c.toNat && c.toNat ≤ 0x5a) || isDigit c

/-- The class `['’]` and the grave accent. -/
def isApostrophe (c : Char) : Bool := c.toNat = 0x27 || c.toNat = 0x2019 || c.toNat = 0x60

/-- The names of a full name, in order. -/
def nameTokens (value : List Char) : List (List Char) :=
  let text := (toUpperCase (stripDiacritics u value)).filter fun c => !isApostrophe c
  (runs (fun c => if isAlnum c then some () else none) text).insertionSort (· ≤ ·)

def namesMatch (actual : Option (List Char)) (expected : List Char) : Bool :=
  match actual with
  | none => false
  | some actual =>
    let a := nameTokens u actual
    let b := nameTokens u expected
    0 < a.length && a.length = b.length && (List.range a.length).all fun i => a[i]? = b[i]?

/-- `s.toUpperCase().replace(/[^A-Z0-9]/g, "")`. -/
def norm (s : List Char) : List Char := (toUpperCase s).filter isAlnum

def alnumMatch (actual : Option (List Char)) (expected : List Char) : Bool :=
  match actual with
  | none => false
  | some actual => norm actual = norm expected

inductive IdDocumentType where
  | NIN
  | PASSPORT
  | DRIVERS_LICENSE
  | VOTERS_CARD
  | AUTO
  deriving DecidableEq

/-- The fields as the model reads them off the document. -/
structure ExtractedFields extends NameParts where
  dateOfBirth : Option (List Char)
  documentNumber : Option (List Char)
  issueDate : Option (List Char)
  expiryDate : Option (List Char)
  nationality : Option (List Char)
  sex : Option (List Char)
  placeOfBirth : Option (List Char)
  address : Option (List Char)
  licenceCategory : Option (List Char)
  issuingAuthority : Option (List Char)

structure Fields extends ExtractedFields where
  fullName : Option (List Char)

structure MrzFields where
  documentNumber : Option (List Char)
  fullName : Option (List Char)
  surname : Option (List Char)
  givenNames : Option (List Char)
  dateOfBirth : Option (List Char)
  expiryDate : Option (List Char)
  nationality : Option (List Char)
  sex : Option (List Char)

structure MrzParseResult where
  valid : Bool
  fields : MrzFields

structure Expected where
  fullName : Option (List Char)
  dateOfBirth : Option (List Char)
  documentNumber : Option (List Char)

structure Checks where
  expired : Option Bool
  expiryDate : Option (List Char)
  nameMatch : Option Bool
  dobMatch : Option Bool
  numberMatch : Option Bool
  mrzValid : Option Bool
  deriving DecidableEq

structure IdVerificationResult where
  documentType : IdDocumentType
  fields : Fields
  checks : Checks
  assuranceLevel : String

/-- The machine-readable lines win for the fields they carry. -/
def mergeMrzFields (llm : ExtractedFields) (mrz : MrzFields) : ExtractedFields :=
  let givenNames := mrz.givenNames.bind nonEmpty
  { llm with
    surname := (mrz.surname.bind nonEmpty).or llm.surname
    firstName := givenNames.or llm.firstName
    middleName := if givenNames.isSome then none else llm.middleName
    dateOfBirth := mrz.dateOfBirth.or llm.dateOfBirth
    documentNumber := mrz.documentNumber.or llm.documentNumber
    expiryDate := mrz.expiryDate.or llm.expiryDate
    nationality := mrz.nationality.or llm.nationality
    sex := mrz.sex.or llm.sex }

/-- `now` is the clock at each reading. -/
def normalizeFields (raw : ExtractedFields) (now : ℕ → ℤ) : Fields :=
  let parts := normalizeNameParts m raw.toNameParts
  { raw with
    surname := parts.surname
    firstName := parts.firstName
    middleName := parts.middleName
    fullName := composeFullName parts
    dateOfBirth := normalizeIdDate u raw.dateOfBirth .past (now 0)
    issueDate := normalizeIdDate u raw.issueDate .past (now 1)
    expiryDate := normalizeIdDate u raw.expiryDate .future (now 2) }

def mergedFields (extracted : ExtractedFields) (mrz : Option MrzParseResult) : ExtractedFields :=
  match mrz with
  | some mrz => if mrz.valid then mergeMrzFields extracted mrz.fields else extracted
  | none => extracted

/-- The model's answer and the machine-readable lines are read before; what follows is computed
from them alone. -/
def executeIdVerification (documentType : IdDocumentType) (extracted : ExtractedFields)
    (mrz : Option MrzParseResult) (expected : Option Expected) (now : ℕ → ℤ) :
    IdVerificationResult :=
  let fields := normalizeFields u m (mergedFields extracted mrz) now
  { documentType := documentType
    fields := fields
    checks :=
      { expiryDate := fields.expiryDate
        expired := isExpired u fields.expiryDate (now 3)
        nameMatch := (expected.bind Expected.fullName).map (namesMatch u fields.fullName)
        dobMatch := (expected.bind Expected.dateOfBirth).map fun dateOfBirth =>
          datesMatch u fields.dateOfBirth dateOfBirth .past (now 4) (now 5)
        numberMatch := (expected.bind Expected.documentNumber).map
          (alnumMatch fields.documentNumber)
        mrzValid := mrz.map MrzParseResult.valid }
    assuranceLevel := "document-content-only" }

variable {u m}

/-- Comparing place by place compares the lists. -/
theorem all_getElem?_iff {α : Type*} [DecidableEq α] {a b : List α} :
    (a.length = b.length ∧ (List.range a.length).all (fun i => a[i]? = b[i]?) = true) ↔ a = b := by
  simp only [List.all_eq_true, List.mem_range, decide_eq_true_eq]
  constructor
  · rintro ⟨hlen, hall⟩
    refine List.ext_getElem? fun i => ?_
    by_cases hi : i < a.length
    · exact hall i hi
    · rw [List.getElem?_eq_none (not_lt.mp hi), List.getElem?_eq_none (hlen ▸ not_lt.mp hi)]
  · rintro rfl
    exact ⟨rfl, fun _ _ => rfl⟩

theorem namesMatch_iff {actual : Option (List Char)} {expected : List Char} :
    namesMatch u actual expected = true ↔ ∃ name, actual = some name ∧ nameTokens u name ≠ [] ∧
      nameTokens u name = nameTokens u expected := by
  cases actual with
  | none => simp [namesMatch]
  | some name =>
    simp only [namesMatch, Bool.and_eq_true, decide_eq_true_eq, and_assoc, List.length_pos_iff,
      Option.some.injEq, exists_eq_left']
    rw [all_getElem?_iff]

/-- The names in any order, but all of them. -/
example : namesMatch latin (some "Obi, Ada Chioma".toList) "ADA CHIOMA OBI".toList = true ∧
    namesMatch latin (some "ADA NGOZI OBI".toList) "ADA OBI".toList = false := by
  decide +kernel

theorem datesMatch_iff {actual : Option (List Char)} {expected : List Char} {century : Century}
    {first second : ℤ} :
    datesMatch u actual expected century first second = true ↔
      ∃ iso, parseIdDate u actual century first = some iso ∧
        parseIdDate u (some expected) century second = some iso := by
  simp only [datesMatch]
  cases parseIdDate u actual century first with
  | none => simp
  | some iso => simp [eq_comm]

theorem alnumMatch_iff {actual : Option (List Char)} {expected : List Char} :
    alnumMatch actual expected = true ↔ ∃ number, actual = some number ∧
      norm number = norm expected := by
  cases actual with
  | none => simp [alnumMatch]
  | some number => simp [alnumMatch]

/-- A check that holds compares something of the document with something expected. -/
structure SoundChecks (u : Unicode) (expected : Option Expected) (now : ℕ → ℤ)
    (result : IdVerificationResult) : Prop where
  name : result.checks.nameMatch = some true → ∃ name e, result.fields.fullName = some name ∧
    expected.bind Expected.fullName = some e ∧ nameTokens u name ≠ [] ∧
    nameTokens u name = nameTokens u e
  dob : result.checks.dobMatch = some true → ∃ dob e iso, result.fields.dateOfBirth = some dob ∧
    expected.bind Expected.dateOfBirth = some e ∧
    parseIdDate u (some dob) .past (now 4) = some iso ∧
    parseIdDate u (some e) .past (now 5) = some iso
  number : result.checks.numberMatch = some true →
    ∃ number e, result.fields.documentNumber = some number ∧
      expected.bind Expected.documentNumber = some e ∧ norm number ≠ [] ∧ norm number = norm e

/-- The document's number and the one expected are not both without letters and digits. -/
def NumberHasContent (extracted : ExtractedFields) (mrz : Option MrzParseResult)
    (expected : Option Expected) : Prop :=
  ∀ number e, (mergedFields extracted mrz).documentNumber = some number →
    expected.bind Expected.documentNumber = some e → norm number ≠ [] ∨ norm e ≠ []

/-- The checks are sound exactly when there is something in the numbers to compare. -/
theorem soundChecks_iff (u : Unicode) (m : CaseMap) (documentType : IdDocumentType)
    (extracted : ExtractedFields) (mrz : Option MrzParseResult) (expected : Option Expected)
    (now : ℕ → ℤ) :
    SoundChecks u expected now
        (executeIdVerification u m documentType extracted mrz expected now) ↔
      NumberHasContent extracted mrz expected := by
  constructor
  · intro hsound number e hnumber he
    by_contra hempty
    obtain ⟨hnumber', he'⟩ := not_or.mp hempty
    rw [not_not] at hnumber' he'
    have hmatch : (executeIdVerification u m documentType extracted mrz expected
        now).checks.numberMatch = some true := by
      simp only [executeIdVerification, normalizeFields, he, hnumber, Option.map_some]
      rw [alnumMatch, hnumber', he']
      rfl
    obtain ⟨number'', e'', hfield, -, hne, -⟩ := hsound.number hmatch
    obtain rfl : number = number'' := Option.some.inj (hnumber.symm.trans hfield)
    exact hne hnumber'
  · intro hcontent
    refine ⟨fun hmatch => ?_, fun hmatch => ?_, fun hmatch => ?_⟩
    · obtain ⟨e, he, hmatch⟩ := Option.map_eq_some_iff.mp hmatch
      obtain ⟨name, hname, hne, hsame⟩ := namesMatch_iff.mp hmatch
      exact ⟨name, e, hname, he, hne, hsame⟩
    · obtain ⟨e, he, hmatch⟩ := Option.map_eq_some_iff.mp hmatch
      obtain ⟨iso, hactual, hexpected⟩ := datesMatch_iff.mp hmatch
      cases hdob : (normalizeFields u m (mergedFields extracted mrz) now).dateOfBirth with
      | none =>
        rw [hdob] at hactual
        cases hactual
      | some dob =>
        rw [hdob] at hactual
        exact ⟨dob, e, iso, hdob, he, hactual, hexpected⟩
    · obtain ⟨e, he, hmatch⟩ := Option.map_eq_some_iff.mp hmatch
      obtain ⟨number, hnumber, hsame⟩ := alnumMatch_iff.mp hmatch
      refine ⟨number, e, hnumber, he, ?_, hsame⟩
      rcases hcontent number e hnumber he with hne | hne
      · exact hne
      · rwa [hsame]

/-- A licence whose number was read as a dash, and nothing else. -/
def dashed : ExtractedFields where
  surname := none
  firstName := none
  middleName := none
  dateOfBirth := none
  documentNumber := some ['-']
  issueDate := none
  expiryDate := none
  nationality := none
  sex := none
  placeOfBirth := none
  address := none
  licenceCategory := none
  issuingAuthority := none

/-- A dash matches the empty number. -/
theorem empty_numbers_match :
    (executeIdVerification latin .latin .DRIVERS_LICENSE dashed none
      (some ⟨none, none, some []⟩)
      fun _ => 0).checks.numberMatch = some true ∧ norm ['-'] = [] := by
  decide

end HeirsOcr.IdVerification
