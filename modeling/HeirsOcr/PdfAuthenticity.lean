import Mathlib.Data.List.TakeWhile
import HeirsOcr.Calendar
import HeirsOcr.DecimalText
import HeirsOcr.Scanner

/-!
# Signs of tampering in a PDF

What the bytes of a PDF and its metadata say about edits. A signature covers two stretches of the
file, with the signature itself between them, and the last one stated in the file is looked at. Of
the four numbers that state it only the end is compared with the length of the file.
-/
namespace HeirsOcr.Authenticity
open JsText AddressText DecimalText Calendar Scanner

inductive TamperVerdict where
  | clean
  | suspicious
  | likelyDoctored
  | inconclusive
  deriving DecidableEq

inductive TamperSeverity where
  | info
  | low
  | medium
  | high
  deriving DecidableEq

inductive Analyzer where
  | pdf
  | image
  | unsupported
  deriving DecidableEq

structure TamperSignal where
  code : String
  severity : TamperSeverity
  detail : String
  deriving DecidableEq

structure TamperSignals where
  verdict : TamperVerdict
  score : ℚ
  signals : List TamperSignal
  assuranceLevel : String
  analyzer : Analyzer
  notes : List String

def WEIGHT : TamperSeverity → ℚ
  | .info => 0
  | .low => 15 / 100
  | .medium => 4 / 10
  | .high => 8 / 10

/-- The weights combined as independent evidence, to three decimals. -/
def scoreSignals (signals : List TamperSignal) : ℚ :=
  let clean := signals.foldl (fun acc s => acc * (1 - WEIGHT s.severity)) 1
  ⌊(1 - clean) * 1000 + 1 / 2⌋ / 1000

def verdictFor (signals : List TamperSignal) (score : ℚ) : TamperVerdict :=
  if signals.any fun s => s.severity = .high then .likelyDoctored
  else if (signals.any fun s => s.severity = .medium) || 35 / 100 ≤ score then .suspicious
  else .clean

def aggregate (analyzer : Analyzer) (signals : List TamperSignal) (notes : List String) :
    TamperSignals :=
  let score := scoreSignals signals
  { verdict := if analyzer = .unsupported then .inconclusive else verdictFor signals score
    score := score
    signals := signals
    assuranceLevel := "heuristic-only"
    analyzer := analyzer
    notes := notes }

/-- `buffer.toString("latin1")`: a character for each byte. -/
def latin1 (buffer : List UInt8) : List Char := buffer.map fun b => Char.ofNat b.toNat

def countOccurrences (haystack needle : List Char) : ℕ :=
  (scan (fun cs => if needle.isPrefixOf cs then some ((), needle.length) else none) 0
    haystack).length

def includes (haystack needle : List Char) : Bool :=
  haystack.tails.any fun cs => needle.isPrefixOf cs

/-- The stretches a signature covers: where each begins, and how long it is. -/
structure ByteRange where
  first : ℕ
  firstLength : ℕ
  second : ℕ
  secondLength : ℕ
  deriving DecidableEq

/-- What is left of a text behind a beginning. -/
def expect (start cs : List Char) : Option (List Char) :=
  if start.isPrefixOf cs then some (cs.drop start.length) else none

/-- `\s+`. -/
def spaces (cs : List Char) : Option (List Char) :=
  if cs.takeWhile isSpace = [] then none else some (cs.dropWhile isSpace)

/-- `(\d+)`. A number past 2^53 is rounded, which leaves it past the length of any file. -/
def digits (cs : List Char) : Option (ℕ × List Char) :=
  if cs.takeWhile isDigit = [] then none
  else some (decValue (cs.takeWhile isDigit), cs.dropWhile isDigit)

/-- `/\/ByteRange\s*\[\s*(\d+)\s+(\d+)\s+(\d+)\s+(\d+)\s*\]/` at the beginning of a text, and the
length of the match. No two neighbours of the expression share a character, so each takes all it
can. -/
def matchByteRange (cs : List Char) : Option (ByteRange × ℕ) := do
  let rest ← expect "/ByteRange".toList cs
  let rest ← expect ['['] (rest.dropWhile isSpace)
  let (first, rest) ← digits (rest.dropWhile isSpace)
  let rest ← spaces rest
  let (firstLength, rest) ← digits rest
  let rest ← spaces rest
  let (second, rest) ← digits rest
  let rest ← spaces rest
  let (secondLength, rest) ← digits rest
  let rest ← expect [']'] (rest.dropWhile isSpace)
  some (⟨first, firstLength, second, secondLength⟩, cs.length - rest.length)

def lastByteRange (raw : List Char) : Option ByteRange := (scan matchByteRange 0 raw).getLast?

/-- A loaded document; a reading may throw, and a date is in milliseconds. -/
structure PdfDocument where
  getProducer : Except Unit (Option String)
  getCreator : Except Unit (Option String)
  getCreationDate : Except Unit (Option ℤ)
  getModificationDate : Except Unit (Option ℤ)

def EDITOR_PRODUCERS : List String :=
  ["ilovepdf", "pdf-xchange", "pdfsam", "smallpdf", "sejda", "ghostscript", "foxit", "pdfescape",
    "nitro", "skia/pdf"]

def DEEP_TIER_NOTE : String :=
  "Object-level revision diffing (form-field edits vs. page-content edits) and " ++
    "white-box overlay detection are not performed in this tier."

def safeDate (date : Except Unit (Option ℤ)) : Option ℤ :=
  match date with
  | .ok date => date
  | .error _ => none

/-- `date.toISOString()`. -/
def toISOString (time : ℤ) : String :=
  let date := ofDay (time / 86400000)
  let ms := (time % 86400000).toNat
  let year :=
    if 0 ≤ date.year ∧ date.year ≤ 9999 then decText 4 date.year.toNat
    else (if date.year < 0 then '-' else '+') :: decText 6 date.year.natAbs
  String.ofList (year ++ '-' :: decText 2 date.month ++ '-' :: decText 2 date.day ++
    'T' :: decText 2 (ms / 3600000) ++ ':' :: decText 2 (ms / 60000 % 60) ++
    ':' :: decText 2 (ms / 1000 % 60) ++ '.' :: decText 3 (ms % 1000) ++ ['Z'])

/-- The signals of the metadata; none of them when a reading throws. -/
def metadataSignals (pdf : PdfDocument) : Except Unit (List TamperSignal) := do
  let producer := trim ((← pdf.getProducer).getD "").toList
  let creator := trim ((← pdf.getCreator).getD "").toList
  let producerIsEditor := EDITOR_PRODUCERS.any fun p => includes (toLowerCase producer) p.toList
  let mismatch :=
    if producer ≠ [] ∧ creator ≠ [] ∧ producer ≠ creator ∧ producerIsEditor then
      [⟨"PDF_PRODUCER_CREATOR_MISMATCH", .low,
        "Authored by \"" ++ String.ofList creator ++ "\" but last written by \"" ++
          String.ofList producer ++ "\" (a PDF-editing tool). Corroborating, not conclusive."⟩]
    else []
  let modified :=
    match safeDate pdf.getCreationDate, safeDate pdf.getModificationDate with
    | some created, some modified =>
      if modified - created > 1000 then
        [⟨"PDF_MODIFIED_AFTER_CREATION", .info,
          "Modified (" ++ toISOString modified ++ ") after creation (" ++ toISOString created ++
            "). Expected for a filled form; context only."⟩]
      else []
    | _, _ => []
  return mismatch ++ modified

def formSignals (raw : List Char) : List TamperSignal :=
  let hasAcroForm := includes raw "/AcroForm".toList
  let hasXfa := includes raw "/XFA".toList
  if hasAcroForm || hasXfa then
    [⟨"PDF_HAS_FORM", .info, "Document contains " ++ (if hasXfa then "XFA" else "AcroForm") ++
      " form fields — incremental updates are expected when it is filled."⟩]
  else []

def revisionSignals (raw : List Char) : List TamperSignal :=
  let revisions := countOccurrences raw "%%EOF".toList
  if revisions > 1 then
    [⟨"PDF_MULTIPLE_REVISIONS", .info, "Saved " ++ toString revisions ++
      " times (incremental updates present). Normal for a filled form; suspicious only if a " ++
      "revision modified page content."⟩]
  else []

def signatureSignals (raw : List Char) (length : ℕ) : List TamperSignal :=
  match lastByteRange raw with
  | none => []
  | some byteRange =>
    let signedEnd := byteRange.second + byteRange.secondLength
    ⟨"PDF_SIGNED", .info, "Contains a digital signature (/ByteRange present)."⟩ ::
      -- The end of the second stretch may lie a few bytes before the end of the file.
      if length - signedEnd > 5 then
        [⟨"PDF_POST_SIGNATURE_EDIT", .high, toString (length - signedEnd) ++
          " bytes were appended after the signed range — the signature no longer covers the " ++
          "whole document. Strong tampering indicator (unless the signature is a certification " ++
          "signature that permits form-filling)."⟩]
      else []

/-- `load` reads the structure of the document, and throws when it cannot. -/
def analyzePdf (load : List UInt8 → Except Unit PdfDocument) (buffer : List UInt8) :
    TamperSignals :=
  let raw := latin1 buffer
  let signals := formSignals raw ++ revisionSignals raw ++ signatureSignals raw buffer.length
  match load buffer >>= metadataSignals with
  | .ok metadata => aggregate .pdf (signals ++ metadata) [DEEP_TIER_NOTE]
  | .error _ => aggregate .pdf signals [DEEP_TIER_NOTE,
      "Structured PDF parse failed; only byte-level signals were computed."]

def AllSpace (t : List Char) : Prop := ∀ c ∈ t, isSpace c = true

def IsNumber (t : List Char) : Prop := t ≠ [] ∧ ∀ c ∈ t, isDigit c = true

instance (t : List Char) : Decidable (AllSpace t) :=
  decidable_of_iff (t.all isSpace = true) List.all_eq_true

instance (t : List Char) : Decidable (IsNumber t) :=
  decidable_of_iff (t ≠ [] ∧ t.all isDigit = true) (and_congr_right' List.all_eq_true)

/-- The texts that state a byte range: four numbers in brackets behind the key, space between them
and anywhere around. -/
inductive States : List Char → ByteRange → Prop where
  | range {gap gap' gap'' w w' w'' a b c d : List Char} : AllSpace gap → AllSpace gap' →
      IsNumber a → AllSpace w → w ≠ [] → IsNumber b → AllSpace w' → w' ≠ [] → IsNumber c →
      AllSpace w'' → w'' ≠ [] → IsNumber d → AllSpace gap'' →
      States ("/ByteRange".toList ++ (gap ++ (['['] ++ (gap' ++ (a ++ (w ++ (b ++ (w' ++
        (c ++ (w'' ++ (d ++ (gap'' ++ [']']))))))))))))
        ⟨decValue a, decValue b, decValue c, decValue d⟩

/-- The text begins with nothing of a class. -/
def Stops (p : Char → Bool) (rest : List Char) : Prop := ∀ c ∈ rest.head?, p c = false

theorem takeWhile_stop {p : Char → Bool} {t rest : List Char} (ht : ∀ c ∈ t, p c = true)
    (hrest : Stops p rest) :
    (t ++ rest).takeWhile p = t ∧ (t ++ rest).dropWhile p = rest := by
  rw [List.takeWhile_append_of_pos ht, List.dropWhile_append_of_pos ht]
  cases rest with
  | nil => simp
  | cons c rest => simp [hrest c rfl]

theorem stops_dropWhile (p : Char → Bool) (cs : List Char) : Stops p (cs.dropWhile p) := by
  intro c hc
  have hhead := List.head?_dropWhile_not p cs
  rw [hc] at hhead
  exact hhead

theorem expect_eq_some_iff {start cs rest : List Char} :
    expect start cs = some rest ↔ cs = start ++ rest := by
  rw [expect]
  constructor
  · intro h
    obtain ⟨hstart, hrest⟩ := Option.ite_none_right_eq_some.mp h
    obtain ⟨rest', rfl⟩ := List.isPrefixOf_iff_prefix.mp hstart
    simpa using hrest
  · rintro rfl
    simp

theorem spaces_eq_some_iff {cs rest : List Char} :
    spaces cs = some rest ↔
      ∃ w, cs = w ++ rest ∧ w ≠ [] ∧ AllSpace w ∧ Stops isSpace rest := by
  rw [spaces]
  constructor
  · intro h
    obtain ⟨hne, hrest⟩ := Option.ite_none_left_eq_some.mp h
    obtain rfl := Option.some.inj hrest
    exact ⟨cs.takeWhile isSpace, List.takeWhile_append_dropWhile.symm, hne,
      fun c hc => List.mem_takeWhile_imp hc, stops_dropWhile isSpace cs⟩
  · rintro ⟨w, rfl, hne, hw, hstop⟩
    obtain ⟨htake, hdrop⟩ := takeWhile_stop hw hstop
    rw [htake, hdrop, if_neg hne]

theorem digits_eq_some_iff {cs rest : List Char} {n : ℕ} :
    digits cs = some (n, rest) ↔
      ∃ t, cs = t ++ rest ∧ IsNumber t ∧ Stops isDigit rest ∧ decValue t = n := by
  rw [digits]
  constructor
  · intro h
    obtain ⟨hne, hrest⟩ := Option.ite_none_left_eq_some.mp h
    obtain ⟨rfl, rfl⟩ := Prod.mk.inj (Option.some.inj hrest)
    exact ⟨cs.takeWhile isDigit, List.takeWhile_append_dropWhile.symm,
      ⟨hne, fun c hc => List.mem_takeWhile_imp hc⟩, stops_dropWhile isDigit cs, rfl⟩
  · rintro ⟨t, rfl, ⟨hne, ht⟩, hstop, rfl⟩
    obtain ⟨htake, hdrop⟩ := takeWhile_stop ht hstop
    rw [htake, hdrop, if_neg hne]

theorem exists_gap (cs : List Char) : ∃ gap, cs = gap ++ cs.dropWhile isSpace ∧ AllSpace gap :=
  ⟨cs.takeWhile isSpace, List.takeWhile_append_dropWhile.symm,
    fun _ hc => List.mem_takeWhile_imp hc⟩

/-- What the expression matches states the range it reads. -/
theorem states_of_matchByteRange {cs : List Char} {r : ByteRange} {n : ℕ}
    (h : matchByteRange cs = some (r, n)) :
    ∃ text rest, cs = text ++ rest ∧ text.length = n ∧ States text r := by
  simp only [matchByteRange, Option.bind_eq_bind, Option.bind_eq_some_iff, Prod.exists] at h
  obtain ⟨cs₁, h₁, cs₂, h₂, a, cs₃, h₃, cs₄, h₄, b, cs₅, h₅, cs₆, h₆, c, cs₇, h₇, cs₈, h₈, d, cs₉,
    h₉, rest, h₁₀, hresult⟩ := h
  obtain ⟨gap, hgap, hspace⟩ := exists_gap cs₁
  obtain ⟨gap', hgap', hspace'⟩ := exists_gap cs₂
  obtain ⟨gap'', hgap'', hspace''⟩ := exists_gap cs₉
  rw [expect_eq_some_iff] at h₁ h₂ h₁₀
  obtain ⟨ta, e₃, ha, -, rfl⟩ := digits_eq_some_iff.mp h₃
  obtain ⟨w, e₄, hw, hwspace, -⟩ := spaces_eq_some_iff.mp h₄
  obtain ⟨tb, e₅, hb, -, rfl⟩ := digits_eq_some_iff.mp h₅
  obtain ⟨w', e₆, hw', hwspace', -⟩ := spaces_eq_some_iff.mp h₆
  obtain ⟨tc, e₇, hc, -, rfl⟩ := digits_eq_some_iff.mp h₇
  obtain ⟨w'', e₈, hw'', hwspace'', -⟩ := spaces_eq_some_iff.mp h₈
  obtain ⟨td, e₉, hd, -, rfl⟩ := digits_eq_some_iff.mp h₉
  obtain ⟨rfl, rfl⟩ := Prod.mk.inj (Option.some.inj hresult)
  have hstates := States.range hspace hspace' ha hwspace hw hb hwspace' hw' hc hwspace'' hw'' hd
    hspace''
  have hcs : cs = "/ByteRange".toList ++ (gap ++ (['['] ++ (gap' ++ (ta ++ (w ++ (tb ++ (w' ++
      (tc ++ (w'' ++ (td ++ (gap'' ++ [']']))))))))))) ++ rest := by
    rw [h₁, hgap, h₂, hgap', e₃, e₄, e₅, e₆, e₇, e₈, e₉, hgap'', h₁₀]
    simp only [List.append_assoc]
  refine ⟨_, rest, hcs, Nat.eq_sub_of_add_eq ?_, hstates⟩
  rw [← List.length_append, ← hcs]

theorem stops_append {p : Char → Bool} {t : List Char} (hne : t ≠ [])
    (h : ∀ c ∈ t, p c = false) (rest : List Char) : Stops p (t ++ rest) := by
  intro c hc
  obtain ⟨c', t, rfl⟩ := List.exists_cons_of_ne_nil hne
  obtain rfl := Option.some.inj hc
  exact h _ List.mem_cons_self

theorem not_isSpace_of_isDigit {c : Char} (h : isDigit c = true) : isSpace c = false := by
  simp only [isDigit, Bool.and_eq_true, decide_eq_true_eq] at h
  simp only [isSpace, List.mem_cons, List.not_mem_nil, or_false, Bool.or_eq_false_iff,
    decide_eq_false_iff_not, Bool.and_eq_false_iff]
  omega

theorem not_isDigit_of_isSpace {c : Char} (h : isSpace c = true) : isDigit c = false := by
  rw [← Bool.not_eq_true]
  intro hdigit
  rw [not_isSpace_of_isDigit hdigit] at h
  cases h

section Parts

variable {gap w a : List Char} (hgap : AllSpace gap) (hw : AllSpace w) (hwne : w ≠ [])
  (ha : IsNumber a)

theorem expect_append (start rest : List Char) : expect start (start ++ rest) = some rest :=
  expect_eq_some_iff.mpr rfl

include hgap in
theorem dropGap_bracket {c : Char} (hc : isSpace c = false) (rest : List Char) :
    (gap ++ ([c] ++ rest)).dropWhile isSpace = [c] ++ rest :=
  (takeWhile_stop hgap (stops_append (by simp) (by simpa using hc) rest)).2

include hgap ha in
theorem dropGap_number (rest : List Char) :
    (gap ++ (a ++ rest)).dropWhile isSpace = a ++ rest :=
  (takeWhile_stop hgap (stops_append ha.1 (fun c hc => not_isSpace_of_isDigit (ha.2 c hc))
    rest)).2

include hw hwne ha in
theorem spaces_number (rest : List Char) : spaces (w ++ (a ++ rest)) = some (a ++ rest) :=
  spaces_eq_some_iff.mpr ⟨w, rfl, hwne, hw,
    stops_append ha.1 (fun c hc => not_isSpace_of_isDigit (ha.2 c hc)) rest⟩

include hw hwne ha in
theorem digits_space (rest : List Char) :
    digits (a ++ (w ++ rest)) = some (decValue a, w ++ rest) :=
  digits_eq_some_iff.mpr ⟨a, rfl, ha,
    stops_append hwne (fun c hc => not_isDigit_of_isSpace (hw c hc)) rest, rfl⟩

include hgap ha in
theorem digits_bracket (rest : List Char) :
    digits (a ++ (gap ++ ([']'] ++ rest))) = some (decValue a, gap ++ ([']'] ++ rest)) := by
  refine digits_eq_some_iff.mpr ⟨a, rfl, ha, ?_, rfl⟩
  rw [← List.append_assoc]
  refine stops_append (by simp) (fun c hc => ?_) rest
  rcases List.mem_append.mp hc with hc | hc
  · exact not_isDigit_of_isSpace (hgap c hc)
  · rw [List.mem_singleton.mp hc]
    decide

end Parts

/-- What states a range is matched, whatever comes behind. -/
theorem matchByteRange_of_states {text : List Char} {r : ByteRange} (h : States text r)
    (rest : List Char) : matchByteRange (text ++ rest) = some (r, text.length) := by
  cases h with
  | @range gap gap' gap'' w w' w'' a b c d hgap hgap' ha hw hwne hb hw' hwne' hc hw'' hwne'' hd
      hgap'' =>
    simp only [matchByteRange, List.append_assoc, expect_append, Option.bind_eq_bind,
      Option.bind_some, dropGap_bracket hgap (by decide : isSpace '[' = false),
      dropGap_number hgap' ha, digits_space hw hwne ha, spaces_number hw hwne hb,
      digits_space hw' hwne' hb, spaces_number hw' hwne' hc, digits_space hw'' hwne'' hc,
      spaces_number hw'' hwne'' hd, digits_bracket hgap'' hd,
      dropGap_bracket hgap'' (by decide : isSpace ']' = false)]
    simp only [List.length_append, Option.some.injEq, Prod.mk.injEq, true_and]
    omega

theorem slash_of_matchByteRange {cs : List Char} (h : matchByteRange cs ≠ none) :
    cs.head? = some '/' := by
  obtain ⟨⟨r, n⟩, hmatch⟩ := Option.ne_none_iff_exists'.mp h
  obtain ⟨text, rest, rfl, -, hstates⟩ := states_of_matchByteRange hmatch
  cases hstates
  rfl

/-- A slash stands at the beginning only. -/
theorem States.slash {text : List Char} {r : ByteRange} (h : States text r) :
    '/' ∉ text.tail := by
  have hspace : ∀ {t : List Char}, AllSpace t → '/' ∉ t := fun ht hmem =>
    absurd (ht '/' hmem) (by decide)
  have hnumber : ∀ {t : List Char}, IsNumber t → '/' ∉ t := fun ht hmem =>
    absurd (ht.2 '/' hmem) (by decide)
  cases h with
  | range hgap hgap' ha hw hwne hb hw' hwne' hc hw'' hwne'' hd hgap'' =>
    have htail : ∀ rest : List Char, ("/ByteRange".toList ++ rest).tail =
        "ByteRange".toList ++ rest := fun rest => rfl
    rw [htail]
    simp [hspace hgap, hspace hgap', hspace hgap'', hspace hw, hspace hw', hspace hw'',
      hnumber ha, hnumber hb, hnumber hc, hnumber hd]

theorem apart_matchByteRange : Apart matchByteRange := by
  intro cs r n h i hpos hlt
  obtain ⟨text, rest, rfl, rfl, hstates⟩ := states_of_matchByteRange h
  by_contra hmatch
  have hslash := slash_of_matchByteRange hmatch
  rw [List.head?_drop, List.getElem?_append_left hlt] at hslash
  obtain ⟨j, rfl⟩ := Nat.exists_eq_succ_of_ne_zero hpos.ne'
  refine hstates.slash (List.mem_of_getElem? (i := j) ?_)
  rw [List.getElem?_tail]
  exact hslash

/-- The range is stated in the text, and none is stated further on. -/
def IsLastRange (raw : List Char) (r : ByteRange) : Prop :=
  ∃ before text after, raw = before ++ (text ++ after) ∧ States text r ∧
    ∀ before' text' after' r', raw = before' ++ (text' ++ after') → States text' r' →
      before'.length ≤ before.length

theorem lastByteRange_eq_some_iff {raw : List Char} {r : ByteRange} :
    lastByteRange raw = some r ↔ IsLastRange raw r := by
  rw [lastByteRange, getLast?_scan_eq_some_iff apart_matchByteRange rfl]
  constructor
  · rintro ⟨before, rest, n, rfl, hmatch, hlast⟩
    obtain ⟨text, after, rfl, -, hstates⟩ := states_of_matchByteRange hmatch
    refine ⟨before, text, after, rfl, hstates, fun before' text' after' r' hsplit hstates' => ?_⟩
    refine hlast before' (text' ++ after') hsplit ?_
    rw [matchByteRange_of_states hstates']
    simp
  · rintro ⟨before, text, after, rfl, hstates, hlast⟩
    refine ⟨before, text ++ after, _, rfl, matchByteRange_of_states hstates after,
      fun before' rest' hsplit hmatch => ?_⟩
    obtain ⟨⟨r', n'⟩, hmatch⟩ := Option.ne_none_iff_exists'.mp hmatch
    obtain ⟨text', after', rfl, -, hstates'⟩ := states_of_matchByteRange hmatch
    exact hlast before' text' after' r' hsplit hstates'

/-- In a text that states a range and nothing else, the range is the last. -/
theorem States.isLastRange {text : List Char} {r : ByteRange} (h : States text r) :
    IsLastRange text r := by
  refine ⟨[], text, [], by simp, h, fun before text' after r' hsplit hstates => ?_⟩
  cases before with
  | nil => rfl
  | cons c before =>
    have hslash : '/' ∈ text' := by cases hstates; exact List.mem_append_left _ (by decide)
    refine absurd ?_ h.slash
    rw [hsplit]
    exact List.mem_append_right before (List.mem_append_left after hslash)

/-- No bytes behind the signed range are reported. -/
def NoEditSignal (result : TamperSignals) : Prop :=
  ∀ s ∈ result.signals, s.code ≠ "PDF_POST_SIGNATURE_EDIT"

/-- The two stretches and the gap between them are the file, but for five bytes at the end. -/
def Covers (r : ByteRange) (length : ℕ) : Prop :=
  r.first = 0 ∧ r.first + r.firstLength ≤ r.second ∧
    length ≤ r.second + r.secondLength + 5 ∧ r.second + r.secondLength ≤ length

/-- The stretches lie in the file in order from its first byte on. -/
def InPlace (r : ByteRange) (length : ℕ) : Prop :=
  r.first = 0 ∧ r.first + r.firstLength ≤ r.second ∧ r.second + r.secondLength ≤ length

variable {load : List UInt8 → Except Unit PdfDocument} {buffer : List UInt8}

/-- A signal that is not about bytes behind a signature. -/
def IsQuiet (s : TamperSignal) : Prop :=
  s.code ≠ "PDF_POST_SIGNATURE_EDIT" ∧ s.severity ≠ .high

theorem isQuiet_of_mem_ite {p : Prop} [Decidable p] {signal s : TamperSignal}
    (hsignal : IsQuiet signal) (hs : s ∈ if p then [signal] else []) : IsQuiet s := by
  split_ifs at hs
  · rwa [List.mem_singleton.mp hs]
  · cases hs

theorem isQuiet_mk {code : String} {severity : TamperSeverity}
    (hcode : code ≠ "PDF_POST_SIGNATURE_EDIT") (hseverity : severity ≠ .high) (detail : String) :
    IsQuiet ⟨code, severity, detail⟩ :=
  ⟨hcode, hseverity⟩

theorem formSignals_quiet (raw : List Char) : ∀ s ∈ formSignals raw, IsQuiet s :=
  fun _ hs => isQuiet_of_mem_ite (isQuiet_mk (by decide) (by decide) _) hs

theorem revisionSignals_quiet (raw : List Char) : ∀ s ∈ revisionSignals raw, IsQuiet s :=
  fun _ hs => isQuiet_of_mem_ite (isQuiet_mk (by decide) (by decide) _) hs

theorem metadataSignals_quiet {pdf : PdfDocument} {signals : List TamperSignal}
    (h : metadataSignals pdf = .ok signals) : ∀ s ∈ signals, IsQuiet s := by
  intro s hs
  rw [metadataSignals] at h
  cases hproducer : pdf.getProducer with
  | error e =>
    rw [hproducer] at h
    cases h
  | ok producer =>
    cases hcreator : pdf.getCreator with
    | error e =>
      rw [hproducer, hcreator] at h
      cases h
    | ok creator =>
      rw [hproducer, hcreator] at h
      obtain rfl := Except.ok.inj h
      rcases List.mem_append.mp hs with hs | hs
      · exact isQuiet_of_mem_ite (isQuiet_mk (by decide) (by decide) _) hs
      · split at hs
        · exact isQuiet_of_mem_ite (isQuiet_mk (by decide) (by decide) _) hs
        · cases hs

/-- Around the signals of the signature stand quiet ones. -/
theorem exists_signals (load : List UInt8 → Except Unit PdfDocument) (buffer : List UInt8) :
    ∃ before metadata, (∀ s ∈ before, IsQuiet s) ∧ (∀ s ∈ metadata, IsQuiet s) ∧
      ∃ notes, analyzePdf load buffer = aggregate .pdf
        (before ++ signatureSignals (latin1 buffer) buffer.length ++ metadata) notes := by
  have hbefore : ∀ s ∈ formSignals (latin1 buffer) ++ revisionSignals (latin1 buffer),
      IsQuiet s := by
    intro s hs
    rcases List.mem_append.mp hs with hs | hs
    · exact formSignals_quiet _ s hs
    · exact revisionSignals_quiet _ s hs
  cases hload : load buffer >>= metadataSignals with
  | error e =>
    refine ⟨_, [], hbefore, by simp, [DEEP_TIER_NOTE,
      "Structured PDF parse failed; only byte-level signals were computed."], ?_⟩
    simp only [analyzePdf, hload, List.append_nil]
  | ok metadata =>
    refine ⟨_, metadata, hbefore, ?_, [DEEP_TIER_NOTE], ?_⟩
    · cases hpdf : load buffer with
      | error e =>
        rw [hpdf] at hload
        cases hload
      | ok pdf =>
        rw [hpdf] at hload
        exact metadataSignals_quiet hload
    · simp only [analyzePdf, hload]

/-- A signal of the signature is grave when it is about bytes behind it, and only then. -/
theorem signatureSignals_high {raw : List Char} {length : ℕ} :
    ∀ s ∈ signatureSignals raw length,
      s.severity = .high ↔ s.code = "PDF_POST_SIGNATURE_EDIT" := by
  intro s hs
  rw [signatureSignals] at hs
  cases hlast : lastByteRange raw with
  | none =>
    rw [hlast] at hs
    cases hs
  | some byteRange =>
    rw [hlast] at hs
    rcases List.mem_cons.mp hs with rfl | hs
    · exact iff_of_false (by simp) (by simp)
    · split_ifs at hs
      · rw [List.mem_singleton.mp hs]
        exact iff_of_true rfl rfl
      · cases hs

theorem noEditSignal_iff_signature : NoEditSignal (analyzePdf load buffer) ↔
    ∀ s ∈ signatureSignals (latin1 buffer) buffer.length,
      s.code ≠ "PDF_POST_SIGNATURE_EDIT" := by
  obtain ⟨before, metadata, hbefore, hmetadata, notes, hresult⟩ := exists_signals load buffer
  have hsignals : (analyzePdf load buffer).signals =
      before ++ signatureSignals (latin1 buffer) buffer.length ++ metadata := by
    rw [hresult, aggregate]
  rw [NoEditSignal, hsignals]
  simp only [List.mem_append]
  constructor
  · exact fun h s hs => h s (.inl (.inr hs))
  · rintro h s ((hs | hs) | hs)
    · exact (hbefore s hs).1
    · exact h s hs
    · exact (hmetadata s hs).1

/-- A document is called doctored for bytes behind its signature, and for nothing else. -/
theorem verdict_eq_likelyDoctored_iff :
    (analyzePdf load buffer).verdict = .likelyDoctored ↔
      ¬NoEditSignal (analyzePdf load buffer) := by
  obtain ⟨before, metadata, hbefore, hmetadata, notes, hresult⟩ := exists_signals load buffer
  have hverdict : ∀ signals score, verdictFor signals score = .likelyDoctored ↔
      ∃ s ∈ signals, s.severity = .high := by
    intro signals score
    rw [verdictFor]
    split_ifs with hhigh hmedium
    · simpa using hhigh
    · simpa using hhigh
    · simpa using hhigh
  have hdoctored : (analyzePdf load buffer).verdict = .likelyDoctored ↔
      ∃ s ∈ before ++ signatureSignals (latin1 buffer) buffer.length ++ metadata,
        s.severity = .high := by
    rw [hresult, aggregate]
    exact hverdict _ _
  rw [hdoctored, noEditSignal_iff_signature]
  simp only [List.mem_append, not_forall, not_not, exists_prop]
  constructor
  · rintro ⟨s, (hs | hs) | hs, hhigh⟩
    · exact absurd hhigh (hbefore s hs).2
    · exact ⟨s, hs, (signatureSignals_high s hs).mp hhigh⟩
    · exact absurd hhigh (hmetadata s hs).2
  · rintro ⟨s, hs, hcode⟩
    exact ⟨s, .inl (.inr hs), (signatureSignals_high s hs).mpr hcode⟩

/-- The signal is raised when the last range ends more than five bytes before the file. -/
theorem noEditSignal_iff {r : ByteRange} (h : IsLastRange (latin1 buffer) r) :
    NoEditSignal (analyzePdf load buffer) ↔ buffer.length ≤ r.second + r.secondLength + 5 := by
  rw [noEditSignal_iff_signature, signatureSignals, lastByteRange_eq_some_iff.mpr h]
  by_cases hlate : buffer.length - (r.second + r.secondLength) > 5
  · simp only [if_pos hlate]
    refine iff_of_false (fun hnone => ?_) (by omega)
    exact hnone _ (List.mem_cons_of_mem _ List.mem_cons_self) rfl
  · simp only [if_neg hlate]
    refine iff_of_true (fun s hs => ?_) (by omega)
    rw [List.mem_singleton.mp hs]
    simp

/-- Without the signal the last signature covers the file exactly when its range ends too early,
which the signal tells, or its stretches lie in place. -/
theorem signature_covers_iff (load : List UInt8 → Except Unit PdfDocument) (buffer : List UInt8) :
    (∀ r, IsLastRange (latin1 buffer) r → NoEditSignal (analyzePdf load buffer) →
      Covers r buffer.length) ↔
    ∀ r, IsLastRange (latin1 buffer) r →
      r.second + r.secondLength + 5 < buffer.length ∨ InPlace r buffer.length := by
  refine forall_congr' fun r => forall_congr' fun hlast => ?_
  rw [noEditSignal_iff hlast, Covers, InPlace]
  omega

/-- A range that ends far behind the end of the file raises no signal. -/
theorem range_past_the_end : ¬∀ (load : List UInt8 → Except Unit PdfDocument)
    (buffer : List UInt8) (r : ByteRange), IsLastRange (latin1 buffer) r →
      NoEditSignal (analyzePdf load buffer) → Covers r buffer.length := by
  intro h
  let buffer : List UInt8 := "/ByteRange [0 10 20 900]".toList.map fun c => UInt8.ofNat c.toNat
  have hstates : States (latin1 buffer) ⟨0, 10, 20, 900⟩ :=
    @States.range [' '] [] [] [' '] [' '] [' '] "0".toList "10".toList "20".toList "900".toList
      (by decide) (by decide) (by decide) (by decide) (by decide) (by decide) (by decide)
      (by decide) (by decide) (by decide) (by decide) (by decide) (by decide)
  have hquiet : NoEditSignal (analyzePdf (fun _ => .error ()) buffer) := by
    rw [noEditSignal_iff hstates.isLastRange]
    decide
  have hcovers := h (fun _ => .error ()) buffer _ hstates.isLastRange hquiet
  have hpast : ¬20 + 900 ≤ buffer.length := by decide
  exact hpast hcovers.2.2.2

end HeirsOcr.Authenticity
