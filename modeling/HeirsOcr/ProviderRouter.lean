import HeirsOcr.Errors

/-!
# Provider routing

Functions declare the capabilities they need, providers those they have, and the router
picks a primary and an ordered chain of fallbacks. A provider carries its `recognize` as
it answers during one request. The canonical document every provider returns is here
too; bounding boxes and confidences are exact rationals, durations are left out.
-/
namespace HeirsOcr.Providers

inductive MimeGroup where
  | pdf
  | image
  | docx
  | text
  deriving DecidableEq, Repr

def MimeGroup.toText : MimeGroup → String
  | .pdf => "pdf"
  | .image => "image"
  | .docx => "docx"
  | .text => "text"

inductive Capability where
  | text
  | layout
  | tables
  | handwriting
  | seals
  deriving DecidableEq, Repr

def Capability.toText : Capability → String
  | .text => "text"
  | .layout => "layout"
  | .tables => "tables"
  | .handwriting => "handwriting"
  | .seals => "seals"

inductive BlockLabel where
  | image
  | text
  | formula
  | table
  deriving DecidableEq, Repr

/-- A layout region; `bbox` is `[x0, y0, x1, y1]`, each between 0 and 1. -/
structure LayoutBlock where
  index : ℕ
  page : ℕ
  label : BlockLabel
  bbox : Option (ℚ × ℚ × ℚ × ℚ)
  content : String
  deriving DecidableEq

structure PageResult where
  page : ℕ
  markdown : String
  width : Option ℚ
  height : Option ℚ
  deriving DecidableEq

structure RecognizedDocument where
  markdown : String
  plainText : String
  pages : List PageResult
  blocks : List LayoutBlock
  pageCount : ℕ
  provider : String
  fellBackFrom : Option String
  tokensUsed : Option ℕ
  ocrConfidence : Option ℚ
  deriving DecidableEq

abbrev Buffer := List UInt8

/-- The raw input of a provider, its group already sniffed. -/
structure DocumentInput where
  buffer : Buffer
  mimeGroup : MimeGroup
  sha256 : String
  originalName : String
  mime : Option String

structure RecognizeOptions where
  requestId : String
  userIdHash : String

structure OcrProvider where
  name : String
  accepts : List MimeGroup
  capabilities : List Capability
  recognize : DocumentInput → RecognizeOptions → Except String RecognizedDocument

inductive OcrFunctionKey where
  | SIGNING
  | ID_VERIFICATION
  | DOCUMENT_CLASSIFICATION
  | FORM_DATA_EXTRACTION
  | RECEIPT_PARSING
  | TEXT_EXTRACTION
  | RESUME_PARSING
  | DOCUMENT_AUTHENTICITY
  | AUTO_EXTRACTION
  | BUDGET_ANALYSIS
  | EXPENSE_CLAIM
  | LOAN_REVIEW
  | BANK_STATEMENT_ANALYSIS
  deriving DecidableEq, Repr

def OcrFunctionKey.toText : OcrFunctionKey → String
  | .SIGNING => "SIGNING"
  | .ID_VERIFICATION => "ID_VERIFICATION"
  | .DOCUMENT_CLASSIFICATION => "DOCUMENT_CLASSIFICATION"
  | .FORM_DATA_EXTRACTION => "FORM_DATA_EXTRACTION"
  | .RECEIPT_PARSING => "RECEIPT_PARSING"
  | .TEXT_EXTRACTION => "TEXT_EXTRACTION"
  | .RESUME_PARSING => "RESUME_PARSING"
  | .DOCUMENT_AUTHENTICITY => "DOCUMENT_AUTHENTICITY"
  | .AUTO_EXTRACTION => "AUTO_EXTRACTION"
  | .BUDGET_ANALYSIS => "BUDGET_ANALYSIS"
  | .EXPENSE_CLAIM => "EXPENSE_CLAIM"
  | .LOAN_REVIEW => "LOAN_REVIEW"
  | .BANK_STATEMENT_ANALYSIS => "BANK_STATEMENT_ANALYSIS"

structure FallbackChain where
  primary : String
  fallbacks : List String
  deriving DecidableEq

structure PolicyOverride where
  image : Option FallbackChain
  scannedPdf : Option FallbackChain
  deriving DecidableEq

structure ProviderPolicy where
  image : FallbackChain
  scannedPdf : FallbackChain
  overrides : OcrFunctionKey → Option PolicyOverride

/-- A function's override, if any, merged onto the base policy. -/
def policyForFunction (policy : ProviderPolicy) (fn : OcrFunctionKey) : ProviderPolicy :=
  match policy.overrides fn with
  | none => policy
  | some override =>
    { policy with
      image := override.image.getD policy.image
      scannedPdf := override.scannedPdf.getD policy.scannedPdf }

structure RouteInput where
  group : MimeGroup
  required : List Capability
  preferred : List Capability
  fn : OcrFunctionKey
  policy : ProviderPolicy

structure RoutingDecision where
  provider : OcrProvider
  fallbacks : List OcrProvider

/-- The chain of a decision, primary first. -/
def RoutingDecision.chain (d : RoutingDecision) : List OcrProvider := d.provider :: d.fallbacks

def providerSatisfies (provider : OcrProvider) (group : MimeGroup)
    (required : List Capability) : Bool :=
  provider.accepts.contains group && required.all provider.capabilities.contains

/-- The preferred order of provider names, before capabilities are looked at. -/
def preferenceOrder (input : RouteInput) (policy : ProviderPolicy) : List String :=
  match input.group with
  | .docx => ["mammoth"]
  | .text => ["plain-text"]
  | .image => policy.image.primary :: policy.image.fallbacks
  | .pdf =>
    let scanned := policy.scannedPdf.primary :: policy.scannedPdf.fallbacks
    let textOnly := (input.required ++ input.preferred).all (· = .text)
    if textOnly then "pdf-text" :: scanned else scanned

/-- `byName.get`: of several providers with one name the last registered. -/
def byName (registry : List OcrProvider) (name : String) : Option OcrProvider :=
  registry.reverse.find? (·.name = name)

/-- `push`: an instance that satisfies the request and whose name is new. -/
def push (input : RouteInput) (ordered : List OcrProvider) (p : OcrProvider) :
    List OcrProvider :=
  if providerSatisfies p input.group input.required && ordered.all (·.name ≠ p.name) then
    ordered ++ [p]
  else ordered

/-- The policy's names first, then every other provider that satisfies the request. -/
def ordered (registry : List OcrProvider) (input : RouteInput) : List OcrProvider :=
  let order := preferenceOrder input (policyForFunction input.policy input.fn)
  (order.filterMap (byName registry) ++ registry).foldl (push input) []

/-- A stable partition: providers with every preferred capability go first. -/
def ranked (registry : List OcrProvider) (input : RouteInput) : List OcrProvider :=
  let covers := fun p : OcrProvider => input.preferred.all p.capabilities.contains
  if input.preferred = [] then ordered registry input
  else (ordered registry input).filter covers ++ (ordered registry input).filter (!covers ·)

def routeProvider (registry : List OcrProvider) (input : RouteInput) :
    Except OcrError RoutingDecision :=
  match ranked registry input with
  | provider :: fallbacks => .ok ⟨provider, fallbacks⟩
  | [] =>
    let group := input.group.toText
    let required := ", ".intercalate (input.required.map Capability.toText)
    .error (OcrError.of .PROVIDER_UNAVAILABLE
      s!"No provider satisfies {group} with capabilities [{required}]")

theorem foldl_push_satisfies {registry : List OcrProvider} {input : RouteInput}
    {ps acc : List OcrProvider} (hps : ∀ p ∈ ps, p ∈ registry)
    (hacc : ∀ p ∈ acc, p ∈ registry ∧ providerSatisfies p input.group input.required) :
    ∀ p ∈ ps.foldl (push input) acc,
      p ∈ registry ∧ providerSatisfies p input.group input.required := by
  induction ps generalizing acc with
  | nil => exact hacc
  | cons q ps ih =>
    refine ih (fun p hp => hps p (List.mem_cons_of_mem q hp)) fun p hp => ?_
    by_cases hq : providerSatisfies q input.group input.required && acc.all (·.name ≠ q.name)
    · rw [push, if_pos hq] at hp
      rcases List.mem_append.mp hp with hold | hnew
      · exact hacc p hold
      · obtain rfl := List.mem_singleton.mp hnew
        exact ⟨hps p List.mem_cons_self, (Bool.and_eq_true _ _ ▸ hq).1⟩
    · rw [push, if_neg hq] at hp
      exact hacc p hp

theorem mem_of_byName {registry : List OcrProvider} {name : String} {p : OcrProvider}
    (h : byName registry name = some p) : p ∈ registry :=
  List.mem_reverse.mp (List.mem_of_find?_eq_some h)

theorem mem_ordered_of_mem_ranked {registry : List OcrProvider} {input : RouteInput}
    {p : OcrProvider} (h : p ∈ ranked registry input) : p ∈ ordered registry input := by
  simp only [ranked] at h
  split_ifs at h
  · exact h
  · rcases List.mem_append.mp h with h | h <;> exact (List.mem_filter.mp h).1

/-- Whatever the policy names, the chain holds registered providers that accept the group
and have every required capability. -/
theorem satisfies_of_routeProvider {registry : List OcrProvider} {input : RouteInput}
    {d : RoutingDecision} (h : routeProvider registry input = .ok d) :
    ∀ p ∈ d.chain, p ∈ registry ∧ providerSatisfies p input.group input.required := by
  intro p hp
  have hranked : ranked registry input = d.chain := by
    simp only [routeProvider] at h
    split at h
    · rename_i provider fallbacks hr
      obtain rfl : (⟨provider, fallbacks⟩ : RoutingDecision) = d := Except.ok.inj h
      exact hr
    · cases h
  have hregistered : ∀ q ∈ (preferenceOrder input (policyForFunction input.policy
      input.fn)).filterMap (byName registry) ++ registry, q ∈ registry := by
    intro q hq
    rcases List.mem_append.mp hq with hq | hq
    · obtain ⟨name, -, hname⟩ := List.mem_filterMap.mp hq
      exact mem_of_byName hname
    · exact hq
  have hmem : p ∈ ordered registry input := mem_ordered_of_mem_ranked (hranked ▸ hp)
  exact foldl_push_satisfies hregistered (by simp) p hmem

end HeirsOcr.Providers
