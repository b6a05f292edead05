import HeirsOcr.Confidence
import HeirsOcr.Entitlements

/-!
# The document pipeline

Ingest, extract behind the cache, interpret, validate, and what one run reports to the
usage books. `runPipeline` reads the cache it is given and returns the cache it leaves,
the `recognize` calls it made and the data it hands to each recorder. Arguments are any
type of JSON values; sniffing and hashing the bytes are parameters. The answers of the
providers, of the function and of Redis are those of the one request. Times are left out.
-/
namespace HeirsOcr.Pipeline
open Providers Confidence
open Billing (Sensitivity)

/-- Everything `execute` receives that depends on the request. -/
structure OcrContext (Llm : Type) where
  doc : RecognizedDocument
  capabilities : List Capability
  sha256 : String
  mimeGroup : MimeGroup
  sizeBytes : ℕ
  originalName : String
  buffer : Buffer
  requestId : String
  tenantId : String
  llm : Llm
  redactingLogger : Bool

/-- What `execute` throws: a typed error, which passes through, or anything else. -/
inductive Thrown where
  | ocrError (e : OcrError)
  | other (message : String)
  deriving DecidableEq

structure OcrFunctionDefinition (Json Llm TArgs TResult : Type) where
  key : OcrFunctionKey
  accepts : List MimeGroup
  requires : List Capability
  sensitivity : Sensitivity
  prefers : List Capability
  maxPages : ℕ
  skipExtraction : Bool
  argsSchema : Json → Option TArgs
  resultSchema : TArgs → TResult → Option TResult
  execute : OcrContext Llm → TArgs → Except Thrown TResult
  confidenceOf : TResult → TArgs → ConfidenceAssessment

structure SniffResult where
  mime : String
  mimeGroup : MimeGroup

/-- The settings a run reads, and the two functions of the uploaded bytes. -/
structure Environment where
  sniff : Buffer → Option SniffResult
  sha256 : Buffer → String
  LLM_COST_NGN_PER_1K_TOKENS : ℚ
  LOW_CONFIDENCE_THRESHOLD : ℚ

structure OcrRequest (Json : Type) where
  buffer : Buffer
  originalName : String
  args : Option Json
  requestId : String
  tenantId : String
  planMaxPages : Option ℤ

abbrev ExtractionCache := String → Option RecognizedDocument

/-- The dependencies of one run; the two flags say whether Redis fails it at the cache's
`get` and at its `set`. -/
structure PipelineDeps (Llm : Type) where
  llm : Llm
  providers : List OcrProvider
  policy : ProviderPolicy
  getFails : Bool
  setFails : Bool

structure OcrResponseMeta where
  provider : String
  fellBackFrom : Option String
  pageCount : ℕ
  cached : Bool
  confidence : ℚ
  needsReview : Bool
  reviewReasons : List String
  tokensUsed : Option ℕ

inductive Outcome where
  | success
  | error
  deriving DecidableEq, Repr

structure RequestMetrics where
  function : OcrFunctionKey
  mimeGroup : String
  pageCount : ℕ
  provider : String
  fellBackFrom : Option String
  cached : Bool
  tokensUsed : Option ℕ
  estimatedCostNgn : Option ℚ
  outcome : Outcome

structure TenantUsageData where
  outcome : Outcome
  tokensUsed : Option ℕ

structure FunctionUsageData where
  outcome : Outcome
  tokensUsed : Option ℕ
  lowConfidence : Option Bool
  fellBack : Bool

/-- What `archiveAndRecord` gets. -/
structure ArchiveData where
  pageCount : ℕ
  outcome : Outcome
  provider : Option String
  tokensUsed : Option ℕ
  mimeType : Option String

/-- A `recognize` call and its answer. -/
structure RecognizeCall where
  provider : String
  answer : Except String RecognizedDocument

/-- The tokens the provider reported in a call; a failed call reports none. -/
def RecognizeCall.tokens (call : RecognizeCall) : ℕ :=
  match call.answer with
  | .ok doc => doc.tokensUsed.getD 0
  | .error _ => 0

/-- The tokens providers reported in a list of calls. -/
def reported (calls : List RecognizeCall) : ℕ := (calls.map RecognizeCall.tokens).sum

/-- A run: its answer, the cache after it, its calls and what it reports. -/
structure Ran (TResult : Type) where
  response : Except OcrError (TResult × OcrResponseMeta)
  cache : ExtractionCache
  calls : List RecognizeCall
  request : RequestMetrics
  tenantUsage : TenantUsageData
  functionUsage : FunctionUsageData
  archived : ArchiveData

/-- How far a run got, for its error path. -/
structure Progress where
  input : Option DocumentInput
  doc : Option RecognizedDocument
  cached : Bool

variable {Json Llm TArgs TResult : Type}

def extractionCacheKey (sha256 provider : String) (pageRange : Option (ℕ × ℕ)) : String :=
  let pages := pageRange.elim "all" fun range => toString range.1 ++ "-" ++ toString range.2
  s!"ocr:extract:{sha256}:{provider}:{pages}"

/-- The placeholder of functions that work on the raw bytes. -/
def emptyDocument : RecognizedDocument where
  markdown := ""
  plainText := ""
  pages := []
  blocks := []
  pageCount := 0
  provider := "none"
  fellBackFrom := none
  tokensUsed := none
  ocrConfidence := none

/-- `parseArgs`; absent arguments are the empty object. -/
def parseArgs [EmptyCollection Json] (fn : OcrFunctionDefinition Json Llm TArgs TResult)
    (raw : Option Json) : Except OcrError TArgs :=
  match fn.argsSchema (raw.getD ∅) with
  | some args => .ok args
  | none => .error (OcrError.of .INVALID_ARGS "Invalid function arguments")

def ingest (env : Environment) (req : OcrRequest Json) : Except OcrError DocumentInput :=
  match env.sniff req.buffer with
  | none =>
    .error (OcrError.of .UNSUPPORTED_MEDIA_TYPE "Could not determine a supported file type")
  | some sniffed =>
    .ok ⟨req.buffer, sniffed.mimeGroup, env.sha256 req.buffer, req.originalName,
      some sniffed.mime⟩

/-- The loop of `recognizeWithFallback`: the first provider that answers, stamped when it
is not the primary. -/
def recognizeFrom (primary : String) (input : DocumentInput) (opts : RecognizeOptions) :
    Bool → List OcrProvider → List RecognizeCall × Option RecognizedDocument
  | _, [] => ([], none)
  | fallback, provider :: chain =>
    let answer := provider.recognize input opts
    match answer with
    | .ok doc =>
      ([⟨provider.name, answer⟩],
        some (if fallback then { doc with fellBackFrom := some primary } else doc))
    | .error _ =>
      let rest := recognizeFrom primary input opts true chain
      (⟨provider.name, answer⟩ :: rest.1, rest.2)

def recognizeWithFallback (decision : RoutingDecision) (input : DocumentInput)
    (opts : RecognizeOptions) : List RecognizeCall × Except OcrError RecognizedDocument :=
  let attempts := recognizeFrom decision.provider.name input opts false decision.chain
  (attempts.1,
    match attempts.2 with
    | some doc => .ok doc
    | none =>
      let names := ", ".intercalate (decision.chain.map OcrProvider.name)
      .error ⟨.EXTRACTION_FAILED, s!"All providers failed: {names}", true⟩)

def usesCache (fn : OcrFunctionDefinition Json Llm TArgs TResult) : Bool :=
  fn.sensitivity = .standard

def routeInput (fn : OcrFunctionDefinition Json Llm TArgs TResult) (input : DocumentInput)
    (deps : PipelineDeps Llm) : RouteInput :=
  ⟨input.mimeGroup, fn.requires, fn.prefers, fn.key, deps.policy⟩

/-- The document the cache answers with, looked up under the primary's key. -/
def cachedDocument (fn : OcrFunctionDefinition Json Llm TArgs TResult) (input : DocumentInput)
    (deps : PipelineDeps Llm) (cache : ExtractionCache) (provider : OcrProvider) :
    Option RecognizedDocument :=
  if usesCache fn && !deps.getFails then
    cache (extractionCacheKey input.sha256 provider.name none)
  else none

/-- `cache.set`, under the key of the provider that ran. -/
def storeDocument (fn : OcrFunctionDefinition Json Llm TArgs TResult) (input : DocumentInput)
    (deps : PipelineDeps Llm) (cache : ExtractionCache) (doc : RecognizedDocument) :
    ExtractionCache :=
  if usesCache fn && !deps.setFails then
    Function.update cache (extractionCacheKey input.sha256 doc.provider none) (some doc)
  else cache

/-- An extraction: the document and whether it came from the cache, the cache after it,
and the calls it made. -/
structure Extracted where
  output : Except OcrError (RecognizedDocument × Bool)
  cache : ExtractionCache
  calls : List RecognizeCall

def extractDocument (fn : OcrFunctionDefinition Json Llm TArgs TResult) (input : DocumentInput)
    (opts : RecognizeOptions) (deps : PipelineDeps Llm) (cache : ExtractionCache) : Extracted :=
  match routeProvider deps.providers (routeInput fn input deps) with
  | .error e => ⟨.error e, cache, []⟩
  | .ok decision =>
    match cachedDocument fn input deps cache decision.provider with
    | some hit => ⟨.ok (hit, true), cache, []⟩
    | none =>
      let recognized := recognizeWithFallback decision input opts
      match recognized.2 with
      | .error e => ⟨.error e, cache, recognized.1⟩
      | .ok doc => ⟨.ok (doc, false), storeDocument fn input deps cache doc, recognized.1⟩

def interpret (fn : OcrFunctionDefinition Json Llm TArgs TResult) (ctx : OcrContext Llm)
    (args : TArgs) : Except OcrError TResult :=
  match fn.execute ctx args with
  | .error (.ocrError e) => .error e
  | .error (.other _) =>
    .error (OcrError.of .INTERPRETATION_FAILED s!"{fn.key.toText} execution failed")
  | .ok raw =>
    match fn.resultSchema args raw with
    | some result => .ok result
    | none =>
      .error (OcrError.of .SCHEMA_VALIDATION_FAILED s!"{fn.key.toText} produced an invalid result")

/-- What is settled before extraction; an error comes with the input, if there is one. -/
def prepare [EmptyCollection Json] (env : Environment)
    (fn : OcrFunctionDefinition Json Llm TArgs TResult) (req : OcrRequest Json) :
    Except (OcrError × Option DocumentInput) (TArgs × DocumentInput) :=
  match parseArgs fn req.args with
  | .error e => .error (e, none)
  | .ok args =>
    match ingest env req with
    | .error e => .error (e, none)
    | .ok input =>
      if fn.accepts.contains input.mimeGroup then .ok (args, input)
      else
        let group := input.mimeGroup.toText
        .error (OcrError.of .UNSUPPORTED_MEDIA_TYPE
          s!"{fn.key.toText} does not accept {group} files", some input)

/-- The page limits of the function and of the plan. -/
def checkPages (fn : OcrFunctionDefinition Json Llm TArgs TResult) (req : OcrRequest Json)
    (doc : RecognizedDocument) : Except OcrError Unit :=
  if fn.maxPages < doc.pageCount then
    .error (OcrError.of .PAGE_LIMIT_EXCEEDED
      s!"{fn.key.toText} allows {fn.maxPages} pages; got {doc.pageCount}")
  else
    match req.planMaxPages with
    | none => .ok ()
    | some planMaxPages =>
      if planMaxPages < doc.pageCount then
        .error (OcrError.of .PAGE_LIMIT_EXCEEDED
          s!"Your plan allows {planMaxPages} pages per document; got {doc.pageCount}")
      else .ok ()

def contextOf (fn : OcrFunctionDefinition Json Llm TArgs TResult) (req : OcrRequest Json)
    (deps : PipelineDeps Llm) (input : DocumentInput) (doc : RecognizedDocument) :
    OcrContext Llm where
  doc := doc
  capabilities := ((deps.providers.find? (·.name = doc.provider)).map
    OcrProvider.capabilities).getD []
  sha256 := input.sha256
  mimeGroup := input.mimeGroup
  sizeBytes := input.buffer.length
  originalName := input.originalName
  buffer := input.buffer
  requestId := req.requestId
  tenantId := req.tenantId
  llm := deps.llm
  redactingLogger := fn.sensitivity ≠ .standard

/-- The price of the tokens; without tokens or without a rate there is none. -/
def estimatedCost (env : Environment) (tokensUsed : Option ℕ) : Option ℚ :=
  match tokensUsed with
  | none => none
  | some tokens =>
    if tokens = 0 ∨ env.LLM_COST_NGN_PER_1K_TOKENS = 0 then none
    else some (tokens / 1000 * env.LLM_COST_NGN_PER_1K_TOKENS)

/-- The error path: the failed request is recorded with however far it got. -/
def failed (fn : OcrFunctionDefinition Json Llm TArgs TResult) (p : Progress)
    (cache : ExtractionCache) (calls : List RecognizeCall) (e : OcrError) : Ran TResult :=
  let tokensUsed := p.doc.bind RecognizedDocument.tokensUsed
  let fellBackFrom := p.doc.bind RecognizedDocument.fellBackFrom
  let pageCount := p.doc.elim 0 RecognizedDocument.pageCount
  { response := .error e
    cache := cache
    calls := calls
    request :=
      { function := fn.key
        mimeGroup := p.input.elim "unknown" fun input => input.mimeGroup.toText
        pageCount := pageCount
        provider := p.doc.elim "none" RecognizedDocument.provider
        fellBackFrom := fellBackFrom
        cached := p.cached
        tokensUsed := tokensUsed
        estimatedCostNgn := none
        outcome := .error }
    tenantUsage := ⟨.error, tokensUsed⟩
    functionUsage := ⟨.error, tokensUsed, none, fellBackFrom.isSome⟩
    archived :=
      { pageCount := pageCount
        outcome := .error
        provider := p.doc.map RecognizedDocument.provider
        tokensUsed := tokensUsed
        mimeType := p.input.bind DocumentInput.mime } }

/-- The success path: the result is scored and the request recorded. -/
def succeeded (env : Environment) (fn : OcrFunctionDefinition Json Llm TArgs TResult)
    (input : DocumentInput) (doc : RecognizedDocument) (cached : Bool) (cache : ExtractionCache)
    (calls : List RecognizeCall) (args : TArgs) (result : TResult) : Ran TResult :=
  let assessment := withExtraction doc (fn.confidenceOf result args)
  let needsReview : Bool := assessment.score < env.LOW_CONFIDENCE_THRESHOLD
  { response := .ok (result,
      { provider := doc.provider
        fellBackFrom := doc.fellBackFrom
        pageCount := doc.pageCount
        cached := cached
        confidence := assessment.score
        needsReview := needsReview
        reviewReasons := assessment.reasons
        tokensUsed := doc.tokensUsed })
    cache := cache
    calls := calls
    request :=
      { function := fn.key
        mimeGroup := input.mimeGroup.toText
        pageCount := doc.pageCount
        provider := doc.provider
        fellBackFrom := doc.fellBackFrom
        cached := cached
        tokensUsed := doc.tokensUsed
        estimatedCostNgn := estimatedCost env doc.tokensUsed
        outcome := .success }
    tenantUsage := ⟨.success, doc.tokensUsed⟩
    functionUsage := ⟨.success, doc.tokensUsed, some needsReview, doc.fellBackFrom.isSome⟩
    archived :=
      { pageCount := doc.pageCount
        outcome := .success
        provider := some doc.provider
        tokensUsed := doc.tokensUsed
        mimeType := input.mime } }

/-- The extraction stage of a run; functions that work on the raw bytes skip it. -/
def extraction (fn : OcrFunctionDefinition Json Llm TArgs TResult) (req : OcrRequest Json)
    (deps : PipelineDeps Llm) (cache : ExtractionCache) (input : DocumentInput) : Extracted :=
  if fn.skipExtraction then ⟨.ok (emptyDocument, false), cache, []⟩
  else extractDocument fn input ⟨req.requestId, req.tenantId⟩ deps cache

def runPipeline [EmptyCollection Json] (env : Environment)
    (fn : OcrFunctionDefinition Json Llm TArgs TResult) (req : OcrRequest Json)
    (deps : PipelineDeps Llm) (cache : ExtractionCache) : Ran TResult :=
  match prepare env fn req with
  | .error (e, input) => failed fn ⟨input, none, false⟩ cache [] e
  | .ok (args, input) =>
    let extracted := extraction fn req deps cache input
    match extracted.output with
    | .error e => failed fn ⟨some input, none, false⟩ extracted.cache extracted.calls e
    | .ok (doc, cached) =>
      let progress : Progress := ⟨some input, some doc, cached⟩
      match checkPages fn req doc with
      | .error e => failed fn progress extracted.cache extracted.calls e
      | .ok () =>
        match interpret fn (contextOf fn req deps input doc) args with
        | .error e => failed fn progress extracted.cache extracted.calls e
        | .ok result =>
          succeeded env fn input doc cached extracted.cache extracted.calls args result

end HeirsOcr.Pipeline
