import HeirsOcr.KeyedBooks
import HeirsOcr.Pipeline
import HeirsOcr.StepMachine

/-!
# Token accounting over runs of the pipeline

The usage books next to the extraction cache, and the runs that write both. Every run is
kept in a history with the `recognize` calls it made, and every book is held against what
the providers reported in all of them. A cached document brings its tokens along a second
time, and a run that fails after its document was recognized reports them to no `meta`.
-/
namespace HeirsOcr.Pipeline
open Providers StepMachine KeyedBooks

structure TenantUsage where
  requests : ℕ
  errors : ℕ
  tokens : ℕ

structure FunctionUsage where
  requests : ℕ
  errors : ℕ
  tokens : ℕ
  confidenceObservations : ℕ
  lowConfidence : ℕ
  fallbacks : ℕ

def recordTenantUsage (usage : String → TenantUsage) (tenantId : String)
    (data : TenantUsageData) : String → TenantUsage :=
  let row := usage tenantId
  Function.update usage tenantId
    { requests := row.requests + 1
      errors := row.errors + (if data.outcome = .error then 1 else 0)
      tokens := row.tokens + data.tokensUsed.getD 0 }

def recordFunctionUsage (usage : OcrFunctionKey → FunctionUsage) (fn : OcrFunctionKey)
    (data : FunctionUsageData) : OcrFunctionKey → FunctionUsage :=
  let row := usage fn
  Function.update usage fn
    { requests := row.requests + 1
      errors := row.errors + (if data.outcome = .error then 1 else 0)
      tokens := row.tokens + data.tokensUsed.getD 0
      confidenceObservations := row.confidenceObservations +
        (if data.lowConfidence.isSome then 1 else 0)
      lowConfidence := row.lowConfidence + (if data.lowConfidence = some true then 1 else 0)
      fallbacks := row.fallbacks + (if data.fellBack then 1 else 0) }

/-- The cost counter of `metrics.recordRequest`. -/
def recordCost (total : OcrFunctionKey → ℚ) (m : RequestMetrics) : OcrFunctionKey → ℚ :=
  post total (some m.function) (m.estimatedCostNgn.getD 0)

/-- Who runs the pipeline: the route, for a request with a subscription or without, or the
queue worker, which may find its job metered already. -/
inductive Caller where
  | route (subscription : Bool)
  | worker (claimed : Bool)

/-- Whether the caller meters an answered run. -/
def Caller.meters : Caller → Bool
  | .route subscription => subscription
  | .worker claimed => claimed

variable {Json Llm TArgs TResult : Type}

variable (Json Llm TArgs TResult) in
/-- A request to the pipeline with the dependencies it meets. -/
structure Run where
  fn : OcrFunctionDefinition Json Llm TArgs TResult
  req : OcrRequest Json
  deps : PipelineDeps Llm
  caller : Caller

/-- What the history keeps of a run; `answer` is absent when the run failed. -/
structure Entry where
  tenantId : String
  function : OcrFunctionKey
  metered : Bool
  calls : List RecognizeCall
  answer : Option OcrResponseMeta

def Entry.reported (e : Entry) : ℕ := Pipeline.reported e.calls

/-- The tenant an entry is metered to. -/
def Entry.meteredTo (e : Entry) : Option String :=
  if e.metered then some e.tenantId else none

/-- The tokens of the response's `meta`, none where there is no response. -/
def Entry.answered (e : Entry) : ℕ := (e.answer.bind OcrResponseMeta.tokensUsed).getD 0

/-- The cache, the books, the tokens fed to `recordDocumentUsage`, and the history. -/
structure Service where
  cache : ExtractionCache
  tenantUsage : String → TenantUsage
  functionUsage : OcrFunctionKey → FunctionUsage
  estimatedCostNgnTotal : OcrFunctionKey → ℚ
  meteredTokens : String → ℕ
  history : List Entry

def entryOf (r : Run Json Llm TArgs TResult) (ran : Ran TResult) : Entry where
  tenantId := r.req.tenantId
  function := r.fn.key
  metered := r.caller.meters
  calls := ran.calls
  answer := ran.response.toOption.map Prod.snd

/-- What a run leaves behind. -/
def Service.record (s : Service) (r : Run Json Llm TArgs TResult) (ran : Ran TResult) :
    Service where
  cache := ran.cache
  tenantUsage := recordTenantUsage s.tenantUsage r.req.tenantId ran.tenantUsage
  functionUsage := recordFunctionUsage s.functionUsage r.fn.key ran.functionUsage
  estimatedCostNgnTotal := recordCost s.estimatedCostNgnTotal ran.request
  meteredTokens :=
    match ran.response with
    | .error _ => s.meteredTokens
    | .ok (_, answer) =>
      if r.caller.meters then
        post s.meteredTokens (some r.req.tenantId) (answer.tokensUsed.getD 0)
      else s.meteredTokens
  history := s.history ++ [entryOf r ran]

variable (Json Llm TArgs TResult) in
/-- A run, or a cache entry's time to live running out. -/
inductive Action where
  | run (r : Run Json Llm TArgs TResult)
  | expire (key : String)

section System
variable [EmptyCollection Json] (env : Environment)

def step (s : Service) : Action Json Llm TArgs TResult → Option Service
  | .run r => some (s.record r (runPipeline env r.fn r.req r.deps s.cache))
  | .expire key => some { s with cache := Function.update s.cache key none }

/-- Every book is what the runs it is about reported, and so is the `meta` of each. -/
structure Balanced (s : Service) : Prop where
  tenant : (fun t => (s.tenantUsage t).tokens) =
    posted (fun e : Entry => some e.tenantId) Entry.reported s.history
  function : (fun f => (s.functionUsage f).tokens) =
    posted (fun e : Entry => some e.function) Entry.reported s.history
  cost : s.estimatedCostNgnTotal = posted (fun e : Entry => some e.function)
    (fun e => e.reported / 1000 * env.LLM_COST_NGN_PER_1K_TOKENS) s.history
  metered : s.meteredTokens = posted Entry.meteredTo Entry.reported s.history
  answers : ∀ e ∈ s.history, e.answered = e.reported

/-- The cached document an extraction answers with. -/
def extractionHit (fn : OcrFunctionDefinition Json Llm TArgs TResult) (deps : PipelineDeps Llm)
    (cache : ExtractionCache) (input : DocumentInput) : Option RecognizedDocument :=
  if fn.skipExtraction then none
  else
    match routeProvider deps.providers (routeInput fn input deps) with
    | .error _ => none
    | .ok decision => cachedDocument fn input deps cache decision.provider

/-- The cached document a run is served from. -/
def servedFromCache (r : Run Json Llm TArgs TResult) (cache : ExtractionCache) :
    Option RecognizedDocument :=
  match prepare env r.fn r.req with
  | .error _ => none
  | .ok (_, input) => extractionHit r.fn r.deps cache input

/-- The document the providers recognize for an extraction, on a miss. -/
def extractionMiss (fn : OcrFunctionDefinition Json Llm TArgs TResult) (req : OcrRequest Json)
    (deps : PipelineDeps Llm) (cache : ExtractionCache) (input : DocumentInput) :
    Option RecognizedDocument :=
  if fn.skipExtraction then none
  else
    match routeProvider deps.providers (routeInput fn input deps) with
    | .error _ => none
    | .ok decision =>
      match cachedDocument fn input deps cache decision.provider with
      | some _ => none
      | none => (recognizeWithFallback decision input ⟨req.requestId, req.tenantId⟩).2.toOption

/-- The function answers from a document: the page limits allow it and it is interpreted. -/
def answersFrom (r : Run Json Llm TArgs TResult) (args : TArgs) (input : DocumentInput)
    (doc : RecognizedDocument) : Bool :=
  (checkPages r.fn r.req doc).isOk &&
    (interpret r.fn (contextOf r.fn r.req r.deps input doc) args).isOk

/-- The tokens of a document that is recognized for a run but not answered from. -/
def unansweredTokens (r : Run Json Llm TArgs TResult) (cache : ExtractionCache) : ℕ :=
  match prepare env r.fn r.req with
  | .error _ => 0
  | .ok (args, input) =>
    match extractionMiss r.fn r.req r.deps cache input with
    | none => 0
    | some doc => if answersFrom r args input doc then 0 else doc.tokensUsed.getD 0

/-- No tokens ride on the cached document a run is served from, and none are on a document that
is recognized but not answered from. -/
def AttributesOnce (s : Service) : Action Json Llm TArgs TResult → Prop
  | .run r => (∀ doc ∈ servedFromCache env r s.cache, doc.tokensUsed.getD 0 = 0) ∧
      unansweredTokens env r s.cache = 0
  | .expire _ => True

instance (s : Service) (a : Action Json Llm TArgs TResult) :
    Decidable (AttributesOnce env s a) :=
  match a with
  | .run r => inferInstanceAs <| Decidable <|
    (∀ doc ∈ servedFromCache env r s.cache, doc.tokensUsed.getD 0 = 0) ∧
      unansweredTokens env r s.cache = 0
  | .expire _ => inferInstanceAs (Decidable True)

end System

/-- The tokens on a document, when there is one. -/
def tokensOn (doc : Option RecognizedDocument) : ℕ :=
  (doc.bind RecognizedDocument.tokensUsed).getD 0

theorem tokens_recognizeFrom (primary : String) (input : DocumentInput) (opts : RecognizeOptions)
    (fallback : Bool) (chain : List OcrProvider) :
    tokensOn (recognizeFrom primary input opts fallback chain).2 =
      reported (recognizeFrom primary input opts fallback chain).1 := by
  induction chain generalizing fallback with
  | nil => rfl
  | cons provider chain ih =>
    cases h : provider.recognize input opts with
    | ok doc => cases fallback <;> simp [recognizeFrom, h, tokensOn, reported, RecognizeCall.tokens]
    | error e =>
      have hrest := ih true
      simp only [recognizeFrom, h, hrest]
      simp [reported, RecognizeCall.tokens]

/-- What a provider chain reports is on the document it yields; without one it reported
nothing. -/
theorem tokens_recognizeWithFallback (decision : RoutingDecision) (input : DocumentInput)
    (opts : RecognizeOptions) :
    tokensOn (recognizeWithFallback decision input opts).2.toOption =
      reported (recognizeWithFallback decision input opts).1 := by
  have h := tokens_recognizeFrom decision.provider.name input opts false decision.chain
  simp only [recognizeWithFallback]
  rw [← h]
  cases (recognizeFrom decision.provider.name input opts false decision.chain).2 <;> rfl

/-- The document an extraction yields carries what its calls reported and, on a hit, what
the cached document carries. -/
theorem tokens_extraction (fn : OcrFunctionDefinition Json Llm TArgs TResult)
    (req : OcrRequest Json) (deps : PipelineDeps Llm) (cache : ExtractionCache)
    (input : DocumentInput) :
    tokensOn ((extraction fn req deps cache input).output.toOption.map Prod.fst) =
      reported (extraction fn req deps cache input).calls +
        tokensOn (extractionHit fn deps cache input) := by
  by_cases hskip : fn.skipExtraction
  · simp [extraction, extractionHit, hskip, tokensOn, emptyDocument, reported, Except.toOption]
  · cases hroute : routeProvider deps.providers (routeInput fn input deps) with
    | error e =>
      simp [extraction, extractionHit, extractDocument, hskip, hroute, tokensOn, reported,
        Except.toOption]
    | ok decision =>
      cases hhit : cachedDocument fn input deps cache decision.provider with
      | some hit =>
        simp [extraction, extractionHit, extractDocument, hskip, hroute, hhit, reported,
          Except.toOption]
      | none =>
        have h := tokens_recognizeWithFallback decision input ⟨req.requestId, req.tenantId⟩
        have hnone : tokensOn none = 0 := rfl
        simp only [extraction, extractionHit, extractDocument, hskip, hroute, hhit, hnone,
          Bool.false_eq_true, if_false, add_zero]
        cases hrec : (recognizeWithFallback decision input ⟨req.requestId, req.tenantId⟩).2 with
        | error e => rw [hrec] at h; exact h
        | ok doc => rw [hrec] at h; exact h

/-- What the calls of an extraction reported is on the document they recognized. -/
theorem tokens_extractionMiss (fn : OcrFunctionDefinition Json Llm TArgs TResult)
    (req : OcrRequest Json) (deps : PipelineDeps Llm) (cache : ExtractionCache)
    (input : DocumentInput) :
    tokensOn (extractionMiss fn req deps cache input) =
      reported (extraction fn req deps cache input).calls := by
  by_cases hskip : fn.skipExtraction
  · simp [extraction, extractionMiss, hskip, tokensOn, reported]
  · cases hroute : routeProvider deps.providers (routeInput fn input deps) with
    | error e =>
      simp [extraction, extractionMiss, extractDocument, hskip, hroute, tokensOn, reported]
    | ok decision =>
      cases hhit : cachedDocument fn input deps cache decision.provider with
      | some hit =>
        simp [extraction, extractionMiss, extractDocument, hskip, hroute, hhit, tokensOn, reported]
      | none =>
        have h := tokens_recognizeWithFallback decision input ⟨req.requestId, req.tenantId⟩
        simp only [extraction, extractionMiss, extractDocument, hskip, hroute, hhit,
          Bool.false_eq_true, if_false, h]
        cases (recognizeWithFallback decision input ⟨req.requestId, req.tenantId⟩).2 <;> rfl

/-- A document that was recognized is what the extraction yields. -/
theorem output_of_extractionMiss {fn : OcrFunctionDefinition Json Llm TArgs TResult}
    {req : OcrRequest Json} {deps : PipelineDeps Llm} {cache : ExtractionCache}
    {input : DocumentInput} {doc : RecognizedDocument}
    (h : extractionMiss fn req deps cache input = some doc) :
    (extraction fn req deps cache input).output = .ok (doc, false) := by
  unfold extractionMiss at h
  split_ifs at h with hskip
  unfold extraction extractDocument
  rw [if_neg hskip]
  cases hroute : routeProvider deps.providers (routeInput fn input deps) with
  | error e =>
    rw [hroute] at h
    cases h
  | ok decision =>
    cases hmiss : cachedDocument fn input deps cache decision.provider with
    | some hit =>
      simp only [hroute, hmiss] at h
      cases h
    | none =>
      simp only [hroute, hmiss] at h ⊢
      cases hrecognized :
          (recognizeWithFallback decision input ⟨req.requestId, req.tenantId⟩).2 with
      | error e =>
        rw [hrecognized] at h
        cases h
      | ok doc' =>
        rw [hrecognized] at h
        obtain rfl := Option.some.inj h
        rfl

/-- A run reports one number to every book it writes, and no cost unless it is answered. -/
structure Attributes (env : Environment) (r : Run Json Llm TArgs TResult) (ran : Ran TResult)
    (tokens : ℕ) : Prop where
  tenant : ran.tenantUsage.tokensUsed.getD 0 = tokens
  function : ran.functionUsage.tokensUsed.getD 0 = tokens
  costOf : ran.request.function = r.fn.key
  answered : ∀ result answer, ran.response = .ok (result, answer) →
    answer.tokensUsed.getD 0 = tokens ∧
      ran.request.estimatedCostNgn = estimatedCost env answer.tokensUsed
  unanswered : ∀ e, ran.response = .error e → ran.request.estimatedCostNgn = none

theorem attributes_failed (env : Environment) (r : Run Json Llm TArgs TResult) (p : Progress)
    (cache : ExtractionCache) (calls : List RecognizeCall) (e : OcrError) :
    Attributes env r (failed r.fn p cache calls e) (tokensOn p.doc) where
  tenant := rfl
  function := rfl
  costOf := rfl
  answered := nofun
  unanswered := fun _ _ => rfl

theorem attributes_succeeded (env : Environment) (r : Run Json Llm TArgs TResult)
    (input : DocumentInput) (doc : RecognizedDocument) (cached : Bool) (cache : ExtractionCache)
    (calls : List RecognizeCall) (args : TArgs) (result : TResult) :
    Attributes env r (succeeded env r.fn input doc cached cache calls args result)
      (tokensOn (some doc)) where
  tenant := rfl
  function := rfl
  costOf := rfl
  answered := by
    intro result' answer h
    obtain ⟨-, rfl⟩ := Prod.mk.inj (Except.ok.inj h)
    exact ⟨rfl, rfl⟩
  unanswered := nofun

/-- A run attributes what its calls reported and, on a hit, what the cached document
carries, however far it gets. -/
theorem attributes_runPipeline [EmptyCollection Json] (env : Environment)
    (r : Run Json Llm TArgs TResult) (cache : ExtractionCache) :
    Attributes env r (runPipeline env r.fn r.req r.deps cache)
      (reported (runPipeline env r.fn r.req r.deps cache).calls +
        tokensOn (servedFromCache env r cache)) := by
  simp only [runPipeline, servedFromCache]
  cases hprepare : prepare env r.fn r.req with
  | error e => exact attributes_failed env r ⟨e.2, none, false⟩ cache [] e.1
  | ok prepared =>
    obtain ⟨args, input⟩ := prepared
    have htokens := tokens_extraction r.fn r.req r.deps cache input
    dsimp only
    generalize extraction r.fn r.req r.deps cache input = extracted at htokens
    obtain ⟨output, cache', calls⟩ := extracted
    cases output with
    | error e =>
      have h := attributes_failed env r ⟨some input, none, false⟩ cache' calls e
      have hnone : tokensOn none = _ := htokens
      rw [hnone] at h
      exact h
    | ok output =>
      obtain ⟨doc, cached⟩ := output
      have hfailed := attributes_failed env r ⟨some input, some doc, cached⟩ cache' calls
      have hdoc : tokensOn (some doc) = _ := htokens
      simp only [hdoc] at hfailed
      dsimp only
      cases checkPages r.fn r.req doc with
      | error e => exact hfailed e
      | ok _ =>
        dsimp only
        cases interpret r.fn (contextOf r.fn r.req r.deps input doc) args with
        | error e => exact hfailed e
        | ok result =>
          have h := attributes_succeeded env r input doc cached cache' calls args result
          rw [hdoc] at h
          exact h

/-- The run is answered, or its calls reported nothing, exactly when no tokens are left on a
document that is not answered from. -/
theorem answered_iff [EmptyCollection Json] (env : Environment) (r : Run Json Llm TArgs TResult)
    (cache : ExtractionCache) :
    (reported (runPipeline env r.fn r.req r.deps cache).calls = 0 ∨
      (runPipeline env r.fn r.req r.deps cache).response.isOk) ↔
        unansweredTokens env r cache = 0 := by
  simp only [runPipeline, unansweredTokens]
  cases prepare env r.fn r.req with
  | error e => simp [failed, reported]
  | ok prepared =>
    obtain ⟨args, input⟩ := prepared
    have htokens := tokens_extractionMiss r.fn r.req r.deps cache input
    have houtput := @output_of_extractionMiss _ _ _ _ r.fn r.req r.deps cache input
    dsimp only
    generalize extraction r.fn r.req r.deps cache input = extracted at htokens houtput
    obtain ⟨output, cache', calls⟩ := extracted
    cases hmiss : extractionMiss r.fn r.req r.deps cache input with
    | none =>
      -- nothing was recognized, so no call reported anything
      rw [hmiss] at htokens
      have hzero : reported calls = 0 := htokens.symm
      refine iff_of_true (.inl ?_) rfl
      rw [← hzero]
      dsimp only
      repeat' split
      all_goals rfl
    | some doc =>
      rw [hmiss] at htokens
      obtain rfl : output = .ok (doc, false) := houtput hmiss
      have hreported : reported calls = doc.tokensUsed.getD 0 := htokens.symm
      dsimp only
      cases hpages : checkPages r.fn r.req doc with
      | error e => simp [failed, answersFrom, hpages, hreported, Except.isOk, Except.toBool]
      | ok _ =>
        dsimp only
        cases hinterpret : interpret r.fn (contextOf r.fn r.req r.deps input doc) args with
        | error e =>
          simp [failed, answersFrom, hpages, hinterpret, hreported, Except.isOk, Except.toBool]
        | ok result =>
          simp [succeeded, answersFrom, hpages, hinterpret, Except.isOk, Except.toBool]

theorem tokens_recordTenantUsage (usage : String → TenantUsage) (tenantId : String)
    (data : TenantUsageData) :
    (fun t => (recordTenantUsage usage tenantId data t).tokens) =
      post (fun t => (usage t).tokens) (some tenantId) (data.tokensUsed.getD 0) := by
  funext t
  by_cases h : t = tenantId
  · subst h
    simp [recordTenantUsage, post]
  · simp [recordTenantUsage, post, h]

theorem tokens_recordFunctionUsage (usage : OcrFunctionKey → FunctionUsage) (fn : OcrFunctionKey)
    (data : FunctionUsageData) :
    (fun f => (recordFunctionUsage usage fn data f).tokens) =
      post (fun f => (usage f).tokens) (some fn) (data.tokensUsed.getD 0) := by
  funext f
  by_cases h : f = fn
  · subst h
    simp [recordFunctionUsage, post]
  · simp [recordFunctionUsage, post, h]

/-- No tokens and no rate cost nothing. -/
theorem getD_estimatedCost (env : Environment) (tokensUsed : Option ℕ) :
    (estimatedCost env tokensUsed).getD 0 =
      (tokensUsed.getD 0 : ℕ) / 1000 * env.LLM_COST_NGN_PER_1K_TOKENS := by
  cases tokensUsed with
  | none => simp [estimatedCost]
  | some tokens =>
    by_cases h : tokens = 0 ∨ env.LLM_COST_NGN_PER_1K_TOKENS = 0
    · rcases h with h | h <;> simp [estimatedCost, h]
    · simp [estimatedCost, h]

section Books
variable {env : Environment} {s : Service} {r : Run Json Llm TArgs TResult} {ran : Ran TResult}
  {tokens : ℕ}

theorem reported_of_error (h : reported ran.calls = 0 ∨ ran.response.isOk) {e : OcrError}
    (hresponse : ran.response = .error e) : reported ran.calls = 0 := by
  simpa [hresponse, Except.isOk, Except.toBool] using h

/-- An entry of a run that is answered, or reported nothing, has what was reported in its
`meta`. -/
theorem answered_entryOf (hr : Attributes env r ran tokens) (htokens : tokens = reported ran.calls)
    (hanswered : reported ran.calls = 0 ∨ ran.response.isOk) :
    (entryOf r ran).answered = (entryOf r ran).reported := by
  cases hresponse : ran.response with
  | error e =>
    have hzero := reported_of_error hanswered hresponse
    simp [Entry.answered, Entry.reported, entryOf, hresponse, Except.toOption, hzero]
  | ok answered =>
    have hanswer := (hr.answered answered.1 answered.2 hresponse).1
    simp [Entry.answered, Entry.reported, entryOf, hresponse, Except.toOption, hanswer, htokens]

theorem cost_record (hr : Attributes env r ran tokens) (htokens : tokens = reported ran.calls)
    (hanswered : reported ran.calls = 0 ∨ ran.response.isOk) :
    (s.record r ran).estimatedCostNgnTotal =
      post s.estimatedCostNgnTotal (some (entryOf r ran).function)
        ((entryOf r ran).reported / 1000 * env.LLM_COST_NGN_PER_1K_TOKENS) := by
  simp only [Service.record, recordCost, hr.costOf]
  cases hresponse : ran.response with
  | error e =>
    have hzero := reported_of_error hanswered hresponse
    rw [hr.unanswered e hresponse]
    simp [Entry.reported, entryOf, hzero]
  | ok answered =>
    obtain ⟨hanswer, hcost⟩ := hr.answered answered.1 answered.2 hresponse
    rw [hcost, getD_estimatedCost, hanswer, htokens]
    rfl

theorem metered_record (hr : Attributes env r ran tokens) (htokens : tokens = reported ran.calls)
    (hanswered : reported ran.calls = 0 ∨ ran.response.isOk) :
    (s.record r ran).meteredTokens =
      post s.meteredTokens (entryOf r ran).meteredTo (entryOf r ran).reported := by
  cases hresponse : ran.response with
  | error e =>
    have hzero := reported_of_error hanswered hresponse
    simp [Service.record, hresponse, Entry.reported, entryOf, hzero]
  | ok answered =>
    obtain ⟨hanswer, -⟩ := hr.answered answered.1 answered.2 hresponse
    cases hmeters : r.caller.meters with
    | false => simp [Service.record, hresponse, hmeters, Entry.meteredTo, entryOf]
    | true =>
      simp [Service.record, hresponse, hmeters, Entry.meteredTo, Entry.reported, entryOf, hanswer,
        htokens]

/-- A run keeps the books balanced exactly when it attributes what its calls reported, and is
answered if they reported anything. -/
theorem balanced_record_iff (hs : Balanced env s) (hr : Attributes env r ran tokens) :
    Balanced env (s.record r ran) ↔
      tokens = reported ran.calls ∧ (reported ran.calls = 0 ∨ ran.response.isOk) := by
  constructor
  · intro h
    constructor
    · have htenant : (fun t => (recordTenantUsage s.tenantUsage r.req.tenantId ran.tenantUsage
          t).tokens) = posted (fun e : Entry => some e.tenantId) Entry.reported
            (s.history ++ [entryOf r ran]) := h.tenant
      rw [tokens_recordTenantUsage, posted_append, ← hs.tenant, hr.tenant] at htenant
      exact (post_some_inj _ _).mp htenant
    · have hanswer := h.answers (entryOf r ran) (List.mem_append_right _ List.mem_cons_self)
      cases hresponse : ran.response with
      | error e =>
        left
        simpa [Entry.answered, Entry.reported, entryOf, hresponse, Except.toOption] using
          hanswer.symm
      | ok answered => exact .inr rfl
  · rintro ⟨htokens, hanswered⟩
    refine ⟨?_, ?_, ?_, ?_, ?_⟩
    · show (fun t => (recordTenantUsage s.tenantUsage r.req.tenantId ran.tenantUsage t).tokens) = _
      rw [tokens_recordTenantUsage, hs.tenant, hr.tenant, htokens]
      exact (posted_append (fun e => some e.tenantId) Entry.reported s.history
        (entryOf r ran)).symm
    · show (fun f => (recordFunctionUsage s.functionUsage r.fn.key ran.functionUsage f).tokens) = _
      rw [tokens_recordFunctionUsage, hs.function, hr.function, htokens]
      exact (posted_append (fun e => some e.function) Entry.reported s.history
        (entryOf r ran)).symm
    · rw [cost_record hr htokens hanswered, hs.cost]
      exact (posted_append _ _ _ _).symm
    · rw [metered_record hr htokens hanswered, hs.metered]
      exact (posted_append _ _ _ _).symm
    · intro e he
      rcases List.mem_append.mp he with he | he
      · exact hs.answers e he
      · obtain rfl := List.mem_singleton.mp he
        exact answered_entryOf hr htokens hanswered

end Books

/-- Nothing recorded yet, and whatever is in the cache. -/
def fresh (cache : ExtractionCache) : Service where
  cache := cache
  tenantUsage := fun _ => ⟨0, 0, 0⟩
  functionUsage := fun _ => ⟨0, 0, 0, 0, 0, 0⟩
  estimatedCostNgnTotal := fun _ => 0
  meteredTokens := fun _ => 0
  history := []

theorem balanced_fresh (env : Environment) (cache : ExtractionCache) :
    Balanced env (fresh cache) := by
  have hanswers : ∀ e ∈ (fresh cache).history, e.answered = e.reported :=
    fun e he => absurd he List.not_mem_nil
  refine ⟨?_, ?_, ?_, ?_, hanswers⟩ <;> simp only [fresh, posted_nil]

section System
variable [EmptyCollection Json] (env : Environment)

/-- The step lemma. -/
theorem balanced_step_iff {s t : Service} {a : Action Json Llm TArgs TResult}
    (hs : Balanced env s) (h : step env s a = some t) :
    Balanced env t ↔ AttributesOnce env s a := by
  cases a with
  | run r =>
    obtain rfl := Option.some.inj h
    rw [balanced_record_iff hs (attributes_runPipeline env r s.cache), answered_iff]
    refine and_congr_left' ?_
    cases servedFromCache env r s.cache with
    | none => simp [tokensOn]
    | some doc => simp [tokensOn]
  | expire key =>
    obtain rfl := Option.some.inj h
    exact iff_of_true ⟨hs.tenant, hs.function, hs.cost, hs.metered, hs.answers⟩ trivial

/-- From any cache, in every sequence of runs, whatever they extract, replay, fall back
from or fail on, the books add up to what the providers reported exactly when no run is
served a cached document that carries tokens, and none fails on a document it was recognized
with tokens. -/
theorem books_balance_iff (cache : ExtractionCache) (as : List (Action Json Llm TArgs TResult)) :
    Throughout (step env) (Balanced env) (fresh cache) as ↔
      Guarded (step env) (AttributesOnce env) (fresh cache) as := by
  rw [Throughout, and_iff_right (balanced_fresh env cache)]
  exact along_iff_guarded (I := Balanced env) (fun _ _ _ hs h => balanced_step_iff env hs h)
    (fun _ _ _ hs ha h => (balanced_step_iff env hs h).mpr ha) (balanced_fresh env cache)

end System

/-- A small image whose bytes sniff as a JPEG. -/
def jpeg : Buffer := [0xff, 0xd8, 0xff, 0xe0]

def imageEnvironment : Environment where
  sniff buffer := if buffer.take 3 = [0xff, 0xd8, 0xff] then some ⟨"image/jpeg", .image⟩ else none
  sha256 _ := "ba4f25bf16ba4be6bc7d3276fafeb67f9eb3c5df042bc3a405e1af15b921eed7"
  LLM_COST_NGN_PER_1K_TOKENS := 2
  LOW_CONFIDENCE_THRESHOLD := 19 / 20

/-- The recognizer that reports tokens. -/
def glmOcr : OcrProvider where
  name := "glm-ocr"
  accepts := [.pdf, .image]
  capabilities := [.text, .layout, .tables, .handwriting, .seals]
  recognize _ _ :=
    .ok ⟨"Total 100", "Total 100", [⟨1, "Total 100", none, none⟩], [], 1, "glm-ocr", none, some 30,
      none⟩

/-- A standard function that returns the recognized text. -/
def receiptText : OcrFunctionDefinition (List (String × String)) Unit Unit String where
  key := .RECEIPT_PARSING
  accepts := [.pdf, .image]
  requires := [.text]
  sensitivity := .standard
  prefers := [.tables]
  maxPages := 5
  skipExtraction := false
  argsSchema _ := some ()
  resultSchema _ raw := some raw
  execute ctx _ := .ok ctx.doc.markdown
  confidenceOf _ _ := ⟨1, []⟩

/-- The same upload by one tenant. -/
def receiptRun : Run (List (String × String)) Unit Unit String where
  fn := receiptText
  req := ⟨jpeg, "receipt.jpg", none, "req-1", "acme", none⟩
  deps := ⟨(), [glmOcr], ⟨⟨"glm-ocr", []⟩, ⟨"glm-ocr", []⟩, fun _ => none⟩, false, false⟩
  caller := .route true

/-- One upload run twice: the second run is a cache hit, makes no call, and attributes the
thirty tokens of the first again. -/
theorem cached_tokens_counted_again :
    ¬Throughout (step imageEnvironment) (Balanced imageEnvironment) (fresh fun _ => none)
      [.run receiptRun, .run receiptRun] := by
  intro h
  have hacme : Throughout (step imageEnvironment)
      (fun s => (s.tenantUsage "acme").tokens =
        posted (fun e : Entry => some e.tenantId) Entry.reported s.history "acme")
      (fresh fun _ => none) [.run receiptRun, .run receiptRun] :=
    h.mono fun s hs => congrFun hs.tenant "acme"
  exact absurd hacme (by decide)

end HeirsOcr.Pipeline
