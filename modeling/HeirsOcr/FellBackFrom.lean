import HeirsOcr.CacheSoundness

/-!
# Who a run says it fell back from

A fallback is stamped on the document, and the stamp is stored with it. A later run whose
primary is the provider that stepped in finds the document in the cache and reports the
stamp again, though its own primary was never called. What a run reports is true exactly
when the document it gets without a fallback of its own carries no stamp.
-/
namespace HeirsOcr.Pipeline
open Providers StepMachine

/-- The document an extraction gets without falling back: the one the cache answers with,
else the one the primary does. -/
def directDocument {Json Llm TArgs TResult : Type}
    (fn : OcrFunctionDefinition Json Llm TArgs TResult) (input : DocumentInput)
    (opts : RecognizeOptions) (deps : PipelineDeps Llm) (cache : ExtractionCache) :
    Option RecognizedDocument :=
  match routeProvider deps.providers (routeInput fn input deps) with
  | .error _ => none
  | .ok decision =>
    match cachedDocument fn input deps cache decision.provider with
    | some hit => some hit
    | none => (decision.provider.recognize input opts).toOption

section Statement

variable (env : Environment) (r : Request)

/-- A run fell back from its routed primary: the primary was called and failed, and a later
call of the same run answered the document the run went on with. -/
def FellBack (ran : Ran r.TResult) (primary : String) : Prop :=
  ∃ input decision, ingest env r.req = .ok input ∧
    routeProvider r.deps.providers (routeInput r.fn input r.deps) = .ok decision ∧
    decision.provider.name = primary ∧
    ∃ e rest, ran.calls = ⟨primary, .error e⟩ :: rest ∧
      ∃ call ∈ rest, ∃ doc, call.answer = .ok doc ∧ ran.request.provider = doc.provider ∧
        ran.request.pageCount = doc.pageCount ∧ ran.request.tokensUsed = doc.tokensUsed

/-- The response, the metrics and the fallback count of a run name a provider exactly when
the run fell back from it. -/
structure Honest (ran : Ran r.TResult) : Prop where
  response : ∀ result m, ran.response = .ok (result, m) →
    ∀ primary, m.fellBackFrom = some primary ↔ FellBack env r ran primary
  metrics : ∀ primary, ran.request.fellBackFrom = some primary ↔ FellBack env r ran primary
  usage : ran.functionUsage.fellBack = true ↔ ∃ primary, FellBack env r ran primary

/-- The document a run gets without falling back, if it gets one so. -/
def Request.direct (cache : ExtractionCache) : Option RecognizedDocument :=
  match prepare env r.fn r.req with
  | .error _ => none
  | .ok (_, input) =>
    if r.fn.skipExtraction then none
    else directDocument r.fn input ⟨r.req.requestId, r.req.tenantId⟩ r.deps cache

end Statement

def CacheAction.Honest (env : Environment) (s : Extractions) : CacheAction → Prop
  | .run r => Pipeline.Honest env r (r.runPipeline env s.cache)
  | .extract _ | .expire _ => True

/-- The condition of a step: the document a run gets without a fallback of its own carries
no stamp of an earlier one. -/
def CacheAction.ReadsUnstamped (env : Environment) (s : Extractions) : CacheAction → Prop
  | .run r => ∀ doc ∈ r.direct env s.cache, doc.fellBackFrom = none
  | .extract _ | .expire _ => True

section Extract

variable {input : DocumentInput} {opts : RecognizeOptions} {primary : String}
  {chain : List OcrProvider}

/-- A document out of the fallbacks is stamped, and one of their calls answered it. -/
theorem recognizeFrom_fallback {doc : RecognizedDocument}
    (h : (recognizeFrom primary input opts true chain).2 = some doc) :
    doc.fellBackFrom = some primary ∧
      ∃ call ∈ (recognizeFrom primary input opts true chain).1, ∃ answered,
        call.answer = .ok answered ∧ doc = { answered with fellBackFrom := some primary } := by
  induction chain with
  | nil => simp [recognizeFrom] at h
  | cons q chain ih =>
    cases hq : q.recognize input opts with
    | ok answered =>
      simp only [recognizeFrom, hq, if_true, Option.some.injEq] at h
      refine ⟨by rw [← h], ⟨q.name, .ok answered⟩, ?_, answered, rfl, h.symm⟩
      simp [recognizeFrom, hq]
    | error e =>
      simp only [recognizeFrom, hq] at h
      obtain ⟨hstamp, call, hcall, hanswer⟩ := ih h
      refine ⟨hstamp, call, ?_, hanswer⟩
      simp only [recognizeFrom, hq]
      exact List.mem_cons_of_mem _ hcall

/-- When no provider answers, no call does. -/
theorem recognizeFrom_none {fallback : Bool}
    (h : (recognizeFrom primary input opts fallback chain).2 = none) :
    ∀ call ∈ (recognizeFrom primary input opts fallback chain).1, ∀ answered,
      call.answer ≠ .ok answered := by
  induction chain generalizing fallback with
  | nil => simp [recognizeFrom]
  | cons q chain ih =>
    cases hq : q.recognize input opts with
    | ok answered => simp [recognizeFrom, hq] at h
    | error e =>
      simp only [recognizeFrom, hq] at h ⊢
      intro call hcall
      rcases List.mem_cons.mp hcall with rfl | hrest
      · simp
      · exact ih h call hrest

end Extract

section Direct

variable {Json Llm TArgs TResult : Type} {fn : OcrFunctionDefinition Json Llm TArgs TResult}
  {input : DocumentInput} {opts : RecognizeOptions} {deps : PipelineDeps Llm}
  {cache : ExtractionCache} {extracted : Extracted}

/-- An extraction fails without an answered call, or gets its document directly, or falls
back from its primary. -/
theorem extractDocument_direct (he : extractDocument fn input opts deps cache = extracted) :
    (directDocument fn input opts deps cache = none ∧ (∃ err, extracted.output = .error err) ∧
      ∀ call ∈ extracted.calls, ∀ answered, call.answer ≠ .ok answered) ∨
    (∃ doc cached, directDocument fn input opts deps cache = some doc ∧
      extracted.output = .ok (doc, cached) ∧
      ∀ primary err rest, extracted.calls ≠ ⟨primary, .error err⟩ :: rest) ∨
    ∃ decision doc err rest, directDocument fn input opts deps cache = none ∧
      routeProvider deps.providers (routeInput fn input deps) = .ok decision ∧
      extracted.output = .ok (doc, false) ∧ doc.fellBackFrom = some decision.provider.name ∧
      extracted.calls = ⟨decision.provider.name, .error err⟩ :: rest ∧
      ∃ call ∈ rest, ∃ answered, call.answer = .ok answered ∧
        doc = { answered with fellBackFrom := some decision.provider.name } := by
  subst he
  cases hroute : routeProvider deps.providers (routeInput fn input deps) with
  | error err =>
    left
    simp [extractDocument, directDocument, hroute]
  | ok decision =>
    cases hhit : cachedDocument fn input deps cache decision.provider with
    | some hit =>
      right; left
      refine ⟨hit, true, ?_⟩
      simp [extractDocument, directDocument, hroute, hhit]
    | none =>
      simp only [extractDocument, directDocument, hroute, hhit, recognizeWithFallback,
        RoutingDecision.chain, recognizeFrom]
      cases hprimary : decision.provider.recognize input opts with
      | ok doc =>
        right; left
        exact ⟨doc, false, rfl, rfl, fun _ _ _ h => by simp at h⟩
      | error err =>
        cases hrest : (recognizeFrom decision.provider.name input opts true
          decision.fallbacks).2 with
        | none =>
          left
          refine ⟨rfl, ⟨_, rfl⟩, fun call hcall => ?_⟩
          rcases List.mem_cons.mp hcall with rfl | hmem
          · simp
          · exact recognizeFrom_none hrest call hmem
        | some doc =>
          right; right
          obtain ⟨hstamp, call, hcall, answered, hanswer, hdoc⟩ := recognizeFrom_fallback hrest
          exact ⟨decision, doc, err, _, rfl, rfl, rfl, hstamp, rfl, call, hcall, answered,
            hanswer, hdoc⟩

end Direct

section Conclude

variable {Json Llm TArgs TResult : Type} {env : Environment}
  {fn : OcrFunctionDefinition Json Llm TArgs TResult} {req : OcrRequest Json}
  {deps : PipelineDeps Llm} {args : TArgs} {input : DocumentInput} {extracted : Extracted}
  {ran : Ran TResult}

/-- What a run reports of its document. -/
theorem concluded_document (hran : concluded env fn req deps args input extracted = ran)
    {doc : RecognizedDocument} {cached : Bool} (hout : extracted.output = .ok (doc, cached)) :
    ran.request.fellBackFrom = doc.fellBackFrom ∧ ran.request.provider = doc.provider ∧
      ran.request.pageCount = doc.pageCount ∧ ran.request.tokensUsed = doc.tokensUsed ∧
      ran.functionUsage.fellBack = doc.fellBackFrom.isSome ∧
      ∀ result m, ran.response = .ok (result, m) → m.fellBackFrom = doc.fellBackFrom := by
  subst hran
  simp only [concluded, hout]
  cases checkPages fn req doc with
  | error e => exact ⟨rfl, rfl, rfl, rfl, rfl, fun _ _ h => by cases h⟩
  | ok _ =>
    cases interpret fn (contextOf fn req deps input doc) args with
    | error e => exact ⟨rfl, rfl, rfl, rfl, rfl, fun _ _ h => by cases h⟩
    | ok result =>
      refine ⟨rfl, rfl, rfl, rfl, rfl, fun _ _ h => ?_⟩
      cases h
      rfl

theorem concluded_error (hran : concluded env fn req deps args input extracted = ran)
    {e : OcrError} (hout : extracted.output = .error e) :
    ran.request.fellBackFrom = none ∧ ran.functionUsage.fellBack = false ∧
      ∀ result m, ran.response ≠ .ok (result, m) := by
  subst hran
  simp only [concluded, hout]
  exact ⟨rfl, rfl, fun _ _ h => by cases h⟩

end Conclude

section Run

variable {env : Environment} {r : Request} {ran : Ran r.TResult} {cache : ExtractionCache}

/-- What a run reports it fell back from. -/
structure Reports (ran : Ran r.TResult) (stamp : Option String) : Prop where
  metrics : ran.request.fellBackFrom = stamp
  usage : ran.functionUsage.fellBack = stamp.isSome
  response : ∀ result m, ran.response = .ok (result, m) → m.fellBackFrom = stamp

theorem honest_iff_of_reports {stamp : Option String} (h : Reports ran stamp) :
    Honest env r ran ↔ ∀ primary, stamp = some primary ↔ FellBack env r ran primary := by
  constructor
  · intro hhonest primary
    rw [← h.metrics]
    exact hhonest.metrics primary
  · intro hstamp
    refine ⟨fun result m hm primary => ?_, fun primary => ?_, ?_⟩
    · rw [h.response result m hm]
      exact hstamp primary
    · rw [h.metrics]
      exact hstamp primary
    · rw [h.usage, Option.isSome_iff_exists]
      exact exists_congr hstamp

/-- The first call of a run names the primary. -/
theorem FellBack.unique {primary primary' : String} (h : FellBack env r ran primary)
    (h' : FellBack env r ran primary') : primary = primary' := by
  obtain ⟨-, -, -, -, -, e, rest, hcalls, -⟩ := h
  obtain ⟨-, -, -, -, -, e', rest', hcalls', -⟩ := h'
  have hhead := hcalls.symm.trans hcalls'
  simp only [List.cons.injEq, RecognizeCall.mk.injEq] at hhead
  exact hhead.1.1

/-- A run reports no fallback and made none, or reports the stamp of the document it got
directly and made none, or reports the fallback it made. -/
theorem runPipeline_direct (hran : r.runPipeline env cache = ran) :
    ((r.direct env cache = none ∧ Reports ran none ∧ ∀ p, ¬FellBack env r ran p) ∨
      ∃ doc, r.direct env cache = some doc ∧ Reports ran doc.fellBackFrom ∧
        ∀ p, ¬FellBack env r ran p) ∨
    ∃ primary, r.direct env cache = none ∧ Reports ran (some primary) ∧
      FellBack env r ran primary := by
  rw [Request.runPipeline] at hran
  cases hprepare : prepare env r.fn r.req with
  | error e =>
    obtain ⟨err, input⟩ := e
    have hfailed : failed r.fn ⟨input, none, false⟩ cache [] err = ran := by
      simpa only [Pipeline.runPipeline, hprepare] using hran
    subst hfailed
    refine .inl (.inl ⟨by simp [Request.direct, hprepare], ⟨rfl, rfl, fun _ _ h => by cases h⟩, ?_⟩)
    rintro p ⟨-, -, -, -, -, e, rest, hcalls, -⟩
    cases hcalls
  | ok prepared =>
    obtain ⟨args, input⟩ := prepared
    rw [runPipeline_of_prepare r.deps hprepare] at hran
    obtain ⟨-, hcalls, -⟩ := concluded_spec r.fn r.req r.deps args input _ hran
    have hinput := ingest_of_prepare hprepare
    by_cases hskip : r.fn.skipExtraction = true
    · have hplaceholder : extraction r.fn r.req r.deps cache input =
          ⟨.ok (emptyDocument, false), cache, []⟩ := if_pos hskip
      rw [hplaceholder] at hran hcalls
      obtain ⟨hmetrics, -, -, -, husage, hresponse⟩ := concluded_document hran rfl
      refine .inl (.inl ⟨by simp [Request.direct, hprepare, hskip],
        ⟨hmetrics, husage, hresponse⟩, ?_⟩)
      rintro p ⟨-, -, -, -, -, e, rest, hmade, -⟩
      cases hcalls.symm.trans hmade
    · have hextract : extraction r.fn r.req r.deps cache input =
          extractDocument r.fn input ⟨r.req.requestId, r.req.tenantId⟩ r.deps cache :=
        if_neg hskip
      have hdirect : r.direct env cache =
          directDocument r.fn input ⟨r.req.requestId, r.req.tenantId⟩ r.deps cache := by
        simp only [Request.direct, hprepare, if_neg hskip]
      rw [hextract] at hran hcalls
      rw [hdirect]
      rcases extractDocument_direct (rfl : extractDocument r.fn input
          ⟨r.req.requestId, r.req.tenantId⟩ r.deps cache = _) with
        ⟨hnone, ⟨err, hout⟩, hunanswered⟩ | ⟨doc, cached, hsome, hout, hfirst⟩ |
        ⟨decision, doc, err, rest, hnone, hroute, hout, hstamp, hmade, call, hcall, answered,
          hanswer, hdoc⟩
      · obtain ⟨hmetrics, husage, hresponse⟩ := concluded_error hran hout
        refine .inl (.inl ⟨hnone, ⟨hmetrics, husage, fun _ _ h => absurd h (hresponse _ _)⟩, ?_⟩)
        rintro p ⟨-, -, -, -, -, e, rest, hmade, call, hcall, answered, hanswer, -⟩
        have hmem : call ∈ ran.calls := hmade ▸ List.mem_cons_of_mem _ hcall
        exact hunanswered call (hcalls ▸ hmem) answered hanswer
      · obtain ⟨hmetrics, -, -, -, husage, hresponse⟩ := concluded_document hran hout
        refine .inl (.inr ⟨doc, hsome, ⟨hmetrics, husage, hresponse⟩, ?_⟩)
        rintro p ⟨-, -, -, -, -, e, rest, hmade, -⟩
        exact hfirst p e rest (hcalls.symm.trans hmade)
      · obtain ⟨hmetrics, hprovider, hpages, htokens, husage, hresponse⟩ :=
          concluded_document hran hout
        rw [hstamp] at hmetrics husage hresponse
        refine .inr ⟨decision.provider.name, hnone, ⟨hmetrics, husage, hresponse⟩, input,
          decision, hinput, hroute, rfl, err, rest, hcalls.trans hmade, call, hcall, answered,
          hanswer, ?_⟩
        rw [hprovider, hpages, htokens, hdoc]
        exact ⟨rfl, rfl, rfl⟩

/-- A run is honest exactly when the document it gets directly carries no stamp. -/
theorem honest_iff (cache : ExtractionCache) :
    Honest env r (r.runPipeline env cache) ↔
      ∀ doc ∈ r.direct env cache, doc.fellBackFrom = none := by
  rcases runPipeline_direct (rfl : r.runPipeline env cache = _) with
    (⟨hdirect, hreports, hnot⟩ | ⟨doc, hdirect, hreports, hnot⟩) |
    ⟨primary, hdirect, hreports, hfell⟩
  · rw [honest_iff_of_reports hreports, hdirect]
    refine iff_of_true (fun p => ?_) (fun _ h => by cases h)
    exact iff_of_false (fun h => by cases h) (hnot p)
  · rw [honest_iff_of_reports hreports, hdirect]
    constructor
    · intro hstamp doc' hdoc'
      obtain rfl := Option.some.inj hdoc'
      refine Option.eq_none_iff_forall_ne_some.mpr fun p hp => ?_
      exact hnot p ((hstamp p).mp hp)
    · intro hunstamped p
      rw [hunstamped doc rfl]
      exact iff_of_false (fun h => by cases h) (hnot p)
  · rw [honest_iff_of_reports hreports, hdirect]
    refine iff_of_true (fun p => ⟨fun h => ?_, fun h => ?_⟩) (fun _ h => by cases h)
    · obtain rfl := Option.some.inj h
      exact hfell
    · rw [hfell.unique h]

end Run

/-- In every sequence of requests and expiring entries, from any cache, every run is honest
exactly when every run finds its direct document unstamped. -/
theorem fell_back_honest_iff (env : Environment) (s : Extractions) (as : List CacheAction) :
    Along (cacheStep env) (fun s a _ => a.Honest env s) s as ↔
      Guarded (cacheStep env) (fun s a => a.ReadsUnstamped env s) s as := by
  refine along_iff_guarded (I := fun _ => True) (fun s a t _ _ => ?_) (fun _ _ _ _ _ _ => trivial)
    trivial
  cases a with
  | run r => exact honest_iff s.cache
  | extract r => exact Iff.rfl
  | expire key => exact Iff.rfl

/-- Tesseract stands in for GLM-OCR; the next run has Tesseract as its primary, finds the
document in the cache and reports a fallback from GLM-OCR. -/
theorem stale_stamp_reported :
    ¬Along (cacheStep imageEnvironment) (fun s a _ => a.Honest imageEnvironment s) .empty
      [.run (scan true), .run (scan false)] := by
  intro h
  have hlast := ((along_cons _ _ _ _).mp ((along_cons _ _ _ _).mp h _ rfl).2 _ rfl).1
  have hstamped : ∃ doc ∈ (scan false).direct imageEnvironment
      ((scan true).runPipeline imageEnvironment fun _ => none).cache,
      doc.fellBackFrom = some "glm-ocr" := by
    refine ⟨_, rfl, ?_⟩
    decide
  obtain ⟨doc, hdoc, hstamp⟩ := hstamped
  have hnone := (honest_iff _).mp hlast doc hdoc
  rw [hnone] at hstamp
  cases hstamp

end HeirsOcr.Pipeline
