import HeirsOcr.ProviderRegistry
import HeirsOcr.TokenAccounting

/-!
# What the extraction cache holds

The cache is read under the key of the primary the router chose and written under the
key of the provider that answered, which every provider stamps on its document. Runs are
taken over any functions, dependencies and answers; beside the cache the state logs what
providers produced, so that an entry can be held against the bytes and the provider its
key names.
-/
namespace HeirsOcr.Pipeline
open Providers StepMachine

/-- Texts with one first separator agree before and after it. -/
theorem append_cons_inj {α : Type*} {a : α} {x x' z z' : List α} (hx : a ∉ x) (hx' : a ∉ x')
    (h : x ++ a :: z = x' ++ a :: z') : x = x' ∧ z = z' := by
  induction x generalizing x' with
  | nil =>
    cases x' with
    | nil => exact ⟨rfl, (List.cons.inj h).2⟩
    | cons b x' => exact absurd ((List.cons.inj h).1 ▸ List.mem_cons_self) hx'
  | cons b x ih =>
    cases x' with
    | nil => exact absurd ((List.cons.inj h).1 ▸ List.mem_cons_self) hx
    | cons b' x' =>
      obtain ⟨rfl, htail⟩ := List.cons.inj h
      obtain ⟨rfl, rfl⟩ := ih (fun hm => hx (List.mem_cons_of_mem b hm))
        (fun hm => hx' (List.mem_cons_of_mem b hm)) htail
      exact ⟨rfl, rfl⟩

theorem extractionCacheKey_toList (sha256 provider : String) :
    (extractionCacheKey sha256 provider none).toList =
      "ocr:extract:".toList ++ (sha256.toList ++ ':' :: (provider.toList ++ ":all".toList)) := by
  have hkey : extractionCacheKey sha256 provider none =
      "ocr:extract:" ++ sha256 ++ ":" ++ provider ++ ":" ++ "all" := rfl
  have hcolon : ":".toList = [':'] := rfl
  have hall : ":all".toList = ":".toList ++ "all".toList := rfl
  rw [hkey, hall]
  simp only [String.toList_append, List.append_assoc, hcolon, List.cons_append, List.nil_append]

/-- The key of a whole document determines the digest and the provider. -/
theorem extractionCacheKey_inj {sha256 sha256' provider provider' : String}
    (hsha : ':' ∉ sha256.toList) (hsha' : ':' ∉ sha256'.toList)
    (h : extractionCacheKey sha256 provider none = extractionCacheKey sha256' provider' none) :
    sha256 = sha256' ∧ provider = provider' := by
  have hlist := congrArg String.toList h
  rw [extractionCacheKey_toList, extractionCacheKey_toList] at hlist
  obtain ⟨hdigest, hrest⟩ := append_cons_inj hsha hsha' (List.append_cancel_left hlist)
  exact ⟨String.toList_inj.mp hdigest, String.toList_inj.mp (List.append_cancel_right hrest)⟩

/-- A document as its provider answered it, without the stamp of the fallback chain. -/
def unstamped (doc : RecognizedDocument) : RecognizedDocument := { doc with fellBackFrom := none }

theorem provider_eq_of_unstamped {doc answered : RecognizedDocument}
    (h : unstamped doc = unstamped answered) : doc.provider = answered.provider := by
  have hprovider := congrArg RecognizedDocument.provider h
  exact hprovider

/-- A document out of the loop is the answer of one provider of the chain, whose call was
made. -/
theorem recognizeFrom_some {primary : String} {input : DocumentInput} {opts : RecognizeOptions}
    {fallback : Bool} {chain : List OcrProvider} {doc : RecognizedDocument}
    (h : (recognizeFrom primary input opts fallback chain).2 = some doc) :
    ∃ p ∈ chain, ∃ answered, p.recognize input opts = .ok answered ∧
      unstamped doc = unstamped answered ∧
      ⟨p.name, .ok answered⟩ ∈ (recognizeFrom primary input opts fallback chain).1 := by
  induction chain generalizing fallback with
  | nil => simp [recognizeFrom] at h
  | cons q chain ih =>
    cases hq : q.recognize input opts with
    | ok answered =>
      simp only [recognizeFrom, hq, Option.some.injEq] at h
      refine ⟨q, List.mem_cons_self, answered, hq, ?_, by simp [recognizeFrom, hq]⟩
      subst h
      cases fallback <;> rfl
    | error e =>
      simp only [recognizeFrom, hq] at h
      obtain ⟨p, hp, answered, hanswer, hdoc, hcall⟩ := ih h
      refine ⟨p, List.mem_cons_of_mem q hp, answered, hanswer, hdoc, ?_⟩
      simpa [recognizeFrom, hq] using hcall

section Extract

variable {Json Llm TArgs TResult : Type} {fn : OcrFunctionDefinition Json Llm TArgs TResult}
  {input : DocumentInput} {opts : RecognizeOptions} {deps : PipelineDeps Llm}
  {cache : ExtractionCache}

theorem cachedDocument_some {p : OcrProvider} {doc : RecognizedDocument}
    (h : cachedDocument fn input deps cache p = some doc) :
    cache (extractionCacheKey input.sha256 p.name none) = some doc := by
  rw [cachedDocument] at h
  split_ifs at h
  exact h

theorem storeDocument_some {key : String} {doc stored : RecognizedDocument}
    (h : storeDocument fn input deps cache doc key = some stored) :
    cache key = some stored ∨
      (key = extractionCacheKey input.sha256 doc.provider none ∧ stored = doc) := by
  rw [storeDocument] at h
  split_ifs at h
  · by_cases hkey : key = extractionCacheKey input.sha256 doc.provider none
    · rw [hkey, Function.update_self] at h
      exact .inr ⟨hkey, (Option.some.inj h).symm⟩
    · rw [Function.update_of_ne hkey] at h
      exact .inl h
  · exact .inl h

/-- An extraction fails, hits the cache under the primary's key, or stores the answer of a
provider of the chain. -/
theorem extractDocument_cases {e : Extracted}
    (he : extractDocument fn input opts deps cache = e) :
    (∃ err, e.output = .error err ∧ e.cache = cache) ∨
    ∃ decision doc, routeProvider deps.providers (routeInput fn input deps) = .ok decision ∧
      ((e.output = .ok (doc, true) ∧ e.cache = cache ∧
          cachedDocument fn input deps cache decision.provider = some doc) ∨
        (e.output = .ok (doc, false) ∧ e.cache = storeDocument fn input deps cache doc ∧
          ∃ p ∈ decision.chain, ∃ answered, p.recognize input opts = .ok answered ∧
            unstamped doc = unstamped answered ∧ ⟨p.name, .ok answered⟩ ∈ e.calls)) := by
  subst he
  cases hroute : routeProvider deps.providers (routeInput fn input deps) with
  | error err => exact .inl ⟨err, by simp [extractDocument, hroute]⟩
  | ok decision =>
    cases hhit : cachedDocument fn input deps cache decision.provider with
    | some doc => exact .inr ⟨decision, doc, rfl, .inl (by simp [extractDocument, hroute, hhit])⟩
    | none =>
      cases hdoc : (recognizeFrom decision.provider.name input opts false decision.chain).2 with
      | none => exact .inl (by simp [extractDocument, hroute, hhit, recognizeWithFallback, hdoc])
      | some doc =>
        obtain ⟨p, hp, answered, hanswer, hstamp, hcall⟩ := recognizeFrom_some hdoc
        refine .inr ⟨decision, doc, rfl, .inr ?_⟩
        simp only [extractDocument, hroute, hhit, recognizeWithFallback, hdoc]
        exact ⟨trivial, trivial, p, hp, answered, hanswer, hstamp, hcall⟩

/-- Other functions neither look a document up nor store one: the cache an extraction meets
only passes through it. -/
theorem extractDocument_of_sensitive (h : fn.sensitivity ≠ .standard)
    (cache' : ExtractionCache) :
    extractDocument fn input opts deps cache' =
      { extractDocument fn input opts deps cache with cache := cache' } := by
  have huses : usesCache fn = false := by simp [usesCache, h]
  have hmiss : ∀ c p, cachedDocument fn input deps c p = none := by simp [cachedDocument, huses]
  have hkeep : ∀ c doc, storeDocument fn input deps c doc = c := by simp [storeDocument, huses]
  cases hroute : routeProvider deps.providers (routeInput fn input deps) with
  | error err => simp [extractDocument, hroute]
  | ok decision =>
    cases hdoc : (recognizeWithFallback decision input opts).2 <;>
      simp [extractDocument, hroute, hmiss, hkeep, hdoc]

end Extract

/-- A request to a function, with the dependencies it meets. -/
structure Request where
  Json : Type
  Llm : Type
  TArgs : Type
  TResult : Type
  emptyJson : EmptyCollection Json
  fn : OcrFunctionDefinition Json Llm TArgs TResult
  req : OcrRequest Json
  deps : PipelineDeps Llm

/-- Stages 1 and 2 alone; the answer is the document. -/
def extract {Json Llm TArgs TResult : Type} (env : Environment)
    (fn : OcrFunctionDefinition Json Llm TArgs TResult) (req : OcrRequest Json)
    (deps : PipelineDeps Llm) (cache : ExtractionCache) : Extracted :=
  match ingest env req with
  | .error e => ⟨.error e, cache, []⟩
  | .ok input => extractDocument fn input ⟨req.requestId, req.tenantId⟩ deps cache

instance (r : Request) : EmptyCollection r.Json := r.emptyJson

def Request.runPipeline (r : Request) (env : Environment) (cache : ExtractionCache) :
    Ran r.TResult :=
  Pipeline.runPipeline env r.fn r.req r.deps cache

def Request.extract (r : Request) (env : Environment) (cache : ExtractionCache) : Extracted :=
  Pipeline.extract env r.fn r.req r.deps cache

/-- What a provider says of itself. -/
structure Declaration where
  name : String
  accepts : List MimeGroup
  capabilities : List Capability
  deriving DecidableEq

def declaration (p : OcrProvider) : Declaration := ⟨p.name, p.accepts, p.capabilities⟩

/-- A document as a provider answered it, with that provider and the bytes it read. -/
structure Production where
  producer : Declaration
  buffer : Buffer
  doc : RecognizedDocument

/-- The productions of a request: the calls that were answered. -/
def Request.productions (r : Request) (calls : List RecognizeCall) : List Production :=
  calls.filterMap fun call =>
    match call.answer, r.deps.providers.find? (·.name = call.provider) with
    | .ok doc, some p => some ⟨declaration p, r.req.buffer, doc⟩
    | _, _ => none

/-- The cache, and what was produced so far. -/
structure Extractions where
  cache : ExtractionCache
  productions : List Production

def Extractions.empty : Extractions := ⟨fun _ => none, []⟩

/-- A run of the pipeline, a call of `extract`, or the end of an entry's time to live. -/
inductive CacheAction where
  | run (r : Request)
  | extract (r : Request)
  | expire (key : String)

def CacheAction.request : CacheAction → Option Request
  | .run r => some r
  | .extract r => some r
  | .expire _ => none

def cacheStep (env : Environment) (s : Extractions) : CacheAction → Option Extractions
  | .run r =>
    let ran := r.runPipeline env s.cache
    some ⟨ran.cache, s.productions ++ r.productions ran.calls⟩
  | .extract r =>
    let extracted := r.extract env s.cache
    some ⟨extracted.cache, s.productions ++ r.productions extracted.calls⟩
  | .expire key => some { s with cache := Function.update s.cache key none }

section System

variable {env : Environment} {r : Request} {s t : Extractions}

theorem sha256_of_ingest {input : DocumentInput} (h : ingest env r.req = .ok input) :
    input.sha256 = env.sha256 r.req.buffer := by
  rw [ingest] at h
  split at h
  · cases h
  · cases h
    rfl

theorem ingest_of_prepare {Json Llm TArgs TResult : Type} [EmptyCollection Json]
    {fn : OcrFunctionDefinition Json Llm TArgs TResult} {req : OcrRequest Json} {args : TArgs}
    {input : DocumentInput} (h : prepare env fn req = .ok (args, input)) :
    ingest env req = .ok input := by
  rw [prepare] at h
  split at h
  · cases h
  · split at h
    · cases h
    · rename_i hingest
      split_ifs at h
      cases h
      exact hingest

section Conclude

variable {Json Llm TArgs TResult : Type} (fn : OcrFunctionDefinition Json Llm TArgs TResult)
  (req : OcrRequest Json) (deps : PipelineDeps Llm) (args : TArgs) (input : DocumentInput)

variable (env) in
/-- What a run makes of its extraction. -/
def concluded (extracted : Extracted) : Ran TResult :=
  match extracted.output with
  | .error e => failed fn ⟨some input, none, false⟩ extracted.cache extracted.calls e
  | .ok (doc, cached) =>
    match checkPages fn req doc with
    | .error e => failed fn ⟨some input, some doc, cached⟩ extracted.cache extracted.calls e
    | .ok () =>
      match interpret fn (contextOf fn req deps input doc) args with
      | .error e => failed fn ⟨some input, some doc, cached⟩ extracted.cache extracted.calls e
      | .ok result =>
        succeeded env fn input doc cached extracted.cache extracted.calls args result

variable {fn req args input} in
theorem runPipeline_of_prepare [EmptyCollection Json]
    (h : prepare env fn req = .ok (args, input)) (cache : ExtractionCache) :
    runPipeline env fn req deps cache =
      concluded env fn req deps args input (extraction fn req deps cache input) := by
  simp only [runPipeline, h]
  rfl

/-- A run leaves the cache its extraction left and makes its calls; only an extraction that
hit is recorded as cached. -/
theorem concluded_spec (extracted : Extracted) {ran : Ran TResult}
    (hran : concluded env fn req deps args input extracted = ran) :
    ran.cache = extracted.cache ∧ ran.calls = extracted.calls ∧
      (ran.request.cached = true → ∃ doc, extracted.output = .ok (doc, true) ∧
        ran.request.provider = doc.provider) := by
  subst hran
  simp only [concluded]
  split
  · exact ⟨rfl, rfl, fun h => by cases h⟩
  · rename_i doc cached hout
    have hhit : cached = true → ∃ d, extracted.output = .ok (d, true) ∧ doc.provider = d.provider :=
      fun h => ⟨doc, h ▸ hout, rfl⟩
    split
    · exact ⟨rfl, rfl, hhit⟩
    · split
      · exact ⟨rfl, rfl, hhit⟩
      · exact ⟨rfl, rfl, hhit⟩

/-- The cache an extraction left only passes through the rest of the run. -/
theorem concluded_setCache (extracted : Extracted) (cache : ExtractionCache) :
    concluded env fn req deps args input { extracted with cache := cache } =
      { concluded env fn req deps args input extracted with cache := cache } := by
  simp only [concluded]
  cases extracted.output with
  | error e => rfl
  | ok output =>
    dsimp only
    cases checkPages fn req output.1 with
    | error e => rfl
    | ok _ =>
      dsimp only
      cases interpret fn (contextOf fn req deps input output.1) args <;> rfl

end Conclude

/-- A run that extracts nothing leaves the cache alone; every other is one extraction. -/
theorem runPipeline_cases {cache : ExtractionCache} {ran : Ran r.TResult}
    (hran : r.runPipeline env cache = ran) :
    (ran.cache = cache ∧ ran.calls = [] ∧ ran.request.cached = false) ∨
    ∃ input opts e, ingest env r.req = .ok input ∧
      extractDocument r.fn input opts r.deps cache = e ∧ ran.cache = e.cache ∧
      ran.calls = e.calls ∧ (ran.request.cached = true → ∃ doc, e.output = .ok (doc, true) ∧
        ran.request.provider = doc.provider) := by
  rw [Request.runPipeline] at hran
  subst hran
  cases hprepare : prepare env r.fn r.req with
  | error e =>
    obtain ⟨err, input⟩ := e
    exact .inl (by simp [Pipeline.runPipeline, hprepare, failed])
  | ok prepared =>
    obtain ⟨args, input⟩ := prepared
    obtain ⟨hcache, hcalls, hcached⟩ :=
      concluded_spec r.fn r.req r.deps args input (extraction r.fn r.req r.deps cache input)
        (runPipeline_of_prepare r.deps hprepare cache).symm
    by_cases hskip : r.fn.skipExtraction
    · have hplaceholder : extraction r.fn r.req r.deps cache input =
          ⟨.ok (emptyDocument, false), cache, []⟩ := if_pos hskip
      rw [hplaceholder] at hcache hcalls hcached
      refine .inl ⟨hcache, hcalls, Bool.eq_false_iff.mpr fun h => ?_⟩
      obtain ⟨doc, hdoc, -⟩ := hcached h
      cases hdoc
    · have hextract : extraction r.fn r.req r.deps cache input =
          extractDocument r.fn input ⟨r.req.requestId, r.req.tenantId⟩ r.deps cache := if_neg hskip
      rw [hextract] at hcache hcalls hcached
      exact .inr ⟨input, _, _, ingest_of_prepare hprepare, rfl, hcache, hcalls, hcached⟩

theorem extract_cases {cache : ExtractionCache} {e : Extracted} (he : r.extract env cache = e) :
    (e.cache = cache ∧ e.calls = [] ∧ ∃ err, e.output = .error err) ∨
    ∃ input opts, ingest env r.req = .ok input ∧
      extractDocument r.fn input opts r.deps cache = e := by
  rw [Request.extract, Pipeline.extract] at he
  split at he
  · subst he
    exact .inl ⟨rfl, rfl, _, rfl⟩
  · rename_i input hinput
    exact .inr ⟨input, _, hinput, he⟩

/-- What a step does: it drops an entry, or a request changes nothing, or it extracts. -/
theorem cacheStep_cases {a : CacheAction} (h : cacheStep env s a = some t) :
    (∃ key, a = .expire key ∧ t = { s with cache := Function.update s.cache key none }) ∨
    ∃ r, a.request = some r ∧ ((t.cache = s.cache ∧ t.productions = s.productions) ∨
      ∃ input opts e, ingest env r.req = .ok input ∧
        extractDocument r.fn input opts r.deps s.cache = e ∧ t.cache = e.cache ∧
        t.productions = s.productions ++ r.productions e.calls) := by
  cases a with
  | expire key => exact .inl ⟨key, rfl, (Option.some.inj h).symm⟩
  | run r =>
    obtain rfl := Option.some.inj h
    refine .inr ⟨r, rfl, ?_⟩
    rcases runPipeline_cases (rfl : r.runPipeline env s.cache = _) with
      ⟨hcache, hcalls, -⟩ | ⟨input, opts, e, hinput, he, hcache, hcalls, -⟩
    · exact .inl ⟨hcache, by simp [hcalls, Request.productions]⟩
    · exact .inr ⟨input, opts, e, hinput, he, hcache, by simp [hcalls]⟩
  | extract r =>
    obtain rfl := Option.some.inj h
    refine .inr ⟨r, rfl, ?_⟩
    rcases extract_cases (rfl : r.extract env s.cache = _) with
      ⟨hcache, hcalls, -⟩ | ⟨input, opts, hinput, he⟩
    · exact .inl ⟨hcache, by simp [hcalls, Request.productions]⟩
    · exact .inr ⟨input, opts, _, hinput, he, rfl, rfl⟩

/-- A digest in lower-case hexadecimal, as the runtime prints it. -/
def HexDigest (digest : String) : Prop := ∀ c ∈ digest.toList, c ∈ "0123456789abcdef".toList

theorem HexDigest.colon_notMem {digest : String} (h : HexDigest digest) :
    ':' ∉ digest.toList := by
  intro hcolon
  have hhex := h ':' hcolon
  revert hhex
  decide

variable (env) in
/-- Some provider of this name produced the document from bytes of this digest. -/
def Produced (s : Extractions) (sha256 provider : String) (doc : RecognizedDocument) : Prop :=
  ∃ p ∈ s.productions, p.producer.name = provider ∧ env.sha256 p.buffer = sha256 ∧
    unstamped p.doc = unstamped doc

variable (env) in
/-- Every entry was produced by the provider of its key from bytes of the key's digest. -/
def Sound (s : Extractions) : Prop :=
  ∀ sha256 provider doc, HexDigest sha256 →
    s.cache (extractionCacheKey sha256 provider none) = some doc →
    Produced env s sha256 provider doc

variable (env) in
/-- The cache answers a request: with the entry of the primary the router chose, which that
provider produced. -/
def Request.Hit (r : Request) (s : Extractions) (doc : RecognizedDocument) : Prop :=
  ∃ input decision, ingest env r.req = .ok input ∧
    routeProvider r.deps.providers (routeInput r.fn input r.deps) = .ok decision ∧
    s.cache (extractionCacheKey input.sha256 decision.provider.name none) = some doc ∧
    doc.provider = decision.provider.name ∧
    Produced env s input.sha256 decision.provider.name doc

variable (env) in
def CacheAction.HitsPrimary (s : Extractions) : CacheAction → Prop
  | .run r =>
    (r.runPipeline env s.cache).request.cached = true → ∃ doc, r.Hit env s doc ∧
      (r.runPipeline env s.cache).request.provider = doc.provider
  | .extract r => ∀ doc, (r.extract env s.cache).output = .ok (doc, true) → r.Hit env s doc
  | .expire _ => True

variable (env) in
/-- A request to a function that is not `standard` leaves the cache as it is and does the
same on any other. -/
def CacheAction.Uncached (s : Extractions) : CacheAction → Prop
  | .run r => r.fn.sensitivity ≠ .standard → ∀ cache, r.runPipeline env cache =
      { r.runPipeline env s.cache with cache := cache }
  | .extract r => r.fn.sensitivity ≠ .standard → ∀ cache, r.extract env cache =
      { r.extract env s.cache with cache := cache }
  | .expire _ => True

def CacheAction.Stamped (a : CacheAction) : Prop :=
  ∀ r, a.request = some r → ∀ p ∈ r.deps.providers, StampsName p

theorem Produced.mono {sha256 provider : String} {doc : RecognizedDocument}
    (h : Produced env s sha256 provider doc) (hst : s.productions ⊆ t.productions) :
    Produced env t sha256 provider doc := by
  obtain ⟨p, hp, hproduced⟩ := h
  exact ⟨p, hst hp, hproduced⟩

/-- An answered call of a registered provider is a production. -/
theorem mem_productions {calls : List RecognizeCall} {p : OcrProvider}
    {answered : RecognizedDocument} (hp : p ∈ r.deps.providers)
    (hcall : ⟨p.name, .ok answered⟩ ∈ calls) :
    ∃ q ∈ r.deps.providers, q.name = p.name ∧
      ⟨declaration q, r.req.buffer, answered⟩ ∈ r.productions calls := by
  have hfound : (r.deps.providers.find? (·.name = p.name)).isSome := by
    rw [List.find?_isSome]
    exact ⟨p, hp, by simp⟩
  obtain ⟨q, hq⟩ := Option.isSome_iff_exists.mp hfound
  have hname : q.name = p.name := by simpa using List.find?_some hq
  refine ⟨q, List.mem_of_find?_eq_some hq, hname, ?_⟩
  rw [Request.productions, List.mem_filterMap]
  exact ⟨_, hcall, by simp [hq]⟩

variable (env) in
/-- Every entry sits under the key of a provider that produced it and whose name it
carries. -/
def Keyed (s : Extractions) : Prop :=
  ∀ key doc, s.cache key = some doc → ∃ buffer,
    key = extractionCacheKey (env.sha256 buffer) doc.provider none ∧
    Produced env s (env.sha256 buffer) doc.provider doc

theorem Keyed.of_cache_eq (hs : Keyed env s) (hcache : t.cache = s.cache)
    (hst : s.productions ⊆ t.productions) : Keyed env t := by
  intro key doc hdoc
  obtain ⟨buffer, hkey, hproduced⟩ := hs key doc (hcache ▸ hdoc)
  exact ⟨buffer, hkey, hproduced.mono hst⟩

theorem Keyed.sound (hsha : ∀ buffer, HexDigest (env.sha256 buffer)) (hs : Keyed env s) :
    Sound env s := by
  intro sha256 provider doc hhex hdoc
  obtain ⟨buffer, hkey, hproduced⟩ := hs _ doc hdoc
  obtain ⟨rfl, rfl⟩ :=
    extractionCacheKey_inj hhex.colon_notMem (hsha buffer).colon_notMem hkey
  exact hproduced

/-- A fresh document is stored under the key of the provider that answered. -/
theorem Keyed.extract {input : DocumentInput} {opts : RecognizeOptions} {e : Extracted}
    (hs : Keyed env s) (hstamp : ∀ p ∈ r.deps.providers, StampsName p)
    (hinput : ingest env r.req = .ok input)
    (he : extractDocument r.fn input opts r.deps s.cache = e) (hcache : t.cache = e.cache)
    (hproductions : t.productions = s.productions ++ r.productions e.calls) : Keyed env t := by
  have hst : s.productions ⊆ t.productions := by simp [hproductions]
  rcases extractDocument_cases he with
    ⟨err, -, hkeep⟩ | ⟨decision, doc, hroute, ⟨-, hkeep, -⟩ | ⟨-, hstore, p, hp, answered,
      hanswer, hstamped, hcall⟩⟩
  · exact hs.of_cache_eq (hcache.trans hkeep) hst
  · exact hs.of_cache_eq (hcache.trans hkeep) hst
  · intro key stored hstored
    rw [hcache, hstore] at hstored
    rcases storeDocument_some hstored with hold | ⟨rfl, rfl⟩
    · obtain ⟨buffer, hkey, hproduced⟩ := hs key stored hold
      exact ⟨buffer, hkey, hproduced.mono hst⟩
    · have hregistered := (satisfies_of_routeProvider hroute p hp).1
      have hprovider : stored.provider = p.name :=
        (provider_eq_of_unstamped hstamped).trans (hstamp p hregistered input opts answered hanswer)
      obtain ⟨q, -, hname, hmem⟩ := mem_productions hregistered hcall
      refine ⟨r.req.buffer, by rw [sha256_of_ingest hinput],
        ⟨declaration q, r.req.buffer, answered⟩, ?_, ?_, rfl, hstamped.symm⟩
      · rw [hproductions]
        exact List.mem_append_right _ hmem
      · rw [hprovider]
        exact hname

theorem keyed_step {a : CacheAction} (hs : Keyed env s) (ha : a.Stamped)
    (h : cacheStep env s a = some t) : Keyed env t := by
  rcases cacheStep_cases h with ⟨key, rfl, rfl⟩ | ⟨r, hr, ⟨hcache, hkeep⟩ | ⟨input, opts, e,
    hinput, he, hcache, hproductions⟩⟩
  · intro key' doc hdoc
    by_cases hkey : key' = key
    · simp [hkey] at hdoc
    · exact hs key' doc (by simpa [hkey] using hdoc)
  · exact hs.of_cache_eq hcache (by simp [hkeep])
  · exact hs.extract (ha r hr) hinput he hcache hproductions

/-- A hit is the entry of the routed primary. -/
theorem Keyed.hit {input : DocumentInput} {opts : RecognizeOptions} {doc : RecognizedDocument}
    (hsha : ∀ buffer, HexDigest (env.sha256 buffer)) (hs : Keyed env s)
    (hinput : ingest env r.req = .ok input)
    (hhit : (extractDocument r.fn input opts r.deps s.cache).output = .ok (doc, true)) :
    r.Hit env s doc := by
  rcases extractDocument_cases (rfl : extractDocument r.fn input opts r.deps s.cache = _) with
    ⟨err, herr, -⟩ | ⟨decision, stored, hroute, ⟨hstored, -, hfound⟩ | ⟨hfresh, -⟩⟩
  · cases hhit.symm.trans herr
  · cases hhit.symm.trans hstored
    have hentry := cachedDocument_some hfound
    obtain ⟨buffer, hkey, hproduced⟩ := hs _ doc hentry
    have hdigest : HexDigest input.sha256 := sha256_of_ingest hinput ▸ hsha r.req.buffer
    obtain ⟨-, hprovider⟩ :=
      extractionCacheKey_inj hdigest.colon_notMem (hsha buffer).colon_notMem hkey
    exact ⟨input, decision, hinput, hroute, hentry, hprovider.symm,
      hs.sound hsha _ _ _ hdigest hentry⟩
  · cases hhit.symm.trans hfresh

theorem hitsPrimary_of_keyed (hsha : ∀ buffer, HexDigest (env.sha256 buffer))
    (hs : Keyed env s) (a : CacheAction) : a.HitsPrimary env s := by
  cases a with
  | expire key => trivial
  | run r =>
    intro hcached
    rcases runPipeline_cases (rfl : r.runPipeline env s.cache = _) with
      ⟨-, -, hnot⟩ | ⟨input, opts, e, hinput, rfl, -, -, hhit⟩
    · cases hcached.symm.trans hnot
    · obtain ⟨doc, hdoc, hprovider⟩ := hhit hcached
      exact ⟨doc, hs.hit hsha hinput hdoc, hprovider⟩
  | extract r =>
    intro doc hdoc
    rcases extract_cases (rfl : r.extract env s.cache = _) with
      ⟨-, -, err, herr⟩ | ⟨input, opts, hinput, he⟩
    · cases hdoc.symm.trans herr
    · exact hs.hit hsha hinput (he ▸ hdoc)

theorem runPipeline_of_sensitive {Json Llm TArgs TResult : Type} [EmptyCollection Json]
    {fn : OcrFunctionDefinition Json Llm TArgs TResult} (h : fn.sensitivity ≠ .standard)
    (req : OcrRequest Json) (deps : PipelineDeps Llm) (cache cache' : ExtractionCache) :
    Pipeline.runPipeline env fn req deps cache' =
      { Pipeline.runPipeline env fn req deps cache with cache := cache' } := by
  cases hprepare : prepare env fn req with
  | error e => simp [Pipeline.runPipeline, hprepare, failed]
  | ok prepared =>
    obtain ⟨args, input⟩ := prepared
    have hstage : extraction fn req deps cache' input =
        { extraction fn req deps cache input with cache := cache' } := by
      simp only [extraction]
      split_ifs
      · rfl
      · exact extractDocument_of_sensitive h cache'
    rw [runPipeline_of_prepare deps hprepare, runPipeline_of_prepare deps hprepare, hstage,
      concluded_setCache]

theorem uncached (s : Extractions) (a : CacheAction) : a.Uncached env s := by
  cases a with
  | expire key => trivial
  | run r => exact fun h cache => runPipeline_of_sensitive h r.req r.deps s.cache cache
  | extract r =>
    intro h cache
    simp only [Request.extract, Pipeline.extract]
    cases hinput : ingest env r.req with
    | error e => rfl
    | ok input => exact extractDocument_of_sensitive h cache

theorem keyed_empty : Keyed env .empty := by
  intro key doc h
  cases h

end System

/-- Over every run whose providers stamp their name, each entry was produced by the provider
of its key from bytes of its digest, a hit is for the primary of its run, and functions that
are not `standard` bypass the cache. -/
theorem extraction_cache_sound (env : Environment)
    (hsha : ∀ buffer, HexDigest (env.sha256 buffer)) (as : List CacheAction)
    (has : Guarded (cacheStep env) (fun _ a => a.Stamped) .empty as) :
    Throughout (cacheStep env) (Sound env) .empty as ∧
      Along (cacheStep env) (fun s a _ => a.HitsPrimary env s ∧ a.Uncached env s) .empty as := by
  have hkept : ∀ s a t, Keyed env s → a.Stamped → cacheStep env s a = some t → Keyed env t :=
    fun _ _ _ hs ha h => keyed_step hs ha h
  constructor
  · have hkeyed := throughout_of_guarded hkept keyed_empty has
    exact hkeyed.mono fun s hs => hs.sound hsha
  · refine along_of_invariant (I := Keyed env) (fun s a t hs ha h => ?_) keyed_empty has
    exact ⟨hkept s a t hs ha h, hitsPrimary_of_keyed hsha hs a, uncached s a⟩

/-- Engines of which only the local ones answer. -/
def offlineEngines : Engines where
  utf8 _ := ""
  base64 _ := "/9j/4A=="
  getText _ := .error "Invalid PDF structure"
  convertToHtml _ := .error "Can't find end of central directory"
  turndown _ := ""
  rasterizePdf _ := .error "Invalid PDF structure"
  readPage _ := .ok ⟨"Total 100", []⟩
  layoutParsing _ := .error "GLM layout_parsing failed: 503 Service Unavailable"

/-- The upload of `receiptRun` to the code's own registry, GLM-OCR enabled or not. -/
def scan (GLM_ENABLED : Bool) : Request where
  Json := List (String × String)
  Llm := Unit
  TArgs := Unit
  TResult := String
  emptyJson := inferInstance
  fn := receiptText
  req := receiptRun.req
  deps := ⟨(), buildProviderRegistry GLM_ENABLED offlineEngines,
    ⟨⟨"glm-ocr", ["tesseract"]⟩, ⟨"glm-ocr", ["tesseract"]⟩, fun _ => none⟩, false, false⟩

theorem hexDigest_imageEnvironment (buffer : Buffer) :
    HexDigest (imageEnvironment.sha256 buffer) := by
  have hall : (imageEnvironment.sha256 buffer).toList.all
      (fun c => "0123456789abcdef".toList.elem c) = true := by
    simp only [imageEnvironment]
    decide +kernel
  intro c hc
  exact List.elem_iff.mp (List.all_eq_true.mp hall c hc)

theorem scan_stamped (GLM_ENABLED : Bool) : (CacheAction.run (scan GLM_ENABLED)).Stamped := by
  intro r hr p hp
  obtain rfl := Option.some.inj hr
  exact stampsName_of_mem_buildProviderRegistry hp

/-- With GLM-OCR down Tesseract's document is stored under Tesseract, and is a hit once
GLM-OCR is disabled and Tesseract the primary. -/
theorem extraction_cache_sound_fallback :
    (exec (cacheStep imageEnvironment) .empty [.run (scan true)]).map (fun s =>
      ((scan false).runPipeline imageEnvironment s.cache).request.cached) = some true ∧
    Throughout (cacheStep imageEnvironment) (Sound imageEnvironment) .empty
      [.run (scan true), .run (scan false)] ∧
    Along (cacheStep imageEnvironment)
      (fun s a _ => a.HitsPrimary imageEnvironment s ∧ a.Uncached imageEnvironment s) .empty
      [.run (scan true), .run (scan false)] := by
  have hstamped : Guarded (cacheStep imageEnvironment) (fun _ a => a.Stamped) .empty
      [.run (scan true), .run (scan false)] := ⟨scan_stamped true, scan_stamped false, trivial⟩
  exact ⟨by decide, extraction_cache_sound imageEnvironment hexDigest_imageEnvironment _ hstamped⟩

end HeirsOcr.Pipeline
