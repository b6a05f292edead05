import HeirsOcr.CacheSoundness
import HeirsOcr.JobWorker

/-!
# What a job tells of its outcome

Every attempt of a job tells the registry and the webhooks how it went, and only afterwards
the worker and the queue decide whether it was the last. An attempt that fails and is made
again has therefore told of a failure that is none yet. A job tells one outcome exactly
when its first attempt does not fail with an error that is retried.
-/
namespace HeirsOcr.Jobs
open Pipeline Providers StepMachine

variable {Json Llm TArgs TResult : Type}

section Statement

variable [EmptyCollection Json] (env : Environment)

section Retried

variable (fn : OcrFunctionDefinition Json Llm TArgs TResult) (req : OcrRequest Json)
  (d : Delivery Llm)

/-- No provider of the routed chain recognizes the document, and the cache does not have it. -/
def AllProvidersFail : Prop :=
  ∃ args input decision, prepare env fn req = .ok (args, input) ∧ fn.skipExtraction = false ∧
    routeProvider d.deps.providers (routeInput fn input d.deps) = .ok decision ∧
    cachedDocument fn input d.deps d.cache decision.provider = none ∧
    ∀ p ∈ decision.chain, ∃ e, p.recognize input ⟨req.requestId, req.tenantId⟩ = .error e

/-- The function is executed and throws an error it calls retryable. -/
def ThrowsRetryable : Prop :=
  ∃ args input doc cached e, prepare env fn req = .ok (args, input) ∧
    (extraction fn req d.deps d.cache input).output = .ok (doc, cached) ∧
    checkPages fn req doc = .ok () ∧
    fn.execute (contextOf fn req d.deps input doc) args = .error (.ocrError e) ∧
    e.retryable = true

end Retried

/-- A delivery whose failure is retried: the providers all fail, or the function says so. -/
def FailsRetryably (definitions : List (AnyOcrFunctionDefinition Json Llm))
    (data : OcrJobData Json) (d : Delivery Llm) : Prop :=
  ∃ fn request, getFunction definitions data.function = some fn ∧
    reviveRequest data = .ok request ∧
    (AllProvidersFail env fn.definition request d ∨ ThrowsRetryable env fn.definition request d)

end Statement

/-- The outcome of a job; there is none while an attempt remains. -/
def JobState.outcome : JobState → Option Outcome
  | .waiting => none
  | .completed _ => some .success
  | .failed _ => some .error

/-- The webhooks and the registry were told the outcome of the job, once, when it had one. -/
structure OneOutcome (job : Job) : Prop where
  events : job.events.map DocumentEventPayload.event = (job.state.outcome.map webhookEvent).toList
  rows : job.rows.map RecordDocumentInput.outcome = job.state.outcome.toList

section Extract

variable {input : DocumentInput} {opts : RecognizeOptions} {primary : String}

theorem recognizeFrom_eq_none {fallback : Bool} {chain : List OcrProvider} :
    (recognizeFrom primary input opts fallback chain).2 = none ↔
      ∀ p ∈ chain, ∃ e, p.recognize input opts = .error e := by
  induction chain generalizing fallback with
  | nil => simp [recognizeFrom]
  | cons p chain ih =>
    rw [List.forall_mem_cons]
    cases hp : p.recognize input opts with
    | ok doc => simp [recognizeFrom, hp]
    | error e => simp [recognizeFrom, hp, ih]

variable {fn : OcrFunctionDefinition Json Llm TArgs TResult} {deps : PipelineDeps Llm}
  {cache : ExtractionCache}

/-- An extraction is worth another attempt when all the providers it called failed. -/
theorem extractDocument_retryable :
    (∃ e, (extractDocument fn input opts deps cache).output = .error e ∧ e.retryable = true) ↔
      ∃ decision, routeProvider deps.providers (routeInput fn input deps) = .ok decision ∧
        cachedDocument fn input deps cache decision.provider = none ∧
        ∀ p ∈ decision.chain, ∃ e, p.recognize input opts = .error e := by
  cases hroute : routeProvider deps.providers (routeInput fn input deps) with
  | error e =>
    have hfinal : e.retryable = false := by
      rw [routeProvider] at hroute
      split at hroute
      · cases hroute
      · cases hroute
        rfl
    simp [extractDocument, hroute, hfinal]
  | ok decision =>
    cases hhit : cachedDocument fn input deps cache decision.provider with
    | some doc => simp [extractDocument, hroute, hhit]
    | none =>
      cases hdoc : (recognizeFrom decision.provider.name input opts false decision.chain).2 with
      | none =>
        have hall := recognizeFrom_eq_none.mp hdoc
        simp only [extractDocument, hroute, hhit, recognizeWithFallback, hdoc]
        exact iff_of_true ⟨_, rfl, rfl⟩ ⟨decision, rfl, hhit, hall⟩
      | some doc =>
        have hsome := mt recognizeFrom_eq_none.mpr (hdoc.trans_ne (Option.some_ne_none doc))
        simp [extractDocument, hroute, hhit, recognizeWithFallback, hdoc, hsome]

end Extract

/-- The outcome of an answer. -/
def outcomeOf {α : Type} : Except OcrError α → Outcome
  | .ok _ => .success
  | .error _ => .error

section Attempt

variable {env : Environment} {fn : OcrFunctionDefinition Json Llm TArgs TResult}
  {req : OcrRequest Json} {d : Delivery Llm} {e : OcrError}

theorem prepare_retryable [EmptyCollection Json] {input : Option DocumentInput}
    (h : prepare env fn req = .error (e, input)) : e.retryable = false := by
  rw [prepare] at h
  split at h
  · rename_i hargs
    rw [parseArgs] at hargs
    split at hargs <;> cases hargs
    cases h
    rfl
  · split at h
    · rename_i hingest
      rw [ingest] at hingest
      split at hingest <;> cases hingest
      cases h
      rfl
    · split_ifs at h
      cases h
      rfl

theorem checkPages_retryable {doc : RecognizedDocument} (h : checkPages fn req doc = .error e) :
    e.retryable = false := by
  rw [checkPages] at h
  split_ifs at h
  · cases h
    rfl
  · split at h
    · cases h
    · split_ifs at h
      cases h
      rfl

theorem interpret_retryable {ctx : OcrContext Llm} {args : TArgs} :
    (∃ e, interpret fn ctx args = .error e ∧ e.retryable = true) ↔
      ∃ e, fn.execute ctx args = .error (.ocrError e) ∧ e.retryable = true := by
  cases hexecute : fn.execute ctx args with
  | ok raw =>
    cases hresult : fn.resultSchema args raw <;> simp [interpret, hexecute, hresult, OcrError.of]
  | error thrown =>
    cases thrown with
    | ocrError e => simp [interpret, hexecute]
    | other message => simp [interpret, hexecute, OcrError.of]

/-- The extraction of a run is worth another attempt when all providers fail. -/
theorem allProvidersFail_iff [EmptyCollection Json] {args : TArgs} {input : DocumentInput}
    (hprepare : prepare env fn req = .ok (args, input)) :
    AllProvidersFail env fn req d ↔
      ∃ e, (extraction fn req d.deps d.cache input).output = .error e ∧ e.retryable = true := by
  by_cases hskip : fn.skipExtraction = true
  · rw [extraction, if_pos hskip]
    refine iff_of_false ?_ ?_
    · rintro ⟨_, _, _, _, hruns, _⟩
      rw [hskip] at hruns
      cases hruns
    · rintro ⟨_, hout, _⟩
      cases hout
  · rw [extraction, if_neg hskip, extractDocument_retryable]
    constructor
    · rintro ⟨args', input', decision, hprepare', -, hchain⟩
      cases hprepare.symm.trans hprepare'
      exact ⟨decision, hchain⟩
    · rintro ⟨decision, hchain⟩
      exact ⟨args, input, decision, hprepare, Bool.eq_false_iff.mpr hskip, hchain⟩

/-- A run fails with an error that is retried in two cases. -/
theorem runPipeline_retryable [EmptyCollection Json] :
    (∃ e, (runPipeline env fn req d.deps d.cache).response = .error e ∧ e.retryable = true) ↔
      AllProvidersFail env fn req d ∨ ThrowsRetryable env fn req d := by
  cases hprepare : prepare env fn req with
  | error failure =>
    obtain ⟨e, input⟩ := failure
    have hfinal := prepare_retryable hprepare
    simp [runPipeline, hprepare, failed, AllProvidersFail, ThrowsRetryable, hfinal]
  | ok prepared =>
    obtain ⟨args, input⟩ := prepared
    rw [runPipeline_of_prepare d.deps hprepare, allProvidersFail_iff hprepare]
    cases hout : (extraction fn req d.deps d.cache input).output with
    | error e =>
      have hthrows : ¬ThrowsRetryable env fn req d := by
        rintro ⟨_, _, doc, cached, _, hprepare', hdoc, -⟩
        cases hprepare.symm.trans hprepare'
        cases hout.symm.trans hdoc
      rw [or_iff_left hthrows]
      simp [concluded, hout, failed]
    | ok extracted =>
      obtain ⟨doc, cached⟩ := extracted
      have hthrows : ThrowsRetryable env fn req d ↔ checkPages fn req doc = .ok () ∧
          ∃ e, fn.execute (contextOf fn req d.deps input doc) args = .error (.ocrError e) ∧
            e.retryable = true := by
        constructor
        · rintro ⟨_, _, _, _, e, hprepare', hdoc, hpages, hexecute⟩
          cases hprepare.symm.trans hprepare'
          cases hout.symm.trans hdoc
          exact ⟨hpages, e, hexecute⟩
        · rintro ⟨hpages, e, hexecute⟩
          exact ⟨args, input, doc, cached, e, hprepare, hout, hpages, hexecute⟩
      have hextracted : ¬∃ e, (Except.ok (doc, cached) : Except OcrError _) = .error e ∧
          e.retryable = true := by
        rintro ⟨_, h, _⟩
        cases h
      rw [or_iff_right hextracted, hthrows, ← interpret_retryable]
      cases hpages : checkPages fn req doc with
      | error e =>
        have hfinal := checkPages_retryable hpages
        simp [concluded, hout, hpages, failed, hfinal]
      | ok _ =>
        cases hresult : interpret fn (contextOf fn req d.deps input doc) args with
        | error e => simp [concluded, hout, hpages, hresult, failed]
        | ok result => simp [concluded, hout, hpages, hresult, succeeded]

/-- What a run hands to the registry and the webhooks is its own outcome. -/
theorem archived_outcome [EmptyCollection Json] {ran : Ran TResult}
    (hran : runPipeline env fn req d.deps d.cache = ran) :
    ran.archived.outcome = outcomeOf ran.response := by
  subst hran
  cases hprepare : prepare env fn req with
  | error failure =>
    simp only [runPipeline, hprepare]
    rfl
  | ok prepared =>
    obtain ⟨args, input⟩ := prepared
    rw [runPipeline_of_prepare d.deps hprepare]
    cases hout : (extraction fn req d.deps d.cache input).output with
    | error e =>
      simp only [concluded, hout]
      rfl
    | ok extracted =>
      obtain ⟨doc, cached⟩ := extracted
      cases hpages : checkPages fn req doc with
      | error e =>
        simp only [concluded, hout, hpages]
        rfl
      | ok _ =>
        simp only [concluded, hout, hpages]
        cases interpret fn (contextOf fn req d.deps input doc) args <;> rfl

end Attempt

section Job

variable [EmptyCollection Json] {env : Environment} {settings : AsyncSettings}
  {definitions : List (AnyOcrFunctionDefinition Json Llm)} {function : String}
  {request : OcrRequest Json} {data : OcrJobData Json} {d : Delivery Llm}

/-- An attempt at a job of the queue tells its own outcome, and is retried when the pipeline
failed so. -/
theorem processJob_spec (h : asyncJob settings definitions function request = some data)
    {p : Processed} (hp : processJob env definitions data d = p) :
    p.events.map DocumentEventPayload.event = [webhookEvent (outcomeOf p.response)] ∧
      p.rows.map RecordDocumentInput.outcome = [outcomeOf p.response] ∧
      ((∃ e, p.response = .error e ∧ e.retryable = true) ↔
        FailsRetryably env definitions data d) := by
  obtain ⟨fn, hfn, hstandard, hrevive⟩ := asyncJob_spec h
  have hran := archived_outcome
    (rfl : runPipeline env fn.definition request d.deps d.cache = _)
  have hrecordable : isRecordable fn.definition.sensitivity = true := by
    simp [isRecordable, hstandard]
  have hretry : FailsRetryably env definitions data d ↔
      AllProvidersFail env fn.definition request d ∨
        ThrowsRetryable env fn.definition request d := by
    constructor
    · rintro ⟨fn', request', hfn', hrevive', hfails⟩
      cases hfn.symm.trans hfn'
      cases hrevive.symm.trans hrevive'
      exact hfails
    · exact fun hfails => ⟨fn, request, hfn, hrevive, hfails⟩
  rw [hretry, ← runPipeline_retryable]
  subst hp
  simp only [processJob, hfn, hrevive, archiveAndRecord, hrecordable, if_true]
  cases hresponse : (runPipeline env fn.definition request d.deps d.cache).response with
  | ok answer =>
    rw [hresponse] at hran
    simp [dispatchDocumentEvent, outcomeOf, hran, Except.map]
  | error e =>
    rw [hresponse] at hran
    simp [dispatchDocumentEvent, outcomeOf, hran, Except.map]

theorem oneOutcome_queued : OneOutcome queued := ⟨rfl, rfl⟩

/-- A job that was told one outcome needs to be in its state. -/
theorem oneOutcome_iff_of_told {job : Job} {outcome : Outcome}
    (hevents : job.events.map DocumentEventPayload.event = [webhookEvent outcome])
    (hrows : job.rows.map RecordDocumentInput.outcome = [outcome]) :
    OneOutcome job ↔ job.state.outcome = some outcome := by
  constructor
  · intro hone
    have htold := hone.rows
    rw [hrows] at htold
    exact Option.toList_eq_singleton_iff.mp htold.symm
  · intro houtcome
    refine ⟨?_, ?_⟩
    · rw [hevents, houtcome]
      rfl
    · rw [hrows, houtcome]
      rfl

/-- The first attempt leaves the job with one outcome told unless it is to be retried. -/
theorem oneOutcome_first (h : asyncJob settings definitions function request = some data)
    {job : Job} (hjob : deliver env definitions data queued d = some job) :
    OneOutcome job ↔ ¬FailsRetryably env definitions data d := by
  obtain ⟨hevents, hrows, hretry⟩ := processJob_spec h (rfl : processJob env definitions data d = _)
  obtain rfl := Option.some.inj hjob
  rw [oneOutcome_iff_of_told hevents hrows, ← hretry]
  cases hresponse : (processJob env definitions data d).response with
  | ok answer => simp [Except.mapError, settle, JobState.outcome, outcomeOf]
  | error e =>
    cases hretryable : e.retryable with
    | true =>
      have hattempts : queued.attemptsMade + 1 < JOB_ATTEMPTS := by decide
      simp [Except.mapError, workerError, hretryable, settle, hattempts, JobState.outcome]
    | false => simp [Except.mapError, workerError, hretryable, settle, JobState.outcome, outcomeOf]

/-- A job that told its outcome is settled. -/
theorem deliver_none_of_oneOutcome {job : Job} (hone : OneOutcome job) (htold : job.events ≠ []) :
    deliver env definitions data job d = none := by
  cases hstate : job.state with
  | waiting =>
    have hevents := hone.events
    rw [hstate] at hevents
    exact absurd (List.map_eq_nil_iff.mp hevents) htold
  | completed answer => simp [deliver, hstate]
  | failed failedReason => simp [deliver, hstate]

/-- For every job of the queue and all its deliveries, whatever they meet, the job has told
its one outcome throughout exactly when the first attempt does not fail retryably. -/
theorem one_outcome_iff (h : asyncJob settings definitions function request = some data)
    (ds : List (Delivery Llm)) :
    Throughout (deliver env definitions data) OneOutcome queued ds ↔
      ∀ d ∈ ds.head?, ¬FailsRetryably env definitions data d := by
  rw [Throughout, and_iff_right oneOutcome_queued]
  cases ds with
  | nil => simp
  | cons d ds =>
    have hstep : ∃ job, deliver env definitions data queued d = some job ∧ job.events ≠ [] := by
      obtain ⟨hevents, -, -⟩ := processJob_spec h (rfl : processJob env definitions data d = _)
      refine ⟨_, rfl, fun hempty => ?_⟩
      have hnone : (processJob env definitions data d).events = [] := hempty
      rw [hnone] at hevents
      cases hevents
    obtain ⟨job, hjob, htold⟩ := hstep
    have hfirst := oneOutcome_first h hjob
    simp only [List.head?_cons, Option.mem_some_iff, forall_eq']
    rw [along_cons, ← hfirst]
    constructor
    · exact fun hall => (hall job hjob).1
    · intro hone job' hjob'
      obtain rfl := Option.some.inj (hjob.symm.trans hjob')
      refine ⟨hone, ?_⟩
      cases ds with
      | nil => trivial
      | cons d' ds =>
        rw [along_cons]
        intro t ht
        rw [deliver_none_of_oneOutcome hone htold] at ht
        cases ht

end Job

/-- The catalog with one function. -/
def receiptCatalog : List (AnyOcrFunctionDefinition (List (String × String)) Unit) :=
  [⟨Unit, String, receiptText⟩]

/-- A threshold the small image is over. -/
def smallThreshold : AsyncSettings := ⟨3, 10, fun _ => none⟩

def receiptJob : OcrJobData (List (String × String)) := jobData "RECEIPT_PARSING" receiptRun.req

theorem asyncJob_receipt :
    asyncJob smallThreshold receiptCatalog "RECEIPT_PARSING" receiptRun.req = some receiptJob := rfl

/-- A delivery to the code's own registry over the given engines. -/
def delivery (engines : Engines) : Delivery Unit where
  deps := ⟨(), buildProviderRegistry true engines,
    ⟨⟨"glm-ocr", ["tesseract"]⟩, ⟨"glm-ocr", ["tesseract"]⟩, fun _ => none⟩, false, false⟩
  cache := fun _ => none
  storageKey := none

/-- GLM-OCR and Tesseract both fail. -/
def outage : Engines :=
  { offlineEngines with readPage := fun _ => .error "tesseract worker terminated" }

theorem one_outcome_answered :
    asyncJob smallThreshold receiptCatalog "RECEIPT_PARSING" receiptRun.req = some receiptJob ∧
      Throughout (deliver imageEnvironment receiptCatalog receiptJob) OneOutcome queued
        [delivery offlineEngines, delivery outage] := by
  refine ⟨asyncJob_receipt, (one_outcome_iff asyncJob_receipt _).mpr fun d hd => ?_⟩
  obtain rfl := Option.some.inj hd
  rw [← (processJob_spec asyncJob_receipt rfl).2.2]
  have hanswered : (processJob imageEnvironment receiptCatalog receiptJob
      (delivery offlineEngines)).response.isOk = true := by decide
  rintro ⟨e, he, -⟩
  rw [he] at hanswered
  cases hanswered

/-- The providers fail the first attempt and answer the second: the webhooks hear that the
document failed, and then that it was processed. -/
theorem failure_told_before_success :
    ¬Throughout (deliver imageEnvironment receiptCatalog receiptJob) OneOutcome queued
      [delivery outage, delivery offlineEngines] := by
  intro h
  have htwice : ∃ job, exec (deliver imageEnvironment receiptCatalog receiptJob) queued
      [delivery outage, delivery offlineEngines] = some job ∧
      job.events.map DocumentEventPayload.event = [.failed, .processed] ∧
      job.state.outcome = some .success := by
    refine ⟨_, rfl, ?_⟩
    decide
  obtain ⟨job, hjob, hevents, houtcome⟩ := htwice
  have hone := (h.exec hjob).events
  rw [hevents, houtcome] at hone
  cases hone

end HeirsOcr.Jobs
