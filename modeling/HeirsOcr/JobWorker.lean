import HeirsOcr.Pipeline

/-!
# The queue of asynchronous jobs and its worker

A large upload to a standard function is queued. The worker runs the pipeline at every
delivery and the pipeline tells the document registry and the webhooks how the run went;
whether the job is delivered again is settled after that, by the worker and the queue. A
delivery brings the dependencies and the cache its run meets. Fan-out to the endpoints of
the tenant is the outbox's, and times are left out.
-/
namespace HeirsOcr.Jobs
open Pipeline Providers
open Billing (Sensitivity)

variable {Json Llm TArgs TResult : Type}

/-- A definition of the catalog, whatever its argument and result types. -/
structure AnyOcrFunctionDefinition (Json Llm : Type) where
  TArgs : Type
  TResult : Type
  definition : OcrFunctionDefinition Json Llm TArgs TResult

/-- `registry.get`: of several definitions with one key the last. -/
def getFunction (definitions : List (AnyOcrFunctionDefinition Json Llm)) (key : String) :
    Option (AnyOcrFunctionDefinition Json Llm) :=
  definitions.reverse.find? (·.definition.key.toText = key)

inductive WebhookEvent where
  | processed
  | failed
  deriving DecidableEq, Repr

def WebhookEvent.toText : WebhookEvent → String
  | .processed => "document.processed"
  | .failed => "document.failed"

def webhookEvent : Outcome → WebhookEvent
  | .success => .processed
  | .error => .failed

/-- What `dispatchDocumentEvent` sends to each endpoint. -/
structure DocumentEventPayload where
  event : WebhookEvent
  tenantId : String
  functionKey : OcrFunctionKey
  outcome : Outcome
  pageCount : ℕ
  fileName : Option String
  requestId : String
  deriving DecidableEq

/-- A row of the document registry. -/
structure RecordDocumentInput where
  tenantId : String
  functionKey : OcrFunctionKey
  sensitivity : Sensitivity
  fileName : String
  byteSize : ℕ
  pageCount : ℕ
  outcome : Outcome
  provider : Option String
  tokensUsed : Option ℕ
  storageKey : Option String
  deriving DecidableEq

def isRecordable (sensitivity : Sensitivity) : Bool := sensitivity = .standard

def dispatchDocumentEvent (fn : OcrFunctionDefinition Json Llm TArgs TResult)
    (req : OcrRequest Json) (outcome : ArchiveData) : DocumentEventPayload where
  event := webhookEvent outcome.outcome
  tenantId := req.tenantId
  functionKey := fn.key
  outcome := outcome.outcome
  pageCount := outcome.pageCount
  fileName := if isRecordable fn.sensitivity then some req.originalName else none
  requestId := req.requestId

/-- `storageKey` is what `putDocument` answered, `none` also when storage is off. -/
def archiveAndRecord (fn : OcrFunctionDefinition Json Llm TArgs TResult) (req : OcrRequest Json)
    (storageKey : Option String) (outcome : ArchiveData) :
    DocumentEventPayload × Option RecordDocumentInput :=
  (dispatchDocumentEvent fn req outcome,
    if isRecordable fn.sensitivity then
      some
        { tenantId := req.tenantId
          functionKey := fn.key
          sensitivity := fn.sensitivity
          fileName := req.originalName
          byteSize := req.buffer.length
          pageCount := outcome.pageCount
          outcome := outcome.outcome
          provider := outcome.provider
          tokensUsed := outcome.tokensUsed
          storageKey := storageKey }
    else none)

/-- `file.buffer` of a payload: a buffer, an object with a `data` array, which is what JSON
makes of a buffer, or another value. -/
inductive StoredBuffer where
  | buffer (bytes : Buffer)
  | object (data : List ℕ)
  | other
  deriving DecidableEq

structure OcrJobData (Json : Type) where
  function : String
  buffer : StoredBuffer
  originalName : String
  args : Option Json
  requestId : String
  tenantId : String
  planMaxPages : Option ℤ

def toBuffer : StoredBuffer → Except OcrError Buffer
  | .buffer bytes => .ok bytes
  | .object data => .ok (data.map UInt8.ofNat)
  | .other => .error (OcrError.of .EXTRACTION_FAILED "Job payload is missing valid file bytes")

def reviveRequest (data : OcrJobData Json) : Except OcrError (OcrRequest Json) :=
  (toBuffer data.buffer).map fun bytes =>
    ⟨bytes, data.originalName, data.args, data.requestId, data.tenantId, data.planMaxPages⟩

/-- A request as BullMQ stores it. -/
def jobData (function : String) (request : OcrRequest Json) : OcrJobData Json where
  function := function
  buffer := .object (request.buffer.map UInt8.toNat)
  originalName := request.originalName
  args := request.args
  requestId := request.requestId
  tenantId := request.tenantId
  planMaxPages := request.planMaxPages

/-- The settings of the async path; `getPageCount` is that of pdf-lib, `none` when it cannot
load the file. -/
structure AsyncSettings where
  ASYNC_SIZE_THRESHOLD_BYTES : ℕ
  ASYNC_PAGE_THRESHOLD : ℕ
  getPageCount : Buffer → Option ℕ

def pdfPageCount (settings : AsyncSettings) (buffer : Buffer) : ℕ :=
  if buffer.take 5 = [0x25, 0x50, 0x44, 0x46, 0x2d] then (settings.getPageCount buffer).getD 0
  else 0

def shouldRunAsync (settings : AsyncSettings) (buffer : Buffer) : Bool :=
  settings.ASYNC_SIZE_THRESHOLD_BYTES < buffer.length ||
    settings.ASYNC_PAGE_THRESHOLD < pdfPageCount settings buffer

/-- The job `POST /v1/ocr/:function` enqueues for a request, if it goes async. -/
def asyncJob (settings : AsyncSettings) (definitions : List (AnyOcrFunctionDefinition Json Llm))
    (function : String) (request : OcrRequest Json) : Option (OcrJobData Json) :=
  match getFunction definitions function with
  | none => none
  | some fn =>
    if fn.definition.sensitivity = .standard ∧ shouldRunAsync settings request.buffer then
      some (jobData fn.definition.key.toText request)
    else none

/-- What a run of the worker meets. -/
structure Delivery (Llm : Type) where
  deps : PipelineDeps Llm
  cache : ExtractionCache
  storageKey : Option String

/-- A run of `processJob`: the `meta` of its answer, and what the run told. -/
structure Processed where
  response : Except OcrError OcrResponseMeta
  events : List DocumentEventPayload
  rows : List RecordDocumentInput

def processJob [EmptyCollection Json] (env : Environment)
    (definitions : List (AnyOcrFunctionDefinition Json Llm)) (data : OcrJobData Json)
    (d : Delivery Llm) : Processed :=
  match getFunction definitions data.function with
  | none =>
    ⟨.error (OcrError.of .INVALID_ARGS ("Unknown function '" ++ data.function ++ "'")), [], []⟩
  | some fn =>
    match reviveRequest data with
    | .error e => ⟨.error e, [], []⟩
    | .ok request =>
      let ran := runPipeline env fn.definition request d.deps d.cache
      let told := archiveAndRecord fn.definition request d.storageKey ran.archived
      ⟨ran.response.map Prod.snd, [told.1], told.2.toList⟩

def codeText : OcrErrorCode → String
  | .UNAUTHORIZED => "UNAUTHORIZED"
  | .FORBIDDEN => "FORBIDDEN"
  | .NOT_FOUND => "NOT_FOUND"
  | .UNSUPPORTED_MEDIA_TYPE => "UNSUPPORTED_MEDIA_TYPE"
  | .FILE_TOO_LARGE => "FILE_TOO_LARGE"
  | .PAGE_LIMIT_EXCEEDED => "PAGE_LIMIT_EXCEEDED"
  | .INVALID_ARGS => "INVALID_ARGS"
  | .NO_TEXT_DETECTED => "NO_TEXT_DETECTED"
  | .EXTRACTION_FAILED => "EXTRACTION_FAILED"
  | .PROVIDER_UNAVAILABLE => "PROVIDER_UNAVAILABLE"
  | .INTERPRETATION_FAILED => "INTERPRETATION_FAILED"
  | .SCHEMA_VALIDATION_FAILED => "SCHEMA_VALIDATION_FAILED"
  | .RATE_LIMITED => "RATE_LIMITED"
  | .PAYMENT_REQUIRED => "PAYMENT_REQUIRED"
  | .QUOTA_EXCEEDED => "QUOTA_EXCEEDED"
  | .INTERNAL => "INTERNAL"

def encodeJobError (code : OcrErrorCode) (message : String) : String :=
  codeText code ++ ": " ++ message

/-- What the worker throws to BullMQ: an `Error`, or an `UnrecoverableError`. -/
inductive WorkerError where
  | error (message : String)
  | unrecoverable (message : String)
  deriving DecidableEq, Repr

def workerError (e : OcrError) : WorkerError :=
  if e.retryable then .error (encodeJobError e.code e.message)
  else .unrecoverable (encodeJobError e.code e.message)

def JOB_ATTEMPTS : ℕ := 3

inductive JobState where
  | waiting
  | completed (answer : OcrResponseMeta)
  | failed (failedReason : String)

/-- A job in the queue, with what its attempts have told. -/
structure Job where
  state : JobState
  attemptsMade : ℕ
  events : List DocumentEventPayload
  rows : List RecordDocumentInput

def queued : Job := ⟨.waiting, 0, [], []⟩

/-- The state BullMQ moves a job to after its `attemptsMade`th attempt. -/
def settle (attemptsMade : ℕ) : Except WorkerError OcrResponseMeta → JobState
  | .ok answer => .completed answer
  | .error (.unrecoverable message) => .failed message
  | .error (.error message) => if attemptsMade < JOB_ATTEMPTS then .waiting else .failed message

/-- One attempt; a settled job is not delivered again. -/
def deliver [EmptyCollection Json] (env : Environment)
    (definitions : List (AnyOcrFunctionDefinition Json Llm)) (data : OcrJobData Json)
    (job : Job) (d : Delivery Llm) : Option Job :=
  match job.state with
  | .completed _ => none
  | .failed _ => none
  | .waiting =>
    let processed := processJob env definitions data d
    let attemptsMade := job.attemptsMade + 1
    some
      { state := settle attemptsMade (processed.response.mapError workerError)
        attemptsMade := attemptsMade
        events := job.events ++ processed.events
        rows := job.rows ++ processed.rows }

section Submitted

variable {settings : AsyncSettings} {definitions : List (AnyOcrFunctionDefinition Json Llm)}
  {function : String} {request : OcrRequest Json} {data : OcrJobData Json}

/-- The bytes of a payload survive the queue. -/
@[simp] theorem reviveRequest_jobData : reviveRequest (jobData function request) = .ok request := by
  have hbytes : (request.buffer.map UInt8.toNat).map UInt8.ofNat = request.buffer := by
    rw [List.map_map]
    exact List.map_id'' (fun b => by simp) _
  simp only [reviveRequest, jobData, toBuffer, hbytes]
  rfl

theorem toText_of_getFunction {fn : AnyOcrFunctionDefinition Json Llm}
    (h : getFunction definitions function = some fn) : fn.definition.key.toText = function := by
  have hkey := List.find?_some h
  simpa using hkey

/-- A job in the queue is for a standard function of the catalog, and its payload revives. -/
theorem asyncJob_spec (h : asyncJob settings definitions function request = some data) :
    ∃ fn, getFunction definitions data.function = some fn ∧
      fn.definition.sensitivity = .standard ∧ reviveRequest data = .ok request := by
  rw [asyncJob] at h
  split at h
  · cases h
  · rename_i fn hfn
    split_ifs at h with hasync
    obtain rfl := Option.some.inj h
    refine ⟨fn, ?_, hasync.1, reviveRequest_jobData⟩
    rw [jobData, toText_of_getFunction hfn]
    exact hfn

end Submitted

end HeirsOcr.Jobs
