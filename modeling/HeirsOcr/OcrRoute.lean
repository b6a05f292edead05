import HeirsOcr.CookieHeader
import HeirsOcr.RateCeiling
import HeirsOcr.RecentJobs
import HeirsOcr.ServeGate
import HeirsOcr.StageChain

/-!
# The OCR routes

The router under `/v1/ocr`: every request is noted for the request log, and a document passes
seven stages before the handler queues it or runs the pipeline on it. The stages of a request are
steps of their own, between which other requests, the worker and the clock go on. What the key
registry, the sessions, the billing store, Redis and the providers answer is told to the stage
that asks; the counters of the limiter, the extraction cache and the queue are state. A request
keeps what it was sent with and what the stages set on it, and an answer keeps its request.
-/
namespace HeirsOcr.OcrRoute
open Billing Jobs Pipeline StageChain CookieHeader
open Providers (Buffer OcrFunctionKey)

/-- The three routes, with the segment that names a function or a job as it was sent. -/
inductive Route where
  | functions
  | call (segment : List Char)
  | job (segment : List Char)
  deriving DecidableEq

structure UploadedFile where
  field : String
  originalname : String
  buffer : Buffer

/-- The multipart `args` field. -/
inductive ArgsField (Json : Type) where
  | absent
  | text (raw : String)
  | value (raw : Json)

/-- The part of `req.tenant` the chain reads. -/
structure RequestTenant where
  allowedFunctions : Option (List String)
  rateLimit : Option ℤ
  deriving DecidableEq, Repr

/-- A request as it arrives; `query` is what follows the path, and its id is drawn on arrival. -/
structure Sent (Json : Type) where
  requestId : String
  headers : KeyHeaders
  cookie : Option (List Char)
  ip : Option String
  query : List Char
  files : List UploadedFile
  args : ArgsField Json

/-- A request with what the stages have set on it. -/
structure Request (Json : Type) extends Sent Json where
  method : String
  path : String
  functionKey : Option String
  param : String
  tenantId : Option String
  tenant : Option RequestTenant
  subscription : Option Subscription
  rateLimitMax : Option ℤ
  noStore : Bool
  file : Option UploadedFile

def received {Json : Type} (sent : Sent Json) : Request Json where
  toSent := sent
  method := ""
  path := ""
  functionKey := none
  param := ""
  tenantId := none
  tenant := none
  subscription := none
  rateLimitMax := none
  noStore := false
  file := none

/-- The answers; the record of a job is sent without its tenant. -/
inductive Reply (Json : Type) where
  | success (function : OcrFunctionKey) (result : Json) (responseMeta : OcrResponseMeta)
  | accepted (jobId : String)
  | catalog
  | job (record : JobRecord Json)
  | refused (e : OcrError)

def Reply.status {Json : Type} : Reply Json → ℕ
  | .success _ _ _ | .catalog | .job _ => 200
  | .accepted _ => 202
  | .refused e => e.status

def Reply.errorCode {Json : Type} : Reply Json → Option String
  | .refused e => some (codeText e.code)
  | _ => none

structure Answered (Json : Type) where
  request : Request Json
  reply : Reply Json

structure RecordRequestInput where
  tenantId : String
  requestId : String
  method : String
  path : String
  functionKey : Option String
  statusCode : ℕ
  errorCode : Option String
  deriving DecidableEq, Repr

/-- A row of `request_logs`. -/
structure RequestLogRow extends RecordRequestInput where
  createdAt : ℤ
  deriving DecidableEq, Repr

/-- A call of `recordDocumentUsage`. -/
structure Metered where
  tenantId : String
  pages : ℕ
  tokensUsed : Option ℕ
  deriving DecidableEq, Repr

/-- What a handler did with a document: it queued it, or ran the pipeline on it. -/
inductive Work where
  | queued (jobId : String)
  | ran (succeeded : Bool)
  deriving DecidableEq, Repr

/-- A document the handler took, by the key of its function. -/
structure Worked (Json : Type) where
  function : OcrFunctionKey
  request : OcrRequest Json
  work : Work

structure Gateway (Json : Type) where
  now : ℤ
  counters : RateLimit.Counters
  cache : ExtractionCache
  jobs : List (ScannedJob Json Json)
  lastJob : ℕ
  documents : List RecordDocumentInput
  events : List DocumentEventPayload
  metered : List Metered
  worked : List (Worked Json)
  requestLog : List RequestLogRow
  /-- Documents that were queued though the queue did not say so. -/
  unacknowledged : List (Worked Json)
  /-- Answers whose connection closed first. -/
  unsent : List (Answered Json)
  /-- Rows whose INSERT failed. -/
  unrecorded : List RecordRequestInput
  /-- Rows that were too old to keep. -/
  purged : List RequestLogRow

/-- What becomes of a job that is added: it can be added and the answer of the queue get lost. -/
inductive QueueAnswer where
  | added
  | lost
  | failed
  deriving DecidableEq, Repr

/-- What a stage is told by the stores and services it asks; the outer `none` is one that cannot
be reached. A tenant has an id: the schema of a key and `slugify` see to it. -/
structure Told (Llm : Type) where
  resolveTenant : List Char → Option (Option TenantKeys.Tenant)
  resolveSession : List Char → Option (Option String)
  key_named : ∀ key tenant, resolveTenant key = some (some tenant) → tenant.tenantId ≠ ""
  session_named : ∀ token tenantId, resolveSession token = some (some tenantId) → tenantId ≠ ""
  isTenantOrgDisabled : String → Option Bool
  resolveSubscription : String → Option (Option Subscription)
  process : ℕ
  redis : RateLimit.RedisAnswer
  queue : QueueAnswer
  deps : PipelineDeps Llm
  storageKey : Option String

/-- What multer makes of the files of a request: the one it takes from a field, if any, or an error
of its own. A file it takes is in that field and within the limit it was built with. -/
structure Multer (fileSize : ℕ) where
  single : String → List UploadedFile → Option (Option UploadedFile)
  sent : ∀ field files file, single field files = some (some file) → file ∈ files
  named : ∀ field files file, single field files = some (some file) → file.field = field
  bounded : ∀ field files file, single field files = some (some file) →
    file.buffer.length ≤ fileSize

/-- The settings, the catalog, multer, `JSON.parse`, and the JSON of a result. -/
structure Settings (Json Llm : Type) where
  AUTH_ENABLED : Bool
  MAX_FILE_SIZE_BYTES : ℕ
  upload : Multer MAX_FILE_SIZE_BYTES
  limiter : RateLimit.Env
  async : AsyncSettings
  environment : Environment
  definitions : List (AnyOcrFunctionDefinition Json Llm)
  parseJson : String → Option Json
  render : (fn : AnyOcrFunctionDefinition Json Llm) → fn.TResult → Json

variable {Json Llm : Type}

/-- A stage of these routes. -/
abbrev OcrStage (Json Llm : Type) :=
  Stage (Gateway Json) (Told Llm) (Request Json) (Answered Json)

def refuse (req : Request Json) (e : OcrError) : Except (Answered Json) (Request Json) :=
  .error ⟨req, .refused e⟩

/-- What the error handler makes of anything but a typed error. -/
def internalError : OcrError := .of .INTERNAL "Internal server error"

def Route.method : Route → String
  | .call _ => "POST"
  | .functions | .job _ => "GET"

def Route.url : Route → List Char
  | .functions => "/v1/ocr/functions".toList
  | .call segment => "/v1/ocr/".toList ++ segment
  | .job segment => "/v1/ocr/jobs/".toList ++ segment

/-- The function a path names, as it was sent. -/
def functionKeyOf : Route → Option String
  | .call segment =>
    let key := String.ofList segment
    if key ≠ "" ∧ key ≠ "functions" ∧ key ≠ "jobs" then some key else none
  | .functions | .job _ => none

/-- Notes what the row of the request will say. -/
def requestLog (route : Route) : OcrStage Json Llm := fun s _ req =>
  (s, .ok { req with
    method := route.method
    path := String.ofList ((route.url ++ req.query).takeWhile (· ≠ '?'))
    functionKey := functionKeyOf route })

/-- What is recorded of an answered request, if a tenant is known. -/
def inputOf (a : Answered Json) : Option RecordRequestInput :=
  (a.request.tenantId.filter (· ≠ "")).map fun tenantId =>
    { tenantId := tenantId
      requestId := a.request.requestId
      method := a.request.method
      path := a.request.path
      functionKey := a.request.functionKey
      statusCode := a.reply.status
      errorCode := a.reply.errorCode }

/-- The bounded path lands in the row, at the time of the database. -/
def rowOf (input : RecordRequestInput) (dbNow : ℤ) : RequestLogRow :=
  { input with path := JsText.slice input.path 300, createdAt := dbNow }

/-- A failed INSERT leaves a warning and no row; `inserted` is the time of one that was carried
out, whether its answer came back or not. -/
def recordApiRequest (s : Gateway Json) (input : RecordRequestInput) (inserted : Option ℤ) :
    Gateway Json :=
  match inserted with
  | some dbNow => { s with requestLog := s.requestLog ++ [rowOf input dbNow] }
  | none => { s with unrecorded := s.unrecorded ++ [input] }

/-- How an answer ends: its connection closes first, or it is sent and recorded. -/
inductive Ending where
  | closed
  | finish (inserted : Option ℤ)

/-- `res.on("finish")`: the row is written once the answer is out. -/
def close (s : Gateway Json) (ending : Ending) (a : Answered Json) : Gateway Json :=
  match ending with
  | .closed => { s with unsent := s.unsent ++ [a] }
  | .finish inserted => (inputOf a).elim s fun input => recordApiRequest s input inserted

/-- `req.params`; a segment that does not decode is the router's error. -/
def bindParams : Route → OcrStage Json Llm
  | .functions => fun s _ req => (s, .ok req)
  | .call segment | .job segment => fun s _ req =>
    match decodeURIComponent segment with
    | none => (s, refuse req internalError)
    | some param => (s, .ok { req with param := String.ofList param })

/-- The stores of `auth`, as they answer now. -/
def authStores (told : Told Llm) : AuthStores where
  resolveTenant key :=
    (told.resolveTenant key).map fun found =>
      found.map fun tenant => ⟨tenant.tenantId, tenant.allowedFunctions⟩
  resolveSession := told.resolveSession
  isTenantOrgDisabled := told.isTenantOrgDisabled

/-- `tenant.rateLimit` of the key a request carries; a session has none. -/
def keyRateLimit (told : Told Llm) (req : Request Json) : Option ℤ :=
  match (extractApiKey req.headers).filter (· ≠ []) with
  | none => none
  | some key => (told.resolveTenant key).join.bind TenantKeys.Tenant.rateLimit

def auth (settings : Settings Json Llm) : OcrStage Json Llm := fun s told req =>
  match CookieHeader.auth settings.AUTH_ENABLED (authStores told) req.headers req.cookie with
  | .error e => (s, refuse req e)
  | .ok who =>
    (s, .ok { req with
      tenantId := some who.tenantId
      tenant := if settings.AUTH_ENABLED then some ⟨who.allowedFunctions, keyRateLimit told req⟩
        else none })

def authorizeFunction : OcrStage Json Llm := fun s _ req =>
  match TenantKeys.authorizeFunction (req.tenant.bind RequestTenant.allowedFunctions) req.param with
  | .error e => (s, refuse req e)
  | .ok _ => (s, .ok req)

/-- `getFunction(fnKey)?.sensitivity ?? "standard"`. -/
def sensitivityOf (settings : Settings Json Llm) (fnKey : String) : Sensitivity :=
  (getFunction settings.definitions fnKey).elim .standard fun fn => fn.definition.sensitivity

def billingStoreUnavailable : OcrError :=
  ⟨.PROVIDER_UNAVAILABLE, "Billing store unavailable", true⟩

/-- The gate of the plan; it publishes the plan's ceiling for the limiter. -/
def requireSubscription (settings : Settings Json Llm) : OcrStage Json Llm := fun s told req =>
  match req.tenantId.filter (· ≠ "") with
  | none => (s, .ok req)
  | some tenantId =>
    match told.resolveSubscription tenantId with
    | none => (s, refuse req billingStoreUnavailable)
    | some none => (s, .ok req)
    | some (some sub) =>
      let req := { req with
        subscription := some sub
        rateLimitMax := (RateLimit.effectiveRateLimitPerMinute sub).or req.rateLimitMax }
      match evaluateSubscription sub req.param (sensitivityOf settings req.param) s.now with
      | some e => (s, refuse req e)
      | none => (s, .ok req)

/-- The call a request is for the limiter. -/
def limiterCall (s : Gateway Json) (told : Told Llm) (req : Request Json) : RateLimit.Call where
  now := s.now
  process := told.process
  answer := told.redis
  req := ⟨req.tenantId, req.ip, req.rateLimitMax, req.tenant.bind RequestTenant.rateLimit⟩

def rateLimit (settings : Settings Json Llm) : OcrStage Json Llm := fun s told req =>
  let result := RateLimit.rateLimit settings.limiter s.counters (limiterCall s told req)
  let s := { s with counters := result.1 }
  match result.2 with
  | some e => (s, refuse req e)
  | none => (s, .ok req)

/-- Answers about a sensitive document are not to be cached by anyone. -/
def sensitivity (settings : Settings Json Llm) : OcrStage Json Llm := fun s _ req =>
  match getFunction settings.definitions req.param with
  | none => (s, .ok req)
  | some fn =>
    (s, .ok { req with noStore := req.noStore || fn.definition.sensitivity ≠ .standard })

def FILE_FIELD : String := "file"

/-- `upload.single`; what multer throws is no typed error. -/
def uploadSingle (settings : Settings Json Llm) : OcrStage Json Llm := fun s _ req =>
  match settings.upload.single FILE_FIELD req.files with
  | none => (s, refuse req internalError)
  | some none => (s, .ok req)
  | some (some file) => (s, .ok { req with file := some file })

def ARGS_FIELD : String := "args"

/-- The raw arguments; absent ones are the empty object. -/
def parseArgsField (parseJson : String → Option Json) :
    ArgsField Json → Except OcrError (Option Json)
  | .absent => .ok none
  | .value raw => .ok (some raw)
  | .text raw =>
    if raw = "" then .ok none
    else
      match parseJson raw with
      | some args => .ok (some args)
      | none => .error (.of .INVALID_ARGS
          ("The '" ++ ARGS_FIELD ++ "' field must be a valid JSON string"))

/-- The plan's cap on the size of a file. -/
def checkFileSize (planLimits : Option PlanLimits) (file : UploadedFile) : Except OcrError Unit :=
  match planLimits.bind PlanLimits.maxFileSizeBytes with
  | none => .ok ()
  | some maxFileSizeBytes =>
    if maxFileSizeBytes < file.buffer.length then
      .error (.of .FILE_TOO_LARGE
        ("Upload exceeds your plan limit of " ++ toString maxFileSizeBytes ++ " bytes"))
    else .ok ()

/-- The function, the file and the request of the pipeline, or the first thing amiss. -/
def prepare (settings : Settings Json Llm) (now : ℤ) (req : Request Json) :
    Except OcrError (AnyOcrFunctionDefinition Json Llm × OcrRequest Json) :=
  match getFunction settings.definitions req.param with
  | none => .error (.of .INVALID_ARGS ("Unknown function '" ++ req.param ++ "'"))
  | some fn =>
    match req.file with
    | none => .error (.of .INVALID_ARGS ("File is required in the '" ++ FILE_FIELD ++ "' field"))
    | some file =>
      let planLimits := req.subscription.map fun sub => effectiveLimits sub now
      match checkFileSize planLimits file with
      | .error e => .error e
      | .ok () =>
        (parseArgsField settings.parseJson req.args).map fun args =>
          (fn,
            { buffer := file.buffer
              originalName := file.originalname
              args := args
              requestId := req.requestId
              tenantId := req.tenantId.getD ""
              planMaxPages := planLimits.bind PlanLimits.maxPagesPerDocument })

/-- A job as `enqueue` leaves it. -/
def newJob (id : String) (data : OcrJobData Json) (now : ℤ) : ScannedJob Json Json where
  id := some id
  data := data
  state := .waiting
  timestamp := some now
  processedOn := none
  finishedOn := none
  attemptsMade := 0
  returnvalue := none
  failedReason := none

def couldNotEnqueue : OcrError :=
  ⟨.PROVIDER_UNAVAILABLE, "Could not enqueue the async job", true⟩

/-- The async path; BullMQ counts its jobs, and one whose answer got lost is there all the same. -/
def enqueue (s : Gateway Json) (told : Told Llm) (req : Request Json)
    (fn : AnyOcrFunctionDefinition Json Llm) (request : OcrRequest Json) :
    Gateway Json × Except (Answered Json) (Request Json) :=
  let jobId := toString (s.lastJob + 1)
  let data := jobData fn.definition.key.toText request
  let work : Worked Json := ⟨fn.definition.key, request, .queued jobId⟩
  let added := { s with
    jobs := s.jobs ++ [newJob jobId data s.now]
    lastJob := s.lastJob + 1
    worked := s.worked ++ [work] }
  match told.queue with
  | .failed => (s, refuse req couldNotEnqueue)
  | .lost =>
    ({ added with unacknowledged := s.unacknowledged ++ [work] }, refuse req couldNotEnqueue)
  | .added => (added, .error ⟨req, .accepted jobId⟩)

/-- The sync path: the pipeline, its records, and the metering of a document of a subscriber. -/
def runNow [EmptyCollection Json] (settings : Settings Json Llm) (s : Gateway Json)
    (told : Told Llm) (req : Request Json) (fn : AnyOcrFunctionDefinition Json Llm)
    (request : OcrRequest Json) : Gateway Json × Except (Answered Json) (Request Json) :=
  let ran := runPipeline settings.environment fn.definition request told.deps s.cache
  let archived := archiveAndRecord fn.definition request told.storageKey ran.archived
  let s := { s with
    cache := ran.cache
    events := s.events ++ [archived.1]
    documents := s.documents ++ archived.2.toList
    worked := s.worked ++ [⟨fn.definition.key, request, .ran ran.response.toBool⟩] }
  match ran.response with
  | .error e => (s, refuse req e)
  | .ok (result, responseMeta) =>
    ({ s with
        metered := s.metered ++
          (if req.subscription.isSome then
            [⟨request.tenantId, responseMeta.pageCount, responseMeta.tokensUsed⟩] else []) },
      .error ⟨req, .success fn.definition.key (settings.render fn result) responseMeta⟩)

def runFunction [EmptyCollection Json] (settings : Settings Json Llm) : OcrStage Json Llm :=
  fun s told req =>
    match prepare settings s.now req with
    | .error e => (s, refuse req e)
    | .ok (fn, request) =>
      if fn.definition.sensitivity = .standard ∧ shouldRunAsync settings.async request.buffer then
        enqueue s told req fn request
      else runNow settings s told req fn request

def catalog : OcrStage Json Llm := fun s _ req => (s, .error ⟨req, .catalog⟩)

/-- A job of another tenant is not found; a missing tenant on either side matches any. -/
def crossTenant (record : JobRecord Json) (tenantId : String) : Bool :=
  record.tenantId ≠ "" && tenantId ≠ "" && record.tenantId ≠ tenantId

def getJob : OcrStage Json Llm := fun s _ req =>
  let notFound := refuse req (.of .NOT_FOUND ("Job '" ++ req.param ++ "' not found"))
  match s.jobs.find? (·.id = some req.param) with
  | none => (s, notFound)
  | some job =>
    let record := toJobRecord job req.param
    if crossTenant record (req.tenantId.getD "") then (s, notFound)
    else (s, .error ⟨req, .job record⟩)

/-- A run of `processJob` with the JSON of its result and the cache it leaves. -/
structure WorkerRun (Json : Type) where
  response : Except OcrError (Json × OcrResponseMeta)
  cache : ExtractionCache
  events : List DocumentEventPayload
  rows : List RecordDocumentInput

def workerRun [EmptyCollection Json] (settings : Settings Json Llm) (data : OcrJobData Json)
    (d : Delivery Llm) : WorkerRun Json :=
  match getFunction settings.definitions data.function with
  | none =>
    ⟨.error (.of .INVALID_ARGS ("Unknown function '" ++ data.function ++ "'")), d.cache, [], []⟩
  | some fn =>
    match reviveRequest data with
    | .error e => ⟨.error e, d.cache, [], []⟩
    | .ok request =>
      let ran := runPipeline settings.environment fn.definition request d.deps d.cache
      let told := archiveAndRecord fn.definition request d.storageKey ran.archived
      ⟨ran.response.map fun answer => (settings.render fn answer.1, answer.2), ran.cache,
        [told.1], told.2.toList⟩

/-- The job after an attempt that started and ended now. -/
def attempted (job : ScannedJob Json Json) (now : ℤ)
    (response : Except OcrError (Json × OcrResponseMeta)) : ScannedJob Json Json :=
  let attemptsMade := job.attemptsMade + 1
  let job := { job with processedOn := some now, attemptsMade := attemptsMade }
  match response with
  | .ok (result, responseMeta) =>
    { job with
      state := .completed
      finishedOn := some now
      returnvalue := some (some result, some responseMeta) }
  | .error e =>
    match settle attemptsMade (.error (workerError e)) with
    | .waiting => { job with state := .delayed }
    | .completed _ => job
    | .failed message =>
      { job with
        state := .failed
        finishedOn := some now
        failedReason := some message }

/-- A job that is settled. -/
def isSettled (job : ScannedJob Json Json) : Bool := job.state = .completed || job.state = .failed

inductive Meanwhile (Llm : Type) where
  | wait (ms : ℕ)
  | deliver (k : ℕ) (deps : PipelineDeps Llm) (storageKey : Option String)
  | remove (k : ℕ)
  | purgeRequestLogsOlderThan (cutoff : ℤ)

/-- What happens besides the requests: time passes, the worker takes a job, a settled job is
removed, old rows of the log are swept. -/
def meanwhile [EmptyCollection Json] (settings : Settings Json Llm) (s : Gateway Json) :
    Meanwhile Llm → Option (Gateway Json)
  | .wait ms => some { s with now := s.now + ms }
  | .deliver k deps storageKey =>
    match s.jobs[k]? with
    | none => none
    | some job =>
      if isSettled job then none
      else
        let run := workerRun settings job.data ⟨deps, s.cache, storageKey⟩
        some { s with
          cache := run.cache
          events := s.events ++ run.events
          documents := s.documents ++ run.rows
          jobs := s.jobs.set k (attempted job s.now run.response) }
  | .remove k =>
    match s.jobs[k]? with
    | none => none
    | some job => if isSettled job then some { s with jobs := s.jobs.eraseIdx k } else none
  | .purgeRequestLogsOlderThan cutoff =>
    some { s with
      requestLog := s.requestLog.filter fun row => ¬ row.createdAt < cutoff
      purged := s.purged ++ s.requestLog.filter fun row => row.createdAt < cutoff }

def stages [EmptyCollection Json] (settings : Settings Json Llm) (route : Route) :
    List (OcrStage Json Llm) :=
  requestLog route :: bindParams route ::
    match route with
    | .functions => [catalog]
    | .call _ =>
      [auth settings, authorizeFunction, requireSubscription settings, rateLimit settings,
        sensitivity settings, uploadSingle settings, runFunction settings]
    | .job _ => [auth settings, rateLimit settings, getJob]

def ocrRouter [EmptyCollection Json] (settings : Settings Json Llm) :
    Chains Route (Gateway Json) (Sent Json) (Told Llm) (Meanwhile Llm) Ending (Request Json)
      (Answered Json) where
  receive := received
  stages := stages settings
  close := close
  meanwhile := meanwhile settings

/-- What can happen to the router. -/
abbrev OcrAction (Json Llm : Type) :=
  Action ℕ Route (Sent Json) (Told Llm) (Meanwhile Llm) Ending

/-- Nothing has happened yet. -/
def Gateway.initial (now : ℤ) : Gateway Json :=
  ⟨now, .empty, fun _ => none, [], 0, [], [], [], [], [], [], [], [], []⟩

end HeirsOcr.OcrRoute
