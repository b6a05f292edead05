import HeirsOcr.JobWorker
import HeirsOcr.Newest

/-!
# The jobs a tenant sees

`GET /api/jobs` lists the tenant's share of a bounded scan of the queue. The scan comes grouped
by state, and `getRecentForTenant` cuts it to `limit` jobs before it sorts them; the admin
console's sample sorts before it cuts.
-/
namespace HeirsOcr.Jobs
open Pipeline Newest

variable {Json Result : Type}

/-- The states `getState` answers with. -/
inductive QueueState where
  | waiting
  | active
  | delayed
  | prioritized
  | waitingChildren
  | completed
  | failed
  | unknown
  deriving DecidableEq, Repr

inductive JobStatus where
  | queued
  | active
  | completed
  | failed
  deriving DecidableEq, Repr

def toStatus : QueueState → JobStatus
  | .completed => .completed
  | .failed => .failed
  | .active => .active
  | _ => .queued

/-- A job as a scan of the queue finds it; `returnvalue` is the pipeline outcome's two
fields. -/
structure ScannedJob (Json Result : Type) where
  id : Option String
  data : OcrJobData Json
  state : QueueState
  timestamp : Option ℤ
  processedOn : Option ℤ
  finishedOn : Option ℤ
  attemptsMade : ℕ
  returnvalue : Option (Option Result × Option OcrResponseMeta)
  failedReason : Option String

/-- The public state of a job. -/
structure JobRecord (Result : Type) where
  jobId : String
  status : JobStatus
  tenantId : String
  function : String
  result : Option Result
  responseMeta : Option OcrResponseMeta
  error : Option (String × String)
  createdAt : Option ℤ
  startedAt : Option ℤ
  finishedAt : Option ℤ
  attempts : ℕ

def errorCodes : List OcrErrorCode :=
  [.UNAUTHORIZED, .FORBIDDEN, .NOT_FOUND, .UNSUPPORTED_MEDIA_TYPE, .FILE_TOO_LARGE,
    .PAGE_LIMIT_EXCEEDED, .INVALID_ARGS, .NO_TEXT_DETECTED, .EXTRACTION_FAILED,
    .PROVIDER_UNAVAILABLE, .INTERPRETATION_FAILED, .SCHEMA_VALIDATION_FAILED, .RATE_LIMITED,
    .PAYMENT_REQUIRED, .QUOTA_EXCEEDED, .INTERNAL]

/-- A character of `[A-Z_]`. -/
def isCodeChar (c : Char) : Bool := c.isUpper || c == '_'

/-- A match of `^([A-Z_]+): ([\s\S]*)$`: the code and the message. -/
def splitJobError (raw : List Char) : Option (String × String) :=
  let code := raw.takeWhile isCodeChar
  match code, raw.dropWhile isCodeChar with
  | _ :: _, ':' :: ' ' :: message => some (String.ofList code, String.ofList message)
  | _, _ => none

def decodeJobError (failedReason : Option String) : String × String :=
  let raw := failedReason.getD "job failed"
  match splitJobError raw.toList with
  | some (code, message) =>
    if errorCodes.any (codeText · = code) then (code, message)
    else (codeText .EXTRACTION_FAILED, raw)
  | none => (codeText .EXTRACTION_FAILED, raw)

/-- A failure code and its message survive the queue. -/
theorem decodeJobError_encodeJobError (code : OcrErrorCode) (message : String) :
    decodeJobError (some (encodeJobError code message)) = (codeText code, message) := by
  have hcode : (codeText code).toList.all isCodeChar = true := by
    cases code <;> decide
  have hchars : ∀ c ∈ (codeText code).toList, isCodeChar c = true := List.all_eq_true.mp hcode
  have hsplit : splitJobError (encodeJobError code message).toList =
      some (codeText code, message) := by
    have htext : (encodeJobError code message).toList =
        (codeText code).toList ++ ':' :: ' ' :: message.toList := by
      simp [encodeJobError]
    have hcolon : isCodeChar ':' = false := by decide
    have htake : ((codeText code).toList ++ ':' :: ' ' :: message.toList).takeWhile isCodeChar =
        (codeText code).toList := by
      rw [List.takeWhile_append_of_pos hchars]
      simp [hcolon]
    have hdrop : ((codeText code).toList ++ ':' :: ' ' :: message.toList).dropWhile isCodeChar =
        ':' :: ' ' :: message.toList := by
      rw [List.dropWhile_append_of_pos hchars]
      simp [hcolon]
    rw [splitJobError, htext, htake, hdrop]
    cases code <;> simp [codeText]
  have hknown : errorCodes.any (codeText · = codeText code) = true := by
    rw [List.any_eq_true]
    exact ⟨code, by cases code <;> decide, by simp⟩
  simp only [decodeJobError, Option.getD_some, hsplit]
  rw [if_pos hknown]

def toJobRecord (job : ScannedJob Json Result) (jobId : String) : JobRecord Result :=
  let status := toStatus job.state
  { jobId := jobId
    status := status
    tenantId := job.data.tenantId
    function := job.data.function
    result := if status = .completed then job.returnvalue.bind Prod.fst else none
    responseMeta := if status = .completed then job.returnvalue.bind Prod.snd else none
    error := if status = .failed then some (decodeJobError job.failedReason) else none
    createdAt := job.timestamp
    startedAt := job.processedOn
    finishedAt := job.finishedOn
    attempts := job.attemptsMade }

/-- A row of the list: the record of a job without its `result`. -/
def listedRecord (job : ScannedJob Json Result) : JobRecord Result :=
  { toJobRecord job (job.id.getD "unknown") with result := none }

/-- `createdAt ?? 0`, the key both listings sort by. -/
def ScannedJob.created (job : ScannedJob Json Result) : ℤ := job.timestamp.getD 0

def JobRecord.created (record : JobRecord Result) : ℤ := record.createdAt.getD 0

@[simp] theorem created_listedRecord (job : ScannedJob Json Result) :
    (listedRecord job).created = job.created := rfl

/-- The scanned jobs of a tenant; a job removed during the scan is a hole in it. -/
def jobsOf (tenantId : String) (jobs : List (Option (ScannedJob Json Result))) :
    List (ScannedJob Json Result) :=
  jobs.reduceOption.filter (·.data.tenantId = tenantId)

def getRecentForTenant (jobs : List (Option (ScannedJob Json Result))) (tenantId : String)
    (limit : ℕ) : List (JobRecord Result) :=
  newestFirst JobRecord.created (((jobsOf tenantId jobs).take limit).map listedRecord)

def RECENT_LIMIT : ℕ := 20

/-- A row of the admin console's sample. -/
structure SampledJob where
  jobId : String
  status : JobStatus
  function : String
  tenantId : String
  deriving DecidableEq

def sampledJob (job : ScannedJob Json Result) : SampledJob :=
  ⟨job.id.getD "unknown", toStatus job.state, job.data.function, job.data.tenantId⟩

/-- The `recent` field of `getQueueStats`. -/
def recentSample (jobs : List (Option (ScannedJob Json Result))) : List SampledJob :=
  ((newestFirst ScannedJob.created jobs.reduceOption).take RECENT_LIMIT).map sampledJob

/-- `out` shows the `limit` newest scanned jobs of the tenant, newest first. -/
def ListsNewest (jobs : List (Option (ScannedJob Json Result))) (tenantId : String) (limit : ℕ)
    (out : List (JobRecord Result)) : Prop :=
  ∃ listed, IsNewest ScannedJob.created limit (jobsOf tenantId jobs) listed ∧
    out = listed.map listedRecord

section Listing

variable {jobs : List (Option (ScannedJob Json Result))} {tenantId : String} {limit : ℕ}

theorem getRecentForTenant_eq : getRecentForTenant jobs tenantId limit =
    (newestFirst ScannedJob.created ((jobsOf tenantId jobs).take limit)).map listedRecord :=
  (map_newestFirst ScannedJob.created listedRecord JobRecord.created created_listedRecord _).symm

/-- The console's sample sorts first, so it always shows the newest jobs scanned. -/
theorem recentSample_newest (jobs : List (Option (ScannedJob Json Result))) :
    ∃ listed, IsNewest ScannedJob.created RECENT_LIMIT jobs.reduceOption listed ∧
      recentSample jobs = listed.map sampledJob :=
  ⟨_, isNewest_take_newestFirst RECENT_LIMIT jobs.reduceOption, rfl⟩

/-- A list of the newest jobs that shows the same creation times as the cut leaves no newer
job behind the cut. -/
theorem drop_le_of_listsNewest
    (h : ListsNewest jobs tenantId limit (getRecentForTenant jobs tenantId limit)) :
    ∀ a ∈ (jobsOf tenantId jobs).take limit, ∀ b ∈ (jobsOf tenantId jobs).drop limit,
      b.created ≤ a.created := by
  obtain ⟨listed, hnewest, hout⟩ := h
  rw [getRecentForTenant_eq] at hout
  have hcreated := congrArg (List.map JobRecord.created) hout
  simp only [List.map_map, Function.comp_def, created_listedRecord] at hcreated
  apply hnewest.drop_le
  rw [← hcreated]
  exact (newestFirst_perm ScannedJob.created _).map _

/-- The list shows the tenant's newest scanned jobs if and only if no job behind the first
`limit` of the scan is newer than one of these. -/
theorem lists_newest_iff :
    ListsNewest jobs tenantId limit (getRecentForTenant jobs tenantId limit) ↔
      ∀ a ∈ (jobsOf tenantId jobs).take limit, ∀ b ∈ (jobsOf tenantId jobs).drop limit,
        b.created ≤ a.created := by
  constructor
  · exact drop_le_of_listsNewest
  · intro h
    exact ⟨_, isNewest_newestFirst_take h, getRecentForTenant_eq⟩

end Listing

/-- A waiting job of 09:00 scanned before a completed one of 10:00: a list of one shows the
older. -/
def twoStates : List (Option (ScannedJob Unit Unit)) :=
  let data := ⟨"RECEIPT_PARSING", .object [], "receipt.pdf", none, "r-1", "acme", none⟩
  [some ⟨some "1", data, .waiting, some 1767258000000, none, none, 0, none, none⟩,
    some ⟨some "2", data, .completed, some 1767261600000, some 1767261601000,
      some 1767261602000, 1, some (some (), none), none⟩]

theorem older_job_listed : ¬ ListsNewest twoStates "acme" 1
    (getRecentForTenant twoStates "acme" 1) := by
  intro h
  have hle := drop_le_of_listsNewest h _ (List.mem_cons_self) _ (List.mem_cons_self)
  revert hle
  decide

end HeirsOcr.Jobs
