import HeirsOcr.JobWorker
import HeirsOcr.KeyedTable
import HeirsOcr.StepMachine

/-!
# Archived documents and the retention sweep

A run of a standard function leaves a row in the document registry and, when object storage is on,
the uploaded file in a bucket. The upload comes first and the row names its key; the sweep deletes
rows first and then the files of the rows it deleted, so that no row ever names a file that is gone.
A step below is one statement, one request to the object store or the end of a process, so a run
interleaves any number of requests and sweeps. Times are milliseconds of one clock.
-/
namespace HeirsOcr.DocumentArchive
open KeyedTable Jobs
open Pipeline (Outcome)
open Providers (Buffer OcrFunctionKey)

/-- A row of `documents`. -/
structure DocumentRow where
  id : String
  tenantId : String
  functionKey : OcrFunctionKey
  fileName : String
  byteSize : ℕ
  pageCount : ℕ
  outcome : Outcome
  provider : Option String
  tokensUsed : Option ℕ
  createdAt : ℤ
  storageKey : Option String

/-- A file in the bucket, with the tenant in its metadata. -/
structure StoredObject where
  tenantId : String
  body : Buffer

/-- A row of a log. -/
structure LogRow where
  id : String
  createdAt : ℤ

/-- The tables of log rows. -/
inductive LogTable where
  | auditEvents
  | webhookDeliveries
  | requestLogs
  deriving DecidableEq

/-- The retention namespace of the platform settings. -/
structure RetentionPolicy where
  enabled : Bool
  documentRetentionDays : ℕ
  auditRetentionDays : ℕ

/-- The delivery log and the request history follow the document window. -/
def RetentionPolicy.days (policy : RetentionPolicy) : LogTable → ℕ
  | .auditEvents => policy.auditRetentionDays
  | .webhookDeliveries => policy.documentRetentionDays
  | .requestLogs => policy.documentRetentionDays

/-- The log a sweep clears after this one. -/
def LogTable.next : LogTable → Option LogTable
  | .auditEvents => some .webhookDeliveries
  | .webhookDeliveries => some .requestLogs
  | .requestLogs => none

def DAY_MS : ℤ := 24 * 60 * 60 * 1000

def LOCK_TTL_SECONDS : ℤ := 10 * 60

/-- S3 caps a single call at this many keys. -/
def DELETE_BATCH : ℕ := 1000

/-- A call of `archiveAndRecord` for a recordable function: its upload, and then its row. -/
structure Archive where
  input : RecordDocumentInput
  body : Buffer
  uploading : Bool
  key : Option String

/-- What a sweep does next. -/
inductive Stage where
  | lock
  | documents
  | blobs (keys : List String)
  | log (table : LogTable)

/-- The keys of the rows it deleted, so far as their files are still to go. -/
def Stage.keys : Stage → List String
  | .blobs keys => keys
  | _ => []

/-- A sweep with the policy it read. -/
structure Sweep where
  policy : RetentionPolicy
  stage : Stage

structure Store where
  now : ℤ
  blobStorageEnabled : Bool
  policy : RetentionPolicy
  documents : Table DocumentRow.id
  objects : String → Option StoredObject
  logs : LogTable → List LogRow
  /-- When the sweep lock expires. -/
  lock : Option ℤ
  archives : ℕ → Option Archive
  sweeps : ℕ → Option Sweep
  /-- The keys made so far. -/
  minted : List String

/-- How an upload ends: `unconfirmed` when the store kept the file and the answer was lost. -/
inductive Upload where
  | stored
  | unconfirmed
  | refused
  deriving DecidableEq

inductive Action where
  | wait (ms : ℕ)
  | putSettings (policy : RetentionPolicy)
  /-- A deploy with another `BLOB_STORAGE_ENABLED`. -/
  | deploy (blobStorageEnabled : Bool)
  /-- The pipeline archives a document. -/
  | archive (op : ℕ) (input : RecordDocumentInput) (body : Buffer)
  /-- The upload is answered; `key` has a fresh `randomUUID`. -/
  | put (op : ℕ) (key : String) (upload : Upload)
  /-- The insert of the row is answered. -/
  | record (op : ℕ) (id : String) (inserted : Bool)
  /-- A process died with this call in it. -/
  | die (op : ℕ)
  | log (table : LogTable) (id : String)
  /-- A worker starts a sweep: it reads the policy. -/
  | sweep (w : ℕ)
  /-- The sweep asks for the lock. -/
  | takeLock (w : ℕ) (redisDown : Bool)
  /-- The next statement of a sweep; of a batch of files, those accepted are gone. -/
  | advance (w : ℕ) (accepted : String → Bool)
  /-- A statement of the sweep threw, or its process died. -/
  | abandon (w : ℕ)

/-- The row `recordDocument` inserts. -/
def rowOf (id : String) (input : RecordDocumentInput) (storageKey : Option String) (dbNow : ℤ) :
    DocumentRow where
  id := id
  tenantId := input.tenantId
  functionKey := input.functionKey
  fileName := input.fileName
  byteSize := input.byteSize
  pageCount := input.pageCount
  outcome := input.outcome
  provider := input.provider
  tokensUsed := input.tokensUsed
  createdAt := dbNow
  storageKey := storageKey

/-- `created_at < cutoff` -/
def expired (now : ℤ) (days : ℕ) (createdAt : ℤ) : Bool := createdAt < now - days * DAY_MS

/-- The keys `purgeDocumentsOlderThan` returns. -/
def purgedKeys (now : ℤ) (days : ℕ) (rows : List DocumentRow) : List String :=
  (rows.filter fun r => expired now days r.createdAt).filterMap DocumentRow.storageKey

def purgeDocumentsOlderThan (now : ℤ) (days : ℕ) (t : Table DocumentRow.id) :
    Table DocumentRow.id × List String :=
  (t.delete fun r => expired now days r.createdAt, purgedKeys now days t.rows)

/-- The purges of the three logs. -/
def purgeLogOlderThan (now : ℤ) (days : ℕ) (rows : List LogRow) : List LogRow :=
  rows.filter fun r => !expired now days r.createdAt

/-- One `DeleteObjects` call. -/
def deleteObjects (objects : String → Option StoredObject) (batch : List String)
    (accepted : String → Bool) : String → Option StoredObject :=
  fun key => if key ∈ batch ∧ accepted key then none else objects key

/-- What the next statement of a sweep does, and the stage after it. -/
def advance (s : Store) (accepted : String → Bool) (sweep : Sweep) : Store × Option Stage :=
  let policy := sweep.policy
  match sweep.stage with
  | .lock => (s, some .lock)
  | .documents =>
    let (documents, keys) := purgeDocumentsOlderThan s.now policy.documentRetentionDays s.documents
    ({ s with documents := documents }, some (.blobs keys))
  | .blobs keys =>
    if s.blobStorageEnabled = false ∨ keys = [] then (s, some (.log .auditEvents))
    else
      ({ s with objects := deleteObjects s.objects (keys.take DELETE_BATCH) accepted },
        some (.blobs (keys.drop DELETE_BATCH)))
  | .log table =>
    ({ s with
        logs := Function.update s.logs table
          (purgeLogOlderThan s.now (policy.days table) (s.logs table)) },
      table.next.map .log)

def step (s : Store) : Action → Option Store
  | .wait ms => some { s with now := s.now + ms }
  | .putSettings policy => some { s with policy := policy }
  | .deploy blobStorageEnabled => some { s with blobStorageEnabled := blobStorageEnabled }
  | .archive op input body =>
    if s.archives op ≠ none then none
    else if isRecordable input.sensitivity then
      some { s with
        archives := Function.update s.archives op
          (some ⟨{ input with byteSize := body.length }, body, s.blobStorageEnabled, none⟩) }
    else some s
  | .put op key upload =>
    match s.archives op with
    | some ⟨input, body, true, _⟩ =>
      if key ∈ s.minted then none
      else
        some { s with
          minted := key :: s.minted
          objects := if upload = .refused then s.objects
            else Function.update s.objects key (some ⟨input.tenantId, body⟩)
          archives := Function.update s.archives op
            (some ⟨input, body, false, if upload = .stored then some key else none⟩) }
    | _ => none
  | .record op id inserted =>
    match s.archives op with
    | some ⟨input, _, false, key⟩ =>
      if inserted then
        (s.documents.insert (rowOf id input key s.now)).map fun t =>
          { s with documents := t, archives := Function.update s.archives op none }
      else some { s with archives := Function.update s.archives op none }
    | _ => none
  | .die op => some { s with archives := Function.update s.archives op none }
  | .log table id =>
    some { s with logs := Function.update s.logs table (⟨id, s.now⟩ :: s.logs table) }
  | .sweep w =>
    if s.sweeps w ≠ none then none
    else if s.policy.enabled then
      some { s with sweeps := Function.update s.sweeps w (some ⟨s.policy, .lock⟩) }
    else some s
  | .takeLock w redisDown =>
    match s.sweeps w with
    | some ⟨policy, .lock⟩ =>
      if redisDown ∨ s.lock.any (s.now < ·) then
        some { s with sweeps := Function.update s.sweeps w none }
      else
        some { s with
          lock := some (s.now + LOCK_TTL_SECONDS * 1000)
          sweeps := Function.update s.sweeps w (some ⟨policy, .documents⟩) }
    | _ => none
  | .advance w accepted =>
    match s.sweeps w with
    | none => none
    | some ⟨_, .lock⟩ => none
    | some sweep =>
      let (s', stage) := advance s accepted sweep
      some { s' with sweeps := Function.update s'.sweeps w (stage.map (⟨sweep.policy, ·⟩)) }
  | .abandon w => some { s with sweeps := Function.update s.sweeps w none }

/-- A deployment before its first document. -/
def Store.fresh (now : ℤ) (blobStorageEnabled : Bool) (policy : RetentionPolicy) : Store where
  now := now
  blobStorageEnabled := blobStorageEnabled
  policy := policy
  documents := ∅
  objects := fun _ => none
  logs := fun _ => []
  lock := none
  archives := fun _ => none
  sweeps := fun _ => none
  minted := []

/-- The answers of `GET /api/documents/:id/download`. -/
inductive DownloadAnswer where
  | noSuchDocument
  | notArchived
  | unavailable
  | link (key fileName : String)
  deriving DecidableEq

/-- `signed` says whether signing the link went well. -/
def download (s : Store) (tenantId id : String) (signed : Bool) : DownloadAnswer :=
  match s.documents.find? id with
  | none => .noSuchDocument
  | some doc =>
    if doc.tenantId ≠ tenantId then .noSuchDocument
    else
      match doc.storageKey with
      | none => .notArchived
      | some key => if s.blobStorageEnabled && signed then .link key doc.fileName else .unavailable

variable {s t : Store}

/-- What each action can come to. -/
inductive Stepped (s : Store) : Action → Store → Prop where
  | wait (ms : ℕ) : Stepped s (.wait ms) { s with now := s.now + ms }
  | putSettings (policy : RetentionPolicy) :
      Stepped s (.putSettings policy) { s with policy := policy }
  | deploy (enabled : Bool) : Stepped s (.deploy enabled) { s with blobStorageEnabled := enabled }
  | archive {op : ℕ} (input : RecordDocumentInput) (body : Buffer)
      (free : s.archives op = none) : Stepped s (.archive op input body) { s with
        archives := Function.update s.archives op
          (some ⟨{ input with byteSize := body.length }, body, s.blobStorageEnabled, none⟩) }
  | unrecordable (op : ℕ) (input : RecordDocumentInput) (body : Buffer) :
      Stepped s (.archive op input body) s
  | put {op : ℕ} {input : RecordDocumentInput} {body : Buffer} {key₀ : Option String}
      {key : String} (upload : Upload) (call : s.archives op = some ⟨input, body, true, key₀⟩)
      (fresh : key ∉ s.minted) : Stepped s (.put op key upload) { s with
        minted := key :: s.minted
        objects := if upload = .refused then s.objects
          else Function.update s.objects key (some ⟨input.tenantId, body⟩)
        archives := Function.update s.archives op
          (some ⟨input, body, false, if upload = .stored then some key else none⟩) }
  | record {op : ℕ} {input : RecordDocumentInput} {body : Buffer} {key₀ : Option String}
      {id : String} {documents : Table DocumentRow.id}
      (call : s.archives op = some ⟨input, body, false, key₀⟩)
      (inserted : s.documents.insert (rowOf id input key₀ s.now) = some documents) :
      Stepped s (.record op id true)
        { s with documents := documents, archives := Function.update s.archives op none }
  | unrecorded (op : ℕ) (id : String) : Stepped s (.record op id false)
      { s with archives := Function.update s.archives op none }
  | die (op : ℕ) : Stepped s (.die op) { s with archives := Function.update s.archives op none }
  | log (table : LogTable) (id : String) : Stepped s (.log table id)
      { s with logs := Function.update s.logs table (⟨id, s.now⟩ :: s.logs table) }
  | sweep {w : ℕ} (free : s.sweeps w = none) : Stepped s (.sweep w)
      { s with sweeps := Function.update s.sweeps w (some ⟨s.policy, .lock⟩) }
  | disabled (w : ℕ) : Stepped s (.sweep w) s
  | locked {w : ℕ} {policy : RetentionPolicy} (redisDown : Bool)
      (run : s.sweeps w = some ⟨policy, .lock⟩) : Stepped s (.takeLock w redisDown)
      { s with sweeps := Function.update s.sweeps w none }
  | takeLock {w : ℕ} {policy : RetentionPolicy} (redisDown : Bool)
      (run : s.sweeps w = some ⟨policy, .lock⟩) : Stepped s (.takeLock w redisDown) { s with
        lock := some (s.now + LOCK_TTL_SECONDS * 1000)
        sweeps := Function.update s.sweeps w (some ⟨policy, .documents⟩) }
  | purge {w : ℕ} {policy : RetentionPolicy} (accepted : String → Bool)
      (run : s.sweeps w = some ⟨policy, .documents⟩) : Stepped s (.advance w accepted) { s with
        documents := s.documents.delete fun r =>
          expired s.now policy.documentRetentionDays r.createdAt
        sweeps := Function.update s.sweeps w (some ⟨policy,
          .blobs (purgedKeys s.now policy.documentRetentionDays s.documents.rows)⟩) }
  | skipBlobs {w : ℕ} {policy : RetentionPolicy} {keys : List String} (accepted : String → Bool)
      (run : s.sweeps w = some ⟨policy, .blobs keys⟩)
      (skip : s.blobStorageEnabled = false ∨ keys = []) : Stepped s (.advance w accepted)
      { s with sweeps := Function.update s.sweeps w (some ⟨policy, .log .auditEvents⟩) }
  | deleteBatch {w : ℕ} {policy : RetentionPolicy} {keys : List String} (accepted : String → Bool)
      (run : s.sweeps w = some ⟨policy, .blobs keys⟩) : Stepped s (.advance w accepted) { s with
        objects := deleteObjects s.objects (keys.take DELETE_BATCH) accepted
        sweeps := Function.update s.sweeps w (some ⟨policy, .blobs (keys.drop DELETE_BATCH)⟩) }
  | purgeLog {w : ℕ} {policy : RetentionPolicy} {table : LogTable} (accepted : String → Bool)
      (run : s.sweeps w = some ⟨policy, .log table⟩) : Stepped s (.advance w accepted) { s with
        logs := Function.update s.logs table
          (purgeLogOlderThan s.now (policy.days table) (s.logs table))
        sweeps := Function.update s.sweeps w ((table.next.map .log).map (⟨policy, ·⟩)) }
  | abandon (w : ℕ) : Stepped s (.abandon w)
      { s with sweeps := Function.update s.sweeps w none }

theorem step_cases {a : Action} (hstep : step s a = some t) : Stepped s a t := by
  cases a with
  | wait ms =>
    cases hstep
    exact .wait ms
  | putSettings policy =>
    cases hstep
    exact .putSettings policy
  | deploy enabled =>
    cases hstep
    exact .deploy enabled
  | archive op input body =>
    simp only [step] at hstep
    split_ifs at hstep with hbusy hrecordable
    · cases hstep
      exact .archive input body (not_not.mp hbusy)
    · cases hstep
      exact .unrecordable op input body
  | put op key upload =>
    simp only [step] at hstep
    split at hstep
    · rename_i hop
      split at hstep
      · cases hstep
      · rename_i hkey
        cases hstep
        exact .put upload hop hkey
    · cases hstep
  | record op id inserted =>
    simp only [step] at hstep
    split at hstep
    · rename_i hop
      split_ifs at hstep with hinserted
      · obtain ⟨documents, hinsert, rfl⟩ := Option.map_eq_some_iff.mp hstep
        rw [hinserted]
        exact .record hop hinsert
      · cases hstep
        rw [Bool.eq_false_of_not_eq_true hinserted]
        exact .unrecorded op id
    · cases hstep
  | die op =>
    cases hstep
    exact .die op
  | log table id =>
    cases hstep
    exact .log table id
  | sweep w =>
    simp only [step] at hstep
    split_ifs at hstep with hbusy
    · cases hstep
      exact .sweep (not_not.mp hbusy)
    · cases hstep
      exact .disabled w
  | takeLock w redisDown =>
    simp only [step] at hstep
    split at hstep
    · rename_i policy hw
      split_ifs at hstep
      · cases hstep
        exact .locked redisDown hw
      · cases hstep
        exact .takeLock redisDown hw
    · cases hstep
  | advance w accepted =>
    simp only [step] at hstep
    split at hstep
    · cases hstep
    · cases hstep
    · rename_i sweep hnot hw
      cases hstep
      obtain ⟨policy, stage⟩ := sweep
      cases stage with
      | lock => exact absurd rfl (hnot policy)
      | documents => exact .purge accepted hw
      | blobs keys =>
        simp only [advance]
        split_ifs with hskip
        · exact .skipBlobs accepted hw hskip
        · exact .deleteBatch accepted hw
      | log table => exact .purgeLog accepted hw
  | abandon w =>
    cases hstep
    exact .abandon w

end HeirsOcr.DocumentArchive
