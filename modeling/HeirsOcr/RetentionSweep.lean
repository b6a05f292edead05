import HeirsOcr.OrphanedFiles

/-!
# One retention sweep

`runRetentionSweep` as it is written, from the policy to the counts it reports. Alone, a sweep is a
run of the steps of the registry, so what those keep it keeps; it leaves exactly the rows within
their windows, and of the files exactly those that no row it deleted named.
-/
namespace HeirsOcr.RetentionSweep
open KeyedTable StepMachine DocumentArchive

inductive Skipped where
  | disabled
  | locked
  deriving DecidableEq, Repr

structure SweepResult where
  documents : ℕ
  auditEvents : ℕ
  blobs : ℕ
  webhookDeliveries : ℕ
  requestLogs : ℕ
  skipped : Option Skipped
  deriving DecidableEq, Repr

/-- How a `DeleteObjects` call goes: what it deletes, and whether its answer comes back. -/
structure DeleteCall where
  accepted : String → Bool
  answered : Bool

/-- The loop of `deleteDocuments`, from its `call`-th call on. -/
def deleteFrom (calls : ℕ → DeleteCall) (call : ℕ) (objects : String → Option StoredObject)
    (keys : List String) : (String → Option StoredObject) × ℕ :=
  if keys = [] then (objects, 0)
  else
    let batch := keys.take DELETE_BATCH
    let (objects, deleted) := deleteFrom calls (call + 1)
      (deleteObjects objects batch (calls call).accepted) (keys.drop DELETE_BATCH)
    (objects, (if (calls call).answered then batch.countP (calls call).accepted else 0) + deleted)
  termination_by keys.length
  decreasing_by
    rename_i hkeys
    have hlength := List.length_pos_iff.mpr hkeys
    simp only [List.length_drop, DELETE_BATCH]
    omega

def deleteDocuments (blobStorageEnabled : Bool) (calls : ℕ → DeleteCall)
    (objects : String → Option StoredObject) (keys : List String) :
    (String → Option StoredObject) × ℕ :=
  if blobStorageEnabled = false ∨ keys = [] then (objects, 0)
  else deleteFrom calls 0 objects keys

/-- A purge of a log, with its `rowCount`. -/
def purgeLog (now : ℤ) (days : ℕ) (rows : List LogRow) : List LogRow × ℕ :=
  (purgeLogOlderThan now days rows, rows.countP fun r => expired now days r.createdAt)

def runRetentionSweep (s : Store) (redisDown : Bool) (calls : ℕ → DeleteCall) :
    Store × SweepResult :=
  let policy := s.policy
  if policy.enabled = false then (s, ⟨0, 0, 0, 0, 0, some .disabled⟩)
  else if redisDown ∨ s.lock.any (s.now < ·) then (s, ⟨0, 0, 0, 0, 0, some .locked⟩)
  else
    let (documents, storageKeys) :=
      purgeDocumentsOlderThan s.now policy.documentRetentionDays s.documents
    let (objects, blobs) := deleteDocuments s.blobStorageEnabled calls s.objects storageKeys
    let purge table := purgeLog s.now (policy.days table) (s.logs table)
    ({ s with
        lock := some (s.now + LOCK_TTL_SECONDS * 1000)
        documents := documents
        objects := objects
        logs := fun table => (purge table).1 },
      { documents := s.documents.rows.countP fun r =>
          expired s.now policy.documentRetentionDays r.createdAt
        auditEvents := (purge .auditEvents).2
        blobs := blobs
        webhookDeliveries := (purge .webhookDeliveries).2
        requestLogs := (purge .requestLogs).2
        skipped := none })

/-- The calls of the loop, and the look that ends it. -/
def blobSteps (w : ℕ) (calls : ℕ → DeleteCall) (call : ℕ) (keys : List String) : List Action :=
  if keys = [] then [.advance w fun _ => true]
  else .advance w (calls call).accepted ::
    blobSteps w calls (call + 1) (keys.drop DELETE_BATCH)
  termination_by keys.length
  decreasing_by
    rename_i hkeys
    have hlength := List.length_pos_iff.mpr hkeys
    simp only [List.length_drop, DELETE_BATCH]
    omega

/-- The steps of a sweep that takes the lock. -/
def sweepSteps (s : Store) (w : ℕ) (calls : ℕ → DeleteCall) : List Action :=
  let keys := purgedKeys s.now s.policy.documentRetentionDays s.documents.rows
  let blobs := if s.blobStorageEnabled then blobSteps w calls 0 keys else [.advance w fun _ => true]
  [.sweep w, .takeLock w false, .advance w fun _ => true] ++ blobs ++
    List.replicate 3 (.advance w fun _ => true)

variable {s : Store} {w : ℕ} {calls : ℕ → DeleteCall}

theorem exec_blobSteps (policy : RetentionPolicy) (call : ℕ) (keys : List String) (s : Store)
    (hon : s.blobStorageEnabled = true) (hw : s.sweeps w = some ⟨policy, .blobs keys⟩) :
    exec step s (blobSteps w calls call keys) =
      some { s with
        objects := (deleteFrom calls call s.objects keys).1
        sweeps := Function.update s.sweeps w (some ⟨policy, .log .auditEvents⟩) } := by
  induction call, keys using blobSteps.induct generalizing s with
  | case1 call =>
    rw [blobSteps, deleteFrom, if_pos rfl, if_pos rfl]
    simp [exec, step, hw, advance]
  | case2 call keys hkeys ih =>
    rw [blobSteps, deleteFrom, if_neg hkeys, if_neg hkeys]
    have hstep : step s (.advance w (calls call).accepted) =
        some { s with
          objects := deleteObjects s.objects (keys.take DELETE_BATCH) (calls call).accepted
          sweeps := Function.update s.sweeps w
            (some ⟨policy, .blobs (keys.drop DELETE_BATCH)⟩) } := by
      simp [step, hw, advance, hon, hkeys]
    have hrest := ih { s with
      objects := deleteObjects s.objects (keys.take DELETE_BATCH) (calls call).accepted
      sweeps := Function.update s.sweeps w (some ⟨policy, .blobs (keys.drop DELETE_BATCH)⟩) }
      hon (by simp)
    rw [exec_cons_of_step _ hstep, hrest]
    simp

/-- A file that the loop was not given stays. -/
theorem deleteFrom_of_not_mem (calls : ℕ → DeleteCall) (call : ℕ)
    (objects : String → Option StoredObject) (keys : List String) {key : String}
    (hkey : key ∉ keys) : (deleteFrom calls call objects keys).1 key = objects key := by
  induction call, keys using blobSteps.induct generalizing objects with
  | case1 call => rw [deleteFrom, if_pos rfl]
  | case2 call keys hkeys ih =>
    rw [deleteFrom, if_neg hkeys]
    show (deleteFrom _ _ _ _).1 key = _
    rw [ih _ fun hmem => hkey (List.mem_of_mem_drop hmem), deleteObjects, if_neg]
    exact fun h => hkey (List.mem_of_mem_take h.1)

/-- What is gone stays gone. -/
theorem deleteFrom_eq_none (calls : ℕ → DeleteCall) (call : ℕ)
    (objects : String → Option StoredObject) (keys : List String) {key : String}
    (hkey : objects key = none) : (deleteFrom calls call objects keys).1 key = none := by
  induction call, keys using blobSteps.induct generalizing objects with
  | case1 call => rwa [deleteFrom, if_pos rfl]
  | case2 call keys hkeys ih =>
    rw [deleteFrom, if_neg hkeys]
    apply ih
    unfold deleteObjects
    split
    · rfl
    · exact hkey

/-- The count of the loop is never more than the files that are gone. -/
theorem deleteFrom_count_le (calls : ℕ → DeleteCall) (call : ℕ)
    (objects : String → Option StoredObject) (keys : List String) :
    (deleteFrom calls call objects keys).2 ≤
      keys.countP fun key => ((deleteFrom calls call objects keys).1 key).isNone := by
  induction call, keys using blobSteps.induct generalizing objects with
  | case1 call =>
    rw [deleteFrom, if_pos rfl]
    exact Nat.zero_le _
  | case2 call keys hkeys ih =>
    rw [deleteFrom, if_neg hkeys]
    dsimp only
    have hrest := ih (deleteObjects objects (keys.take DELETE_BATCH) (calls call).accepted)
    have hbatch : (keys.take DELETE_BATCH).countP (calls call).accepted ≤
        (keys.take DELETE_BATCH).countP fun key =>
          ((deleteFrom calls (call + 1) (deleteObjects objects (keys.take DELETE_BATCH)
            (calls call).accepted) (keys.drop DELETE_BATCH)).1 key).isNone := by
      apply List.countP_mono_left
      intro key hmem haccepted
      rw [Option.isNone_iff_eq_none]
      exact deleteFrom_eq_none calls (call + 1) _ _ (if_pos ⟨hmem, haccepted⟩)
    have hsplit : ∀ p : String → Bool, keys.countP p =
        (keys.take DELETE_BATCH).countP p + (keys.drop DELETE_BATCH).countP p := by
      intro p
      rw [← List.countP_append, List.take_append_drop]
    rw [hsplit]
    split_ifs
    · omega
    · omega

/-- When every call deletes what it is given and its answer comes back, all files are gone and
counted. -/
theorem deleteFrom_all
    (hcalls : ∀ n, (calls n).answered = true ∧ ∀ key, (calls n).accepted key = true)
    (call : ℕ) (objects : String → Option StoredObject) (keys : List String) :
    (∀ key ∈ keys, (deleteFrom calls call objects keys).1 key = none) ∧
      (deleteFrom calls call objects keys).2 = keys.length := by
  induction call, keys using blobSteps.induct generalizing objects with
  | case1 call =>
    rw [deleteFrom, if_pos rfl]
    exact ⟨by simp, rfl⟩
  | case2 call keys hkeys ih =>
    obtain ⟨hanswered, haccepted⟩ := hcalls call
    obtain ⟨hnone, hcount⟩ :=
      ih (deleteObjects objects (keys.take DELETE_BATCH) (calls call).accepted)
    rw [deleteFrom, if_neg hkeys]
    constructor
    · intro key hkey
      rw [← List.take_append_drop DELETE_BATCH keys, List.mem_append] at hkey
      rcases hkey with hkey | hkey
      · exact deleteFrom_eq_none calls (call + 1) _ _ (if_pos ⟨hkey, haccepted key⟩)
      · exact hnone key hkey
    · have htake : (keys.take DELETE_BATCH).countP (calls call).accepted =
          (keys.take DELETE_BATCH).length := List.countP_eq_length.mpr fun key _ => haccepted key
      dsimp only
      rw [if_pos hanswered, htake, hcount, List.length_take, List.length_drop]
      omega

/-- The store when the rows are gone and their files are to go. -/
def purged (s : Store) (w : ℕ) : Store :=
  let (documents, keys) :=
    purgeDocumentsOlderThan s.now s.policy.documentRetentionDays s.documents
  { s with
    lock := some (s.now + LOCK_TTL_SECONDS * 1000)
    documents := documents
    sweeps := Function.update s.sweeps w (some ⟨s.policy, .blobs keys⟩) }

theorem exec_blobs (policy : RetentionPolicy) (keys : List String) (s : Store)
    (hw : s.sweeps w = some ⟨policy, .blobs keys⟩) :
    exec step s (if s.blobStorageEnabled then blobSteps w calls 0 keys
        else [.advance w fun _ => true]) =
      some { s with
        objects := (deleteDocuments s.blobStorageEnabled calls s.objects keys).1
        sweeps := Function.update s.sweeps w (some ⟨policy, .log .auditEvents⟩) } := by
  by_cases hon : s.blobStorageEnabled = true
  · have hsame : deleteDocuments s.blobStorageEnabled calls s.objects keys =
        deleteFrom calls 0 s.objects keys := by
      unfold deleteDocuments
      by_cases hnil : keys = []
      · rw [if_pos (.inr hnil), deleteFrom, if_pos hnil]
      · rw [if_neg (by simp [hon, hnil])]
    rw [if_pos hon, exec_blobSteps policy 0 keys s hon hw, hsame]
  · have hoff : s.blobStorageEnabled = false := by simpa using hon
    simp [exec, step, hw, advance, hoff, deleteDocuments]

theorem exec_logs (policy : RetentionPolicy) (s : Store)
    (hw : s.sweeps w = some ⟨policy, .log .auditEvents⟩) :
    exec step s (List.replicate 3 (.advance w fun _ => true)) =
      some { s with
        logs := fun table => purgeLogOlderThan s.now (policy.days table) (s.logs table)
        sweeps := Function.update s.sweeps w none } := by
  have hrun : exec step s (List.replicate 3 (.advance w fun _ => true)) =
      some { s with
        logs := Function.update (Function.update (Function.update s.logs .auditEvents
            (purgeLogOlderThan s.now (policy.days .auditEvents) (s.logs .auditEvents)))
          .webhookDeliveries
            (purgeLogOlderThan s.now (policy.days .webhookDeliveries) (s.logs .webhookDeliveries)))
          .requestLogs
            (purgeLogOlderThan s.now (policy.days .requestLogs) (s.logs .requestLogs))
        sweeps := Function.update s.sweeps w none } := by
    simp [exec, step, hw, advance, LogTable.next, List.replicate]
  rw [hrun]
  congr 2
  ext1 table
  cases table <;> simp

/-- The sweep leaves the store that its steps leave, one after the other. -/
theorem exec_sweepSteps (calls : ℕ → DeleteCall) (henabled : s.policy.enabled = true)
    (hlock : s.lock.any (s.now < ·) = false) (hw : s.sweeps w = none) :
    exec step s (sweepSteps s w calls) = some (runRetentionSweep s false calls).1 := by
  have hstart : exec step s [.sweep w, .takeLock w false, .advance w fun _ => true] =
      some (purged s w) := by
    simp [exec, step, hw, henabled, hlock, advance, purged, purgeDocumentsOlderThan]
  have hself : Function.update s.sweeps w none = s.sweeps := by
    rw [← hw, Function.update_eq_self]
  unfold sweepSteps
  rw [List.append_assoc, exec_append, hstart]
  show exec step (purged s w) _ = _
  rw [exec_append]
  have hblobs := @exec_blobs w calls s.policy
    (purgedKeys s.now s.policy.documentRetentionDays s.documents.rows) (purged s w)
    (by simp [purged, purgeDocumentsOlderThan])
  have hon : (purged s w).blobStorageEnabled = s.blobStorageEnabled := rfl
  rw [hon] at hblobs
  rw [hblobs]
  show exec step _ (List.replicate 3 _) = _
  rw [exec_logs s.policy _ (by simp)]
  simp [runRetentionSweep, henabled, hlock, purged, purgeLog, purgeDocumentsOlderThan, hself]

/-- What an unhindered sweep of a store must come to. -/
structure Swept (s : Store) (calls : ℕ → DeleteCall) (t : Store) (result : SweepResult) :
    Prop where
  documents : ∀ r, r ∈ t.documents ↔
    r ∈ s.documents ∧ expired s.now s.policy.documentRetentionDays r.createdAt = false
  logs : ∀ table r, r ∈ t.logs table ↔
    r ∈ s.logs table ∧ expired s.now (s.policy.days table) r.createdAt = false
  /-- A file that no deleted row named stays. -/
  kept : ∀ key, (∀ r ∈ s.documents, r ∉ t.documents → r.storageKey ≠ some key) →
    t.objects key = s.objects key
  /-- Files are never counted that are still there. -/
  blobs : result.blobs ≤ (s.documents.rows.filter fun r =>
    expired s.now s.policy.documentRetentionDays r.createdAt).countP fun r =>
      r.storageKey.any fun key => (t.objects key).isNone
  /-- With storage on, and every call answered and obeyed, no file of a deleted row is left. -/
  gone : s.blobStorageEnabled → (∀ n, (calls n).answered ∧ ∀ key, (calls n).accepted key) →
    ∀ r ∈ s.documents, r ∉ t.documents → ∀ key, r.storageKey = some key → t.objects key = none
  counts : result.skipped = none ∧
    result.documents + t.documents.rows.length = s.documents.rows.length ∧
    result.auditEvents + (t.logs .auditEvents).length = (s.logs .auditEvents).length ∧
    result.webhookDeliveries + (t.logs .webhookDeliveries).length =
      (s.logs .webhookDeliveries).length ∧
    result.requestLogs + (t.logs .requestLogs).length = (s.logs .requestLogs).length

theorem countP_add_length_filter {α : Type} (p : α → Bool) (l : List α) :
    l.countP p + (l.filter fun a => !p a).length = l.length := by
  rw [← List.countP_eq_length_filter, List.length_eq_countP_add_countP p]
  simp

theorem deleteDocuments_of_not_mem {enabled : Bool} {objects : String → Option StoredObject}
    {keys : List String} {key : String} (hkey : key ∉ keys) :
    (deleteDocuments enabled calls objects keys).1 key = objects key := by
  unfold deleteDocuments
  split_ifs
  · rfl
  · exact deleteFrom_of_not_mem calls 0 objects keys hkey

theorem deleteDocuments_count_le (enabled : Bool) (objects : String → Option StoredObject)
    (keys : List String) : (deleteDocuments enabled calls objects keys).2 ≤
      keys.countP fun key => ((deleteDocuments enabled calls objects keys).1 key).isNone := by
  unfold deleteDocuments
  split_ifs
  · exact Nat.zero_le _
  · exact deleteFrom_count_le calls 0 objects keys

theorem countP_filterMap {α β : Type} (f : α → Option β) (p : β → Bool) (l : List α) :
    (l.filterMap f).countP p = l.countP fun a => (f a).any p := by
  induction l with
  | nil => rfl
  | cons a l ih =>
    rw [List.filterMap_cons, List.countP_cons]
    cases h : f a with
    | none => simp [ih]
    | some b => simp [List.countP_cons, ih]

/-- A sweep that gets the lock, with nothing else going on, is a run of the registry's steps, and
it leaves of the rows just those within their windows and of the files those of no row deleted. -/
theorem sweep_run (s : Store) (w : ℕ) (calls : ℕ → DeleteCall) (henabled : s.policy.enabled = true)
    (hlock : s.lock.any (s.now < ·) = false) (hw : s.sweeps w = none) :
    exec step s (sweepSteps s w calls) = some (runRetentionSweep s false calls).1 ∧
      Swept s calls (runRetentionSweep s false calls).1 (runRetentionSweep s false calls).2 := by
  have hrows : ∀ r, r ∈ (runRetentionSweep s false calls).1.documents ↔
      r ∈ s.documents ∧ expired s.now s.policy.documentRetentionDays r.createdAt = false := by
    intro r
    simp only [runRetentionSweep, henabled, hlock, purgeDocumentsOlderThan]
    exact Table.mem_delete
  have hobjects : (runRetentionSweep s false calls).1.objects =
      (deleteDocuments s.blobStorageEnabled calls s.objects
        (purgedKeys s.now s.policy.documentRetentionDays s.documents.rows)).1 := by
    simp [runRetentionSweep, henabled, hlock, purgeDocumentsOlderThan]
  have hblobs : (runRetentionSweep s false calls).2.blobs =
      (deleteDocuments s.blobStorageEnabled calls s.objects
        (purgedKeys s.now s.policy.documentRetentionDays s.documents.rows)).2 := by
    simp [runRetentionSweep, henabled, hlock, purgeDocumentsOlderThan]
  have hpurged : ∀ r ∈ s.documents, r ∉ (runRetentionSweep s false calls).1.documents →
      ∀ key, r.storageKey = some key →
        key ∈ purgedKeys s.now s.policy.documentRetentionDays s.documents.rows := by
    intro r hr hgone key hkey
    have hexpired : expired s.now s.policy.documentRetentionDays r.createdAt = true := by
      rw [hrows] at hgone
      simpa [hr] using hgone
    exact mem_purgedKeys.mpr ⟨r, hr, hexpired, hkey⟩
  refine ⟨exec_sweepSteps calls henabled hlock hw, hrows, ?_, ?_, ?_, ?_, ?_⟩
  · intro table r
    simp [runRetentionSweep, henabled, hlock, purgeLog, purgeLogOlderThan]
  · intro key hnone
    rw [hobjects]
    apply deleteDocuments_of_not_mem
    intro hmem
    obtain ⟨r, hr, hexpired, hkey⟩ := mem_purgedKeys.mp hmem
    refine hnone r hr ?_ hkey
    rw [hrows]
    simp [hexpired]
  · rw [hblobs, hobjects]
    refine (deleteDocuments_count_le s.blobStorageEnabled s.objects _).trans ?_
    rw [← countP_filterMap]
    rfl
  · intro hon hcalls r hr hgone key hkey
    have hmem := hpurged r hr hgone key hkey
    rw [hobjects, deleteDocuments, if_neg (by simp [hon, List.ne_nil_of_mem hmem])]
    exact (deleteFrom_all hcalls 0 s.objects _).1 key hmem
  · have hlog : ∀ table, (purgeLog s.now (s.policy.days table) (s.logs table)).2 +
        (purgeLogOlderThan s.now (s.policy.days table) (s.logs table)).length =
          (s.logs table).length := fun table => countP_add_length_filter _ _
    have hdocuments := countP_add_length_filter
      (fun r : DocumentRow => expired s.now s.policy.documentRetentionDays r.createdAt)
      s.documents.rows
    simp only [runRetentionSweep, henabled, hlock, purgeDocumentsOlderThan, purgeLog, Table.delete]
    exact ⟨rfl, hdocuments, hlog .auditEvents, hlog .webhookDeliveries, hlog .requestLogs⟩

/-- An invoice of ten days ago in a deployment that keeps documents for a week. -/
def oldInvoice : Store :=
  (exec step (.fresh 0 true ⟨true, 7, 7⟩) (invoiceRun ++ [.wait 864000000])).get rfl

theorem sweep_run_oldInvoice :
    exec step oldInvoice (sweepSteps oldInvoice 0 fun _ => ⟨fun _ => true, true⟩) =
        some (runRetentionSweep oldInvoice false fun _ => ⟨fun _ => true, true⟩).1 ∧
      Swept oldInvoice (fun _ => ⟨fun _ => true, true⟩)
        (runRetentionSweep oldInvoice false fun _ => ⟨fun _ => true, true⟩).1
        (runRetentionSweep oldInvoice false fun _ => ⟨fun _ => true, true⟩).2 :=
  sweep_run oldInvoice 0 (fun _ => ⟨fun _ => true, true⟩) rfl rfl rfl

end HeirsOcr.RetentionSweep
