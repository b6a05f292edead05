import HeirsOcr.Json
import HeirsOcr.RowReplay
import HeirsOcr.StepMachine

/-!
# Configuration backups

A backup is the rows of three tables, written as one JSON document into a `jsonb` column.
A restore reads the document back and upserts each of its rows, one statement a row. The
`jsonb` columns of the rows go through JSON on the way out and on the way in. A row comes
back with the columns it was captured with, apart from the time of its last change, which
is the time of the restore.
-/
namespace HeirsOcr.Backups
open KeyedTable Json RowReplay StepMachine

section Model

variable (N τ : Type)

/-- A row of `plans`. -/
structure PlanRow where
  id : String
  tier : String
  hidden : Bool
  data : Jsonb N
  updatedAt : τ

/-- A row of `subscriptions`. -/
structure SubscriptionRow where
  tenantId : String
  planId : String
  status : String
  data : Jsonb N
  updatedAt : τ

/-- A row of `platform_settings`. -/
structure SettingsRow where
  settingsNamespace : String
  data : Jsonb N
  updatedAt : τ

/-- Rows captured or applied, by table. -/
structure Counts where
  plans : ℕ
  subscriptions : ℕ
  platformSettings : ℕ
  deriving DecidableEq, Repr

/-- A row of `backups`. -/
structure BackupRow where
  id : String
  createdAt : τ
  createdBy : String
  note : Option String
  counts : Counts
  sizeBytes : ℕ
  data : Jsonb N

structure BackupManifest where
  id : String
  createdAt : String
  createdBy : String
  note : Option String
  counts : Counts
  sizeBytes : ℕ
  deriving DecidableEq, Repr

abbrev Plans := Table (PlanRow.id : PlanRow N τ → String)

abbrev Subscriptions := Table (SubscriptionRow.tenantId : SubscriptionRow N τ → String)

abbrev PlatformSettings := Table (SettingsRow.settingsNamespace : SettingsRow N τ → String)

structure Store where
  plans : Plans N τ
  subscriptions : Subscriptions N τ
  platformSettings : PlatformSettings N τ
  backups : Table (BackupRow.id : BackupRow N τ → String)

inductive BackupTable where
  | plans
  | subscriptions
  | platformSettings
  deriving DecidableEq, Repr

/-- A statement of a restore, or the error a loop over what is no list throws. -/
inductive Statement where
  | upsert (table : BackupTable) (row : Value N)
  | throws

end Model

variable {N τ : Type}

inductive Outcome where
  | notFound
  | failed
  | applied (counts : Counts)
  deriving DecidableEq, Repr

def BackupTable.name : BackupTable → String
  | .plans => "plans"
  | .subscriptions => "subscriptions"
  | .platformSettings => "platform_settings"

/-- The columns of a row, apart from `updated_at`. -/
def PlanRow.columns (r : PlanRow N τ) : String × String × Bool × Jsonb N :=
  (r.id, r.tier, r.hidden, r.data)

def SubscriptionRow.columns (r : SubscriptionRow N τ) : String × String × String × Jsonb N :=
  (r.tenantId, r.planId, r.status, r.data)

def SettingsRow.columns (r : SettingsRow N τ) : String × Jsonb N := (r.settingsNamespace, r.data)

def text? : Option (Value N) → Option String
  | some (.string s) => some s
  | _ => none

def boolean? : Option (Value N) → Option Bool
  | some (.bool b) => some b
  | _ => none

/-- `ON CONFLICT (id) DO UPDATE`. -/
def mergePlan (old excluded : PlanRow N τ) : PlanRow N τ :=
  { old with
    tier := excluded.tier
    hidden := excluded.hidden
    data := excluded.data
    updatedAt := excluded.updatedAt }

theorem mergePlan_id (old excluded : PlanRow N τ) : (mergePlan old excluded).id = old.id := rfl

def mergeSubscription (old excluded : SubscriptionRow N τ) : SubscriptionRow N τ :=
  { old with
    planId := excluded.planId
    status := excluded.status
    data := excluded.data
    updatedAt := excluded.updatedAt }

theorem mergeSubscription_tenantId (old excluded : SubscriptionRow N τ) :
    (mergeSubscription old excluded).tenantId = old.tenantId := rfl

def mergeSettings (old excluded : SettingsRow N τ) : SettingsRow N τ :=
  { old with data := excluded.data, updatedAt := excluded.updatedAt }

theorem mergeSettings_settingsNamespace (old excluded : SettingsRow N τ) :
    (mergeSettings old excluded).settingsNamespace = old.settingsNamespace := rfl

def upsertPlan (db : Store N τ) (r : PlanRow N τ) : Store N τ :=
  { db with plans := db.plans.upsert r mergePlan fun old => mergePlan_id old r }

def upsertSubscription (db : Store N τ) (r : SubscriptionRow N τ) : Store N τ :=
  { db with
    subscriptions :=
      db.subscriptions.upsert r mergeSubscription fun old => mergeSubscription_tenantId old r }

def upsertSettings (db : Store N τ) (r : SettingsRow N τ) : Store N τ :=
  { db with
    platformSettings :=
      db.platformSettings.upsert r mergeSettings fun old =>
        mergeSettings_settingsNamespace old r }

/-- A column takes no null, so a row without one of its properties is refused. -/
def execute : Statement N → τ → Store N τ → Option (Store N τ)
  | .upsert .plans row, now, db => do
    let id ← text? (row.get? "id")
    let tier ← text? (row.get? "tier")
    let hidden ← boolean? (row.get? "hidden")
    let data ← row.get? "data"
    return upsertPlan db ⟨id, tier, hidden, .ofValue data, now⟩
  | .upsert .subscriptions row, now, db => do
    let tenantId ← text? (row.get? "tenant_id")
    let planId ← text? (row.get? "plan_id")
    let status ← text? (row.get? "status")
    let data ← row.get? "data"
    return upsertSubscription db ⟨tenantId, planId, status, .ofValue data, now⟩
  | .upsert .platformSettings row, now, db => do
    let settingsNamespace ← text? (row.get? "namespace")
    let data ← row.get? "data"
    return upsertSettings db ⟨settingsNamespace, .ofValue data, now⟩
  | .throws, _, _ => none

/-- `for (const row of backup.data[table] ?? [])`. -/
def rowsOf (data : Value N) (table : BackupTable) : List (Statement N) :=
  match data.get? table.name with
  | none | some .null => []
  | some (.array rows) => rows.map (.upsert table)
  | some _ => [.throws]

def restoreStatements (data : Value N) : List (Statement N) :=
  rowsOf data .plans ++ (rowsOf data .subscriptions ++ rowsOf data .platformSettings)

section Operations

variable (toISOString : τ → String) (byteLength : Value N → ℕ)

def toManifest (r : BackupRow N τ) : BackupManifest where
  id := r.id
  createdAt := toISOString r.createdAt
  createdBy := r.createdBy
  note := r.note
  counts := r.counts
  sizeBytes := r.sizeBytes

/-- A row as `SELECT *` returns it; in JSON a date is a string. -/
def planMembers (r : PlanRow N τ) : List (String × Value N) :=
  [("id", .string r.id), ("tier", .string r.tier), ("hidden", .bool r.hidden),
    ("data", r.data.toValue), ("updated_at", .string (toISOString r.updatedAt))]

def subscriptionMembers (r : SubscriptionRow N τ) : List (String × Value N) :=
  [("tenant_id", .string r.tenantId), ("plan_id", .string r.planId),
    ("status", .string r.status), ("data", r.data.toValue),
    ("updated_at", .string (toISOString r.updatedAt))]

def settingsMembers (r : SettingsRow N τ) : List (String × Value N) :=
  [("namespace", .string r.settingsNamespace), ("data", r.data.toValue),
    ("updated_at", .string (toISOString r.updatedAt))]

def planObject (r : PlanRow N τ) : Value N := .object (planMembers toISOString r)

def subscriptionObject (r : SubscriptionRow N τ) : Value N :=
  .object (subscriptionMembers toISOString r)

def settingsObject (r : SettingsRow N τ) : Value N := .object (settingsMembers toISOString r)

def snapshotMembers (db : Store N τ) : List (String × Value N) :=
  [("plans", .array (db.plans.rows.map (planObject toISOString))),
    ("subscriptions", .array (db.subscriptions.rows.map (subscriptionObject toISOString))),
    ("platform_settings",
      .array (db.platformSettings.rows.map (settingsObject toISOString)))]

/-- The payload of a backup. -/
def captureSnapshot (db : Store N τ) : Value N := .object (snapshotMembers toISOString db)

def countsOf (db : Store N τ) : Counts where
  plans := db.plans.rows.length
  subscriptions := db.subscriptions.rows.length
  platformSettings := db.platformSettings.rows.length

/-- `id` is a fresh UUID; the `INSERT` fails when the table has it. -/
def createBackup (db : Store N τ) (id actor : String) (note : Option String) (now : τ) :
    Option (BackupManifest × Store N τ) :=
  let snapshot := captureSnapshot toISOString db
  let row : BackupRow N τ :=
    ⟨id, now, actor, note, countsOf db, byteLength snapshot, .ofValue snapshot⟩
  (db.backups.insert row).map fun backups =>
    (toManifest toISOString row, { db with backups := backups })

def getBackup (db : Store N τ) (id : String) : Option (BackupManifest × Value N) :=
  (db.backups.find? id).map fun row => (toManifest toISOString row, row.data.toValue)

/-- How many rows a table of the document has, which the loop over it applied. -/
def countRows (data : Value N) (table : BackupTable) : ℕ := (rowsOf data table).length

/-- The statements are answered in order, the `SELECT` of the backup first. -/
def restoreBackup (answer : ℕ → Answer τ) (db : Store N τ) (id : String) :
    Store N τ × Outcome :=
  match answer 0 with
  | .lost _ | .refused => (db, .failed)
  | .done _ =>
    match getBackup toISOString db id with
    | none => (db, .notFound)
    | some (_, data) =>
      let (restored, ok) := replay execute answer 1 (restoreStatements data) db
      (restored,
        if ok then
          .applied ⟨countRows data .plans, countRows data .subscriptions,
            countRows data .platformSettings⟩
        else .failed)

variable {toISOString}

theorem execute_plan (r : PlanRow N τ) (now : τ) (db : Store N τ) :
    execute (.upsert .plans (reread (planObject toISOString r))) now db =
      some (upsertPlan db { r with updatedAt := now }) := by
  have hkeys : ((planMembers toISOString r).map Prod.fst).Nodup := by simp [planMembers]
  have hget : ∀ key v, (key, v) ∈ planMembers toISOString r →
      (reread (planObject toISOString r)).get? key = some (reread v) := fun _ _ =>
    get?_reread hkeys
  have hid := hget "id" (.string r.id) (by simp [planMembers])
  have htier := hget "tier" (.string r.tier) (by simp [planMembers])
  have hhidden := hget "hidden" (.bool r.hidden) (by simp [planMembers])
  have hdata := hget "data" r.data.toValue (by simp [planMembers])
  simp [execute, hid, htier, hhidden, hdata, text?, boolean?, ofValue_reread_toValue]

theorem execute_subscription (r : SubscriptionRow N τ) (now : τ) (db : Store N τ) :
    execute (.upsert .subscriptions (reread (subscriptionObject toISOString r))) now db =
      some (upsertSubscription db { r with updatedAt := now }) := by
  have hkeys : ((subscriptionMembers toISOString r).map Prod.fst).Nodup := by
    simp [subscriptionMembers]
  have hget : ∀ key v, (key, v) ∈ subscriptionMembers toISOString r →
      (reread (subscriptionObject toISOString r)).get? key = some (reread v) := fun _ _ =>
    get?_reread hkeys
  have htenant := hget "tenant_id" (.string r.tenantId) (by simp [subscriptionMembers])
  have hplan := hget "plan_id" (.string r.planId) (by simp [subscriptionMembers])
  have hstatus := hget "status" (.string r.status) (by simp [subscriptionMembers])
  have hdata := hget "data" r.data.toValue (by simp [subscriptionMembers])
  simp [execute, htenant, hplan, hstatus, hdata, text?, ofValue_reread_toValue]

theorem execute_settings (r : SettingsRow N τ) (now : τ) (db : Store N τ) :
    execute (.upsert .platformSettings (reread (settingsObject toISOString r))) now db =
      some (upsertSettings db { r with updatedAt := now }) := by
  have hkeys : ((settingsMembers toISOString r).map Prod.fst).Nodup := by
    simp [settingsMembers]
  have hget : ∀ key v, (key, v) ∈ settingsMembers toISOString r →
      (reread (settingsObject toISOString r)).get? key = some (reread v) := fun _ _ =>
    get?_reread hkeys
  have hnamespace := hget "namespace" (.string r.settingsNamespace) (by simp [settingsMembers])
  have hdata := hget "data" r.data.toValue (by simp [settingsMembers])
  simp [execute, hnamespace, hdata, text?, ofValue_reread_toValue]

/-- What a statement that runs can do: one upsert, under the key its row names. -/
theorem execute_cases {statement : Statement N} {now : τ} {s t : Store N τ}
    (h : execute statement now s = some t) :
    (∃ row r, statement = .upsert .plans row ∧ t = upsertPlan s r) ∨
      (∃ row r, statement = .upsert .subscriptions row ∧
        text? (row.get? "tenant_id") = some r.tenantId ∧ t = upsertSubscription s r) ∨
      ∃ row r, statement = .upsert .platformSettings row ∧ t = upsertSettings s r := by
  cases statement with
  | throws => cases h
  | upsert table row =>
    cases table with
    | plans =>
      simp only [execute, Option.bind_eq_bind, Option.bind_eq_some_iff, Option.pure_def] at h
      obtain ⟨id, -, tier, -, hidden, -, data, -, h⟩ := h
      exact Or.inl ⟨row, _, rfl, (Option.some.inj h).symm⟩
    | subscriptions =>
      simp only [execute, Option.bind_eq_bind, Option.bind_eq_some_iff, Option.pure_def] at h
      obtain ⟨tenantId, htenant, planId, -, status, -, data, -, h⟩ := h
      exact Or.inr (Or.inl ⟨row, _, rfl, htenant, (Option.some.inj h).symm⟩)
    | platformSettings =>
      simp only [execute, Option.bind_eq_bind, Option.bind_eq_some_iff, Option.pure_def] at h
      obtain ⟨settingsNamespace, -, data, -, h⟩ := h
      exact Or.inr (Or.inr ⟨row, _, rfl, (Option.some.inj h).symm⟩)

theorem backups_execute {statement : Statement N} {now : τ} {s t : Store N τ}
    (h : execute statement now s = some t) : t.backups = s.backups := by
  obtain ⟨-, r, -, rfl⟩ | ⟨-, r, -, -, rfl⟩ | ⟨-, r, -, rfl⟩ := execute_cases h
  · rfl
  · rfl
  · rfl

/-- `u` is `t` with the rows of `s` put back. -/
structure RestoredFrom (s t u : Store N τ) : Prop where
  plans : Restored PlanRow.columns s.plans.rows t.plans u.plans
  subscriptions : Restored SubscriptionRow.columns s.subscriptions.rows t.subscriptions
    u.subscriptions
  platformSettings : Restored SettingsRow.columns s.platformSettings.rows t.platformSettings
    u.platformSettings

/-- `u` is `t` with the first `m` rows of `s` put back: plans before subscriptions, and these
before settings. -/
structure RestoredUpTo (m : ℕ) (s t u : Store N τ) : Prop where
  plans : Restored PlanRow.columns (s.plans.rows.take m) t.plans u.plans
  subscriptions : Restored SubscriptionRow.columns
    (s.subscriptions.rows.take (m - s.plans.rows.length)) t.subscriptions u.subscriptions
  platformSettings : Restored SettingsRow.columns
    (s.platformSettings.rows.take (m - s.plans.rows.length - s.subscriptions.rows.length))
    t.platformSettings u.platformSettings

variable {s t u : Store N τ}

theorem restoredUpTo_zero (s t : Store N τ) : RestoredUpTo 0 s t t where
  plans := .none _
  subscriptions := by simpa using Restored.none _
  platformSettings := by simpa using Restored.none _

/-- The statements for the rows of a store. -/
def captured (toISOString : τ → String) (s : Store N τ) : List (Statement N) :=
  s.plans.rows.map (fun r => .upsert .plans (reread (planObject toISOString r))) ++
    (s.subscriptions.rows.map
        (fun r => .upsert .subscriptions (reread (subscriptionObject toISOString r))) ++
      s.platformSettings.rows.map
        (fun r => .upsert .platformSettings (reread (settingsObject toISOString r))))

theorem rowsOf_snapshot (toISOString : τ → String) (s : Store N τ) :
    rowsOf (reread (captureSnapshot toISOString s)) .plans = s.plans.rows.map
        (fun r => .upsert .plans (reread (planObject toISOString r))) ∧
      rowsOf (reread (captureSnapshot toISOString s)) .subscriptions = s.subscriptions.rows.map
        (fun r => .upsert .subscriptions (reread (subscriptionObject toISOString r))) ∧
      rowsOf (reread (captureSnapshot toISOString s)) .platformSettings =
        s.platformSettings.rows.map
          (fun r => .upsert .platformSettings (reread (settingsObject toISOString r))) := by
  have hkeys : ((snapshotMembers toISOString s).map Prod.fst).Nodup := by
    simp [snapshotMembers]
  have hget : ∀ key rows, (key, Value.array rows) ∈ snapshotMembers toISOString s →
      (reread (captureSnapshot toISOString s)).get? key = some (.array (rows.map reread)) := by
    intro key rows hmem
    rw [← reread_array]
    exact get?_reread hkeys hmem
  have hplans := hget "plans" (s.plans.rows.map (planObject toISOString))
    (by simp [snapshotMembers])
  have hsubscriptions := hget "subscriptions"
    (s.subscriptions.rows.map (subscriptionObject toISOString)) (by simp [snapshotMembers])
  have hsettings := hget "platform_settings"
    (s.platformSettings.rows.map (settingsObject toISOString)) (by simp [snapshotMembers])
  refine ⟨?_, ?_, ?_⟩
  · simp [rowsOf, BackupTable.name, hplans]
  · simp [rowsOf, BackupTable.name, hsubscriptions]
  · simp [rowsOf, BackupTable.name, hsettings]

theorem restoreStatements_snapshot (s : Store N τ) :
    restoreStatements (reread (captureSnapshot toISOString s)) = captured toISOString s := by
  obtain ⟨hplans, hsubscriptions, hsettings⟩ := rowsOf_snapshot toISOString s
  rw [restoreStatements, hplans, hsubscriptions, hsettings, captured]

/-- The step lemma: the next statement puts the next row back. -/
theorem advances_execute (s t : Store N τ) :
    Advances execute (captured toISOString s) fun m => RestoredUpTo m s t := by
  intro m statement now u hm h
  rw [captured, List.getElem?_append, List.length_map, List.getElem?_append, List.length_map] at hm
  split_ifs at hm with hplan hsubscription
  · rw [List.getElem?_map] at hm
    obtain ⟨r, hr, rfl⟩ := Option.map_eq_some_iff.mp hm
    have hno : m + 1 - s.plans.rows.length = m - s.plans.rows.length := by omega
    exact ⟨_, execute_plan r now u,
      { plans := h.plans.next hr rfl rfl fun old hold => by simp [mergePlan, PlanRow.columns, hold]
        subscriptions := by rw [hno]; exact h.subscriptions
        platformSettings := by rw [hno]; exact h.platformSettings }⟩
  · rw [List.getElem?_map] at hm
    obtain ⟨r, hr, rfl⟩ := Option.map_eq_some_iff.mp hm
    have hall : s.plans.rows.take (m + 1) = s.plans.rows.take m := by
      rw [List.take_of_length_le (by omega), List.take_of_length_le (by omega)]
    have hnext : m + 1 - s.plans.rows.length = m - s.plans.rows.length + 1 := by omega
    have hno : m - s.plans.rows.length + 1 - s.subscriptions.rows.length =
        m - s.plans.rows.length - s.subscriptions.rows.length := by omega
    exact ⟨_, execute_subscription r now u,
      { plans := by rw [hall]; exact h.plans
        subscriptions := by
          rw [hnext]
          exact h.subscriptions.next hr rfl rfl fun old hold => by
            simp [mergeSubscription, SubscriptionRow.columns, hold]
        platformSettings := by rw [hnext, hno]; exact h.platformSettings }⟩
  · rw [List.getElem?_map] at hm
    obtain ⟨r, hr, rfl⟩ := Option.map_eq_some_iff.mp hm
    have hplans : s.plans.rows.take (m + 1) = s.plans.rows.take m := by
      rw [List.take_of_length_le (by omega), List.take_of_length_le (by omega)]
    have hsubscriptions : s.subscriptions.rows.take (m + 1 - s.plans.rows.length) =
        s.subscriptions.rows.take (m - s.plans.rows.length) := by
      rw [List.take_of_length_le (by omega), List.take_of_length_le (by omega)]
    have hnext : m + 1 - s.plans.rows.length - s.subscriptions.rows.length =
        m - s.plans.rows.length - s.subscriptions.rows.length + 1 := by omega
    exact ⟨_, execute_settings r now u,
      { plans := by rw [hplans]; exact h.plans
        subscriptions := by rw [hsubscriptions]; exact h.subscriptions
        platformSettings := by
          rw [hnext]
          exact h.platformSettings.next hr rfl rfl fun old hold => by
            simp [mergeSettings, SettingsRow.columns, hold] }⟩

theorem captured_length (s : Store N τ) : (captured toISOString s).length =
    s.plans.rows.length + s.subscriptions.rows.length + s.platformSettings.rows.length := by
  simp [captured, Nat.add_assoc]

theorem RestoredUpTo.restoredFrom {m : ℕ} (h : RestoredUpTo m s t u)
    (hm : m = (captured toISOString s).length) : RestoredFrom s t u := by
  rw [captured_length] at hm
  obtain ⟨hplans, hsubscriptions, hsettings⟩ := h
  rw [List.take_of_length_le (by omega)] at hplans hsubscriptions hsettings
  exact ⟨hplans, hsubscriptions, hsettings⟩

/-- To put all the rows back after some of them is to put all of them back. -/
theorem RestoredUpTo.resume {m : ℕ} {v : Store N τ} (h : RestoredUpTo m s t u)
    (h' : RestoredFrom s u v) : RestoredFrom s t v where
  plans := h.plans.resume (List.take_subset _ _) h'.plans
  subscriptions := h.subscriptions.resume (List.take_subset _ _) h'.subscriptions
  platformSettings := h.platformSettings.resume (List.take_subset _ _) h'.platformSettings

variable {byteLength : Value N → ℕ} {id : String}

/-- In `t` the backup `id` is one of `s`. -/
def BackupOf (toISOString : τ → String) (s : Store N τ) (id : String) (t : Store N τ) : Prop :=
  ∃ b, t.backups.find? id = some b ∧ b.data = .ofValue (captureSnapshot toISOString s)

theorem backupOf_createBackup {actor : String} {note : Option String} {now : τ}
    {manifest : BackupManifest}
    (h : createBackup toISOString byteLength s id actor note now = some (manifest, t)) :
    BackupOf toISOString s manifest.id t := by
  obtain ⟨backups, hinsert, heq⟩ := Option.map_eq_some_iff.mp h
  obtain ⟨rfl, rfl⟩ := Prod.mk.inj heq
  have hfind := Table.find?_insert hinsert id
  rw [if_pos rfl] at hfind
  exact ⟨_, hfind, rfl⟩

/-- A restore that gets to its statements. -/
theorem restoreBackup_eq {answer : ℕ → Answer τ} (hb : BackupOf toISOString s id t) {now : τ}
    (hselect : answer 0 = .done now) :
    restoreBackup toISOString answer t id =
      ((replay execute answer 1 (captured toISOString s) t).1,
        if (replay execute answer 1 (captured toISOString s) t).2 then .applied (countsOf s)
        else .failed) := by
  obtain ⟨b, hfind, hdata⟩ := hb
  have hread : b.data.toValue = reread (captureSnapshot toISOString s) := by rw [hdata, reread]
  obtain ⟨hplans, hsubscriptions, hsettings⟩ := rowsOf_snapshot toISOString s
  simp only [restoreBackup, hselect, getBackup, hfind, Option.map_some, hread,
    restoreStatements_snapshot, countRows, hplans, hsubscriptions, hsettings, List.length_map,
    countsOf]

theorem backups_restoreBackup (answer : ℕ → Answer τ) (s : Store N τ) (id : String) :
    (restoreBackup toISOString answer s id).1.backups = s.backups := by
  have hkeep : ∀ statement now (u v : Store N τ), u.backups = s.backups →
      execute statement now u = some v → v.backups = s.backups :=
    fun _ _ _ _ hu h => (backups_execute h).trans hu
  unfold restoreBackup
  cases answer 0 with
  | lost now => rfl
  | refused => rfl
  | done now =>
    cases getBackup toISOString s id with
    | none => rfl
    | some backup => exact replay_keeps hkeep rfl

theorem BackupOf.restoreBackup (hb : BackupOf toISOString s id t) (answer : ℕ → Answer τ) :
    BackupOf toISOString s id (restoreBackup toISOString answer t id).1 := by
  obtain ⟨b, hfind, hdata⟩ := hb
  exact ⟨b, by rw [backups_restoreBackup, hfind], hdata⟩

/-- A restore no statement of which fails. -/
theorem restoreBackup_done {answer : ℕ → Answer τ} (hb : BackupOf toISOString s id t)
    (hdone : ∀ i, ∃ now, answer i = .done now) :
    ∃ u, restoreBackup toISOString answer t id = (u, .applied (countsOf s)) ∧
      RestoredFrom s t u ∧ BackupOf toISOString s id u := by
  obtain ⟨now, hselect⟩ := hdone 0
  have hrun : ∃ u, replay execute answer 1 (captured toISOString s) t = (u, true) ∧
      RestoredUpTo (captured toISOString s).length s t u :=
    replay_done (advances_execute s t) (fun i => hdone (1 + i)) (restoredUpTo_zero s t)
  obtain ⟨u, hreplay, hrestored⟩ := hrun
  have heq := restoreBackup_eq hb hselect
  rw [hreplay] at heq
  have hbu := hb.restoreBackup answer
  rw [heq] at hbu
  exact ⟨u, heq, hrestored.restoredFrom rfl, hbu⟩

/-- What may happen to the store: anything to the three tables, a backup, or a restore. -/
inductive Action (N τ : Type) where
  | write (plans : Plans N τ) (subscriptions : Subscriptions N τ)
      (platformSettings : PlatformSettings N τ)
  | createBackup (id actor : String) (note : Option String) (now : τ)
  | restoreBackup (answer : ℕ → Answer τ) (id : String)

def step (toISOString : τ → String) (byteLength : Value N → ℕ) (s : Store N τ) :
    Action N τ → Option (Store N τ)
  | .write plans subscriptions platformSettings => some { s with
      plans := plans
      subscriptions := subscriptions
      platformSettings := platformSettings }
  | .createBackup id actor note now =>
    (createBackup toISOString byteLength s id actor note now).map Prod.snd
  | .restoreBackup answer id => some (restoreBackup toISOString answer s id).1

/-- A backup stays what it is. -/
theorem backupOf_step {a : Action N τ} (hb : BackupOf toISOString s id t)
    (h : step toISOString byteLength t a = some u) : BackupOf toISOString s id u := by
  obtain ⟨b, hfind, hdata⟩ := hb
  refine ⟨b, ?_, hdata⟩
  cases a with
  | write plans subscriptions platformSettings =>
    obtain rfl := Option.some.inj h
    exact hfind
  | createBackup id' actor note now =>
    obtain ⟨⟨manifest, u'⟩, hcreate, rfl⟩ := Option.map_eq_some_iff.mp h
    obtain ⟨backups, hinsert, heq⟩ := Option.map_eq_some_iff.mp hcreate
    obtain ⟨-, rfl⟩ := Prod.mk.inj heq
    have hfree := (Table.insert_eq_some hinsert).1
    have hne : id' ≠ id := by
      rintro rfl
      rw [hfind] at hfree
      cases hfree
    have hfound := Table.find?_insert hinsert id
    rw [if_neg hne, hfind] at hfound
    exact hfound
  | restoreBackup answer id' =>
    obtain rfl := Option.some.inj h
    rw [backups_restoreBackup, hfind]

theorem backupOf_exec {as : List (Action N τ)} (hb : BackupOf toISOString s id t)
    (h : exec (step toISOString byteLength) t as = some u) : BackupOf toISOString s id u :=
  (throughout_of_step (I := BackupOf toISOString s id) (fun _ _ _ hI ht => backupOf_step hI ht)
    hb as).exec h

/-- No column but the times of the last changes differs. -/
structure SameColumns (s t : Store N τ) : Prop where
  plans : ∀ id, (t.plans.find? id).map PlanRow.columns = (s.plans.find? id).map PlanRow.columns
  subscriptions : ∀ id, (t.subscriptions.find? id).map SubscriptionRow.columns =
    (s.subscriptions.find? id).map SubscriptionRow.columns
  platformSettings : ∀ id, (t.platformSettings.find? id).map SettingsRow.columns =
    (s.platformSettings.find? id).map SettingsRow.columns

theorem RestoredFrom.sameColumns {v : Store N τ} (h : RestoredFrom s t u)
    (h' : RestoredFrom s u v) : SameColumns u v where
  plans := h.plans.same_columns h'.plans
  subscriptions := h.subscriptions.same_columns h'.subscriptions
  platformSettings := h.platformSettings.same_columns h'.platformSettings

/-- Whatever happens to the tables after the backup, a restore puts the captured rows back
and leaves the others alone, and a second one changes no column any more. -/
theorem restore_round_trip {s' : Store N τ} {actor : String} {note : Option String} {now : τ}
    {manifest : BackupManifest}
    (hcreate : createBackup toISOString byteLength s id actor note now = some (manifest, s'))
    {as : List (Action N τ)} (hlater : exec (step toISOString byteLength) s' as = some t)
    {answer : ℕ → Answer τ} (hdone : ∀ i, ∃ now, answer i = .done now) :
    ∃ u, restoreBackup toISOString answer t manifest.id = (u, .applied (countsOf s)) ∧
      RestoredFrom s t u ∧
      ∀ answer' : ℕ → Answer τ, (∀ i, ∃ now, answer' i = .done now) →
        ∃ v, restoreBackup toISOString answer' u manifest.id = (v, .applied (countsOf s)) ∧
          RestoredFrom s u v ∧ SameColumns u v := by
  have hbackup := backupOf_exec (backupOf_createBackup hcreate) hlater
  obtain ⟨u, hu, hrestored, hbu⟩ := restoreBackup_done hbackup hdone
  refine ⟨u, hu, hrestored, fun answer' hdone' => ?_⟩
  obtain ⟨v, hv, hagain, -⟩ := restoreBackup_done hbu hdone'
  exact ⟨v, hv, hagain, hrestored.sameColumns hagain⟩

end Operations

/-- A catalog of one plan and one namespace of settings. -/
def catalog : Store ℕ ℕ where
  plans := ⟨[⟨"starter", "starter", false,
    .ofValue (.object [("tier", .string "starter"), ("id", .string "starter")]), 1⟩], by decide⟩
  subscriptions := ∅
  platformSettings := ⟨[⟨"platform", .ofValue (.object [("maintenanceMode", .bool false)]), 2⟩],
    by decide⟩
  backups := ∅

/-- The plan is deleted and the settings are edited. -/
def edited : Action ℕ ℕ :=
  .write ∅ ∅
    ⟨[⟨"platform", .ofValue (.object [("maintenanceMode", .bool true)]), 4⟩], by decide⟩

theorem restore_round_trip_catalog :
    ∃ manifest s' t, createBackup Nat.repr (fun _ => 2) catalog "b1" "admin1" none 3 =
        some (manifest, s') ∧ exec (step Nat.repr fun _ => 2) s' [edited] = some t ∧
      ∃ u, restoreBackup Nat.repr (fun i => .done (5 + i)) t manifest.id =
          (u, .applied (countsOf catalog)) ∧ RestoredFrom catalog t u ∧
        ∀ answer' : ℕ → Answer ℕ, (∀ i, ∃ now, answer' i = .done now) →
          ∃ v, restoreBackup Nat.repr answer' u manifest.id = (v, .applied (countsOf catalog)) ∧
            RestoredFrom catalog u v ∧ SameColumns u v := by
  obtain ⟨⟨manifest, s'⟩, hcreate⟩ : ∃ created,
      createBackup Nat.repr (fun _ => 2) catalog "b1" "admin1" none 3 = some created := ⟨_, rfl⟩
  obtain ⟨t, hlater⟩ : ∃ t, exec (step Nat.repr fun _ => 2) s' [edited] = some t := ⟨_, rfl⟩
  exact ⟨manifest, s', t, hcreate, hlater,
    restore_round_trip hcreate hlater fun i => ⟨5 + i, rfl⟩⟩

end HeirsOcr.Backups
