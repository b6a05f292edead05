import HeirsOcr.ExpiringKeys
import HeirsOcr.Interleaving
import HeirsOcr.JobOutcomes

/-!
# A job is metered once

A delivery runs the pipeline, claims the marker of its job in Redis and meters the
document, as separate commands: another delivery of the job may run between any two of
them, and a worker may stop at any of them. The claim is one command, so at most one
delivery of a job gets past it while the marker lives.
-/
namespace HeirsOcr.Jobs
open Pipeline StepMachine Interleaving ExpiringKeys

variable {Json Llm : Type}

/-- The id `enqueue` returns, of the one BullMQ assigned. -/
def enqueue (assigned : Option String) : Except String String :=
  let id := assigned.getD ""
  if id = "" then .error "BullMQ did not assign a job id" else .ok id

def METER_MARKER_TTL_SECONDS : ℤ := 30 * 24 * 60 * 60

def meterKey (jobId : String) : String := "meter:job:" ++ jobId

/-- A delivered job as the worker sees it. -/
structure DeliveredJob (Json : Type) where
  id : Option String
  data : OcrJobData Json

/-- A call of `recordDocumentUsage`, with the job it is for. -/
structure DocumentUsage where
  jobId : Option String
  tenantId : String
  pages : ℕ
  tokensUsed : Option ℕ
  deriving DecidableEq, Repr

/-- The clock, the markers in Redis and the documents metered so far. -/
structure Meter where
  now : ℤ
  markers : Keyspace String String
  metered : List DocumentUsage

/-- Where a delivery stands: before its run of the pipeline, its claim or its metering. -/
inductive DeliveryCall (Json : Type) where
  | running (job : DeliveredJob Json)
  | claiming (usage : DocumentUsage)
  | metering (usage : DocumentUsage)

/-- What a delivery meets, and whether Redis answers it. -/
structure Answer (Llm : Type) where
  delivery : Delivery Llm
  available : Bool

/-- `processJob` once its run of the pipeline has answered. -/
def metersNext (job : DeliveredJob Json) (answer : OcrResponseMeta) : DeliveryCall Json :=
  let usage : DocumentUsage := ⟨job.id, job.data.tenantId, answer.pageCount, answer.tokensUsed⟩
  let id := job.id.getD ""
  if id = "" then .metering usage else .claiming usage

/-- The claim of `meterOnce`; without Redis the document is metered anyway. -/
def meterOnce (m : Meter) (available : Bool) (usage : DocumentUsage) :
    Meter × Option (DeliveryCall Json) :=
  if available then
    let key := meterKey (usage.jobId.getD "")
    let claimed := setNx m.markers m.now key "1" METER_MARKER_TTL_SECONDS
    ({ m with markers := claimed.1 }, if claimed.2 then some (.metering usage) else none)
  else (m, some (.metering usage))

section System

variable [EmptyCollection Json] (env : Environment)
  (definitions : List (AnyOcrFunctionDefinition Json Llm))

/-- The next command of a delivery; `none` is a worker that stops. -/
def resumeDelivery (m : Meter) : DeliveryCall Json → Option (Answer Llm) →
    Meter × Option (DeliveryCall Json)
  | _, none => (m, none)
  | .running job, some answer =>
    match (processJob env definitions job.data answer.delivery).response with
    | .error _ => (m, none)
    | .ok processed => (m, some (metersNext job processed))
  | .claiming usage, some answer => meterOnce m answer.available usage
  | .metering usage, some _ => ({ m with metered := m.metered ++ [usage] }, none)

/-- Deliveries over one Redis; the environment lets milliseconds pass. -/
def deliveries : System Meter (DeliveryCall Json) (DeliveredJob Json) (Option (Answer Llm)) ℕ where
  start m job := (m, some (.running job))
  resume := resumeDelivery env definitions
  environment m elapsed := { m with now := m.now + elapsed }

end System

/-- Redis and the books before the first delivery. -/
def unmetered (now : ℤ) : State Meter (DeliveryCall Json) := ⟨⟨now, fun _ => none, []⟩, []⟩

def DocumentUsage.isOf (jobId : String) (usage : DocumentUsage) : Bool :=
  usage.jobId = some jobId

def DeliveryCall.claims (jobId : String) : DeliveryCall Json → Bool
  | .claiming usage => usage.isOf jobId
  | .running _ | .metering _ => false

/-- A claim of the job finds Redis up and the marker, once set, not yet run out. -/
def MarkerKept (jobId : String) (s : State Meter (DeliveryCall Json)) :
    Action (DeliveredJob Json) (Option (Answer Llm)) ℕ → Prop
  | .advance i answer =>
    s.calls[i]?.any (DeliveryCall.claims jobId) → answer.all Answer.available ∧
      (s.shared.markers (meterKey jobId)).all (Entry.live s.shared.now)
  | .start _ | .environment _ => True

instance (jobId : String) (s : State Meter (DeliveryCall Json)) :
    DecidablePred (MarkerKept jobId s : Action _ (Option (Answer Llm)) ℕ → Prop)
  | .advance _ _ => inferInstanceAs (Decidable (_ → _))
  | .start _ => inferInstanceAs (Decidable True)
  | .environment _ => inferInstanceAs (Decidable True)

section Marker

variable (jobId : String)

/-- A delivery of the job that is about to meter. -/
def DeliveryCall.charges : DeliveryCall Json → Bool
  | .metering usage => usage.isOf jobId
  | .running _ | .claiming _ => false

/-- How often the job has been metered. -/
def Meter.charged (m : Meter) : ℕ := m.metered.countP (DocumentUsage.isOf jobId)

/-- Meterings done and due are covered by the marker. -/
def Covered (s : State Meter (DeliveryCall Json)) : Prop :=
  s.shared.charged jobId + s.calls.countP (DeliveryCall.charges jobId) ≤
    (s.shared.markers (meterKey jobId)).toList.length

/-- A command pays for what it meters or makes due: it was due before, or the marker is new. -/
def Pays (m : Meter) (call : DeliveryCall Json) (next : Meter × Option (DeliveryCall Json)) :
    Prop :=
  next.1.charged jobId + next.2.toList.countP (DeliveryCall.charges jobId) +
      (m.markers (meterKey jobId)).toList.length ≤
    m.charged jobId + (if call.charges jobId then 1 else 0) +
      (next.1.markers (meterKey jobId)).toList.length

end Marker

section Commands

variable {jobId : String} {m : Meter} {usage : DocumentUsage} {available : Bool}

theorem enqueue_ne_empty {assigned : Option String} (h : enqueue assigned = .ok jobId) :
    jobId ≠ "" := by
  simp only [enqueue] at h
  split_ifs at h with hid
  cases h
  exact hid

/-- Claiming a marker takes none away. -/
theorem length_marker_setEx (markers : Keyspace String String) (now : ℤ) (key value : String)
    (seconds : ℤ) (key' : String) :
    (markers key').toList.length ≤ (setEx markers now key value seconds key').toList.length := by
  rw [setEx]
  by_cases hkey : key' = key
  · rw [hkey, Function.update_self]
    cases markers key <;> simp
  · rw [Function.update_of_ne hkey]

/-- A delivery stopped for good owes nothing. -/
theorem pays_none (call : DeliveryCall Json) : Pays jobId m call (m, none) := by
  simp only [Pays, Option.toList_none, List.countP_nil]
  omega

theorem pays_running {job : DeliveredJob Json} (hid : jobId ≠ "") (answer : OcrResponseMeta) :
    Pays jobId m (.running job) (m, some (metersNext job answer)) := by
  have hfree : (metersNext job answer).charges jobId = false := by
    simp only [metersNext]
    split_ifs with hempty
    · have hother : job.id ≠ some jobId := by
        intro hjob
        rw [hjob] at hempty
        exact hid hempty
      simp [DeliveryCall.charges, DocumentUsage.isOf, hother]
    · rfl
  simp [Pays, hfree]

/-- The claim of a job makes its metering due only with the marker taken. -/
theorem pays_meterOnce (hkept : usage.isOf jobId = true → available = true ∧
      (m.markers (meterKey jobId)).all (Entry.live m.now) = true) :
    Pays jobId m (.claiming usage : DeliveryCall Json) (meterOnce m available usage) := by
  by_cases hof : usage.jobId = some jobId
  · obtain ⟨havailable, hlive⟩ := hkept (decide_eq_true hof)
    simp only [meterOnce, havailable, if_true, hof, Option.getD_some, setNx]
    cases hmarker : m.markers (meterKey jobId) with
    | none =>
      have habsent : lookup m.markers m.now (meterKey jobId) = none := by
        simp [lookup, hmarker]
      simp [habsent, Pays, Meter.charged, setEx, hmarker, DeliveryCall.charges,
        DocumentUsage.isOf, hof]
    | some e =>
      have hpresent : lookup m.markers m.now (meterKey jobId) = some e :=
        lookup_eq_some.mpr ⟨hmarker, by simpa [hmarker] using hlive⟩
      simp only [hpresent, Option.isSome_some, if_true]
      exact pays_none _
  · have hfree : (DeliveryCall.metering usage : DeliveryCall Json).charges jobId = false := by
      simp [DeliveryCall.charges, DocumentUsage.isOf, hof]
    cases havailable : available with
    | false => simp [meterOnce, Pays, hfree]
    | true =>
      cases hpresent : (lookup m.markers m.now (meterKey (usage.jobId.getD ""))).isSome with
      | true =>
        simp only [meterOnce, setNx, hpresent, if_true]
        exact pays_none _
      | false =>
        have hmarkers := length_marker_setEx m.markers m.now (meterKey (usage.jobId.getD "")) "1"
          METER_MARKER_TTL_SECONDS (meterKey jobId)
        simp only [meterOnce, setNx, hpresent, if_true, Bool.false_eq_true, if_false, Pays,
          Meter.charged, Option.toList_some, List.countP_singleton, hfree]
        omega

theorem pays_metering : Pays jobId m (.metering usage : DeliveryCall Json)
    ({ m with metered := m.metered ++ [usage] }, none) := by
  by_cases hof : usage.isOf jobId = true <;>
    simp [Pays, Meter.charged, DeliveryCall.charges, hof]

end Commands

section System

variable [EmptyCollection Json] {env : Environment}
  {definitions : List (AnyOcrFunctionDefinition Json Llm)} {jobId : String}
  {s t : State Meter (DeliveryCall Json)}
  {a : Action (DeliveredJob Json) (Option (Answer Llm)) ℕ}

/-- Every command of every delivery pays. -/
theorem pays_resumeDelivery (hid : jobId ≠ "") {i : ℕ} {call : DeliveryCall Json}
    {answer : Option (Answer Llm)} (hcall : s.calls[i]? = some call)
    (hkept : MarkerKept jobId s (.advance i answer)) :
    Pays jobId s.shared call (resumeDelivery env definitions s.shared call answer) := by
  cases answer with
  | none =>
    have hstop : resumeDelivery env definitions s.shared call none = (s.shared, none) := by
      cases call <;> rfl
    rw [hstop]
    exact pays_none call
  | some answer =>
    cases call with
    | running job =>
      rw [resumeDelivery]
      split
      · exact pays_none _
      · exact pays_running hid _
    | claiming usage =>
      refine pays_meterOnce fun hof => hkept ?_
      simpa [hcall, DeliveryCall.claims] using hof
    | metering usage => exact pays_metering

theorem covered_step (hid : jobId ≠ "") (hs : Covered jobId s) (hkept : MarkerKept jobId s a)
    (h : (deliveries env definitions).step s a = some t) : Covered jobId t := by
  cases a with
  | start job =>
    obtain rfl := Option.some.inj h
    simpa [Covered, deliveries, DeliveryCall.charges] using hs
  | advance i answer =>
    obtain ⟨call, hcall, rfl⟩ := Option.map_eq_some_iff.mp h
    have hpays : Pays jobId s.shared call (resumeDelivery env definitions s.shared call answer) :=
      pays_resumeDelivery hid hcall hkept
    have hcount := countP_advance (p := DeliveryCall.charges jobId) hcall
      (resumeDelivery env definitions s.shared call answer).2
    rw [Covered] at hs
    rw [Pays] at hpays
    simp only [Covered, deliveries]
    omega
  | environment elapsed =>
    obtain rfl := Option.some.inj h
    exact hs

/-- Over all deliveries, redelivered, concurrent or stopped at any command, a job whose claims
find Redis up and its marker alive is metered at most once. -/
theorem metered_at_most_once {assigned : Option String} (henqueue : enqueue assigned = .ok jobId)
    (now : ℤ) (as : List (Action (DeliveredJob Json) (Option (Answer Llm)) ℕ))
    (hkept : Guarded (deliveries env definitions).step (MarkerKept jobId) (unmetered now) as) :
    Throughout (deliveries env definitions).step (fun s => s.shared.charged jobId ≤ 1)
      (unmetered now) as := by
  have hid := enqueue_ne_empty henqueue
  have hstart : Covered jobId (unmetered now : State Meter (DeliveryCall Json)) := by
    simp [Covered, Meter.charged, unmetered]
  refine (throughout_of_guarded (fun s a t hs ha h => covered_step hid hs ha h) hstart hkept).mono
    fun s hs => ?_
  have hmarker : (s.shared.markers (meterKey jobId)).toList.length ≤ 1 := by
    cases s.shared.markers (meterKey jobId) <;> simp
  rw [Covered] at hs
  omega

end System

def receiptDelivery : DeliveredJob (List (String × String)) := ⟨some "42", receiptJob⟩

/-- A worker that is answered. -/
def answered : Option (Answer Unit) := some ⟨delivery offlineEngines, true⟩

/-- Two deliveries of one job run side by side; the second claims first, the first stops at its
claim, and a third comes after a day. -/
def redeliveries : List (Action (DeliveredJob (List (String × String))) (Option (Answer Unit)) ℕ) :=
  [.start receiptDelivery, .start receiptDelivery, .advance 0 answered, .advance 0 answered,
    .advance 1 answered, .advance 0 answered, .advance 0 answered, .environment 86400000,
    .start receiptDelivery, .advance 0 answered, .advance 0 answered]

theorem metered_at_most_once_redelivered :
    (exec (deliveries imageEnvironment receiptCatalog).step (unmetered 0) redeliveries).map
      (fun s => s.shared.charged "42") = some 1 ∧
    Throughout (deliveries imageEnvironment receiptCatalog).step
      (fun s => s.shared.charged "42" ≤ 1) (unmetered 0) redeliveries := by
  have hkept : Guarded (deliveries imageEnvironment receiptCatalog).step (MarkerKept "42")
      (unmetered 0) redeliveries := by decide
  have henqueue : enqueue (some "42") = .ok "42" := rfl
  exact ⟨by decide, metered_at_most_once henqueue 0 redeliveries hkept⟩

end HeirsOcr.Jobs
