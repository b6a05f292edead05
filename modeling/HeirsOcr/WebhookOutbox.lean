import HeirsOcr.JsText
import HeirsOcr.KeyedTable
import HeirsOcr.StepMachine

/-!
# The webhook outbox and its delivery workers

`webhook_deliveries` is queue and log at once. A tick of a worker claims due rows in
one `UPDATE … FOR UPDATE SKIP LOCKED … RETURNING` statement, then POSTs what the
statement returned, and each POST ends in `markDelivered` or `markFailed`. The state
below is the two tables together with what every tick still holds in memory, and a
step is one statement, one POST or one crash, so a run interleaves any number of
workers. A statement is atomic here: no row is locked between two steps, and a claim
finds no row to skip. Times are milliseconds.
-/
namespace HeirsOcr.WebhookOutbox
open KeyedTable StepMachine

inductive DeliveryStatus where
  | pending
  | succeeded
  | dead
  deriving DecidableEq, Repr

/-- A row of `webhook_deliveries`. -/
structure DeliveryRow where
  id : String
  endpointId : String
  tenantId : String
  event : String
  payload : String
  status : DeliveryStatus
  attempts : ℕ
  responseStatus : Option ℕ
  lastError : Option String
  nextAttemptAt : ℤ
  createdAt : ℤ
  updatedAt : ℤ
  deriving DecidableEq, Repr

/-- A row of `webhook_endpoints`. -/
structure EndpointRow where
  id : String
  tenantId : String
  url : String
  secret : String
  description : Option String
  events : List String
  enabled : Bool
  createdAt : ℤ
  updatedAt : ℤ
  deriving DecidableEq, Repr

/-- What a claim hands to the worker: the row joined with its endpoint. -/
structure DueDelivery where
  id : String
  endpointId : String
  tenantId : String
  event : String
  payload : String
  attempts : ℕ
  url : String
  secret : String
  deriving DecidableEq, Repr

/-- A claimed delivery in the memory of a tick; `posting` once its request is out. -/
structure Held where
  tick : ℕ
  delivery : DueDelivery
  posting : Bool
  deriving DecidableEq, Repr

/-- Both tables, everything in flight, the number of ticks so far (a tick is named by
its number) and the log of POSTs sent, by delivery id. -/
structure Outbox where
  deliveries : Table DeliveryRow.id
  endpoints : Table EndpointRow.id
  held : List Held
  ticks : ℕ
  posts : List String

def MAX_ATTEMPTS : ℕ := 6

def BASE_BACKOFF_MS : ℤ := 10000

/-- Delay before attempt `n`, counted from one, doubling each time. -/
def backoffMs (attempts : ℕ) : ℤ := BASE_BACKOFF_MS * 2 ^ (attempts - 1)

def isSuccess (status : ℕ) : Bool := 200 ≤ status && status < 300

/-- The `WHERE` clause of the claim, endpoint join included. -/
def isDue (s : Outbox) (now : ℤ) (d : DeliveryRow) : Bool :=
  d.status == .pending && d.nextAttemptAt ≤ now &&
    (s.endpoints.find? d.endpointId).any EndpointRow.enabled

def dueRows (s : Outbox) (now : ℤ) : List DeliveryRow :=
  s.deliveries.rows.filter (isDue s now)

/-- The rows `ORDER BY next_attempt_at LIMIT limit` may pick. The order of rows with
equal times is the database's choice, so the batch is a parameter of the claim. -/
def IsBatch (s : Outbox) (limit : ℕ) (now : ℤ) (picked : List DeliveryRow) : Prop :=
  picked.Nodup ∧ (∀ d ∈ picked, d ∈ dueRows s now) ∧
    picked.length = min limit (dueRows s now).length ∧
    ∀ d ∈ picked, ∀ e ∈ dueRows s now, e ∉ picked → d.nextAttemptAt ≤ e.nextAttemptAt

instance (s : Outbox) (limit : ℕ) (now : ℤ) (picked : List DeliveryRow) :
    Decidable (IsBatch s limit now picked) := inferInstanceAs <| Decidable <|
  picked.Nodup ∧ (∀ d ∈ picked, d ∈ dueRows s now) ∧
    picked.length = min limit (dueRows s now).length ∧
    ∀ d ∈ picked, ∀ e ∈ dueRows s now, e ∉ picked → d.nextAttemptAt ≤ e.nextAttemptAt

/-- One row of `RETURNING d.*, e.url, e.secret`. -/
def toDue (s : Outbox) (d : DeliveryRow) : Option DueDelivery :=
  (s.endpoints.find? d.endpointId).map fun e =>
    { id := d.id, endpointId := d.endpointId, tenantId := d.tenantId, event := d.event,
      payload := d.payload, attempts := d.attempts, url := e.url, secret := e.secret }

/-- What the claim writes: the attempt count, and nothing the claim selects on. -/
def claimed (dbNow : ℤ) (d : DeliveryRow) : DeliveryRow :=
  { d with attempts := d.attempts + 1, updatedAt := dbNow }

def claimDueDeliveries (s : Outbox) (limit : ℕ) (now dbNow : ℤ) (picked : List DeliveryRow) :
    Option (Outbox × List DueDelivery) :=
  if IsBatch s limit now picked then
    some ({ s with deliveries :=
              s.deliveries.update (· ∈ picked) (claimed dbNow) fun _ => rfl },
      picked.filterMap fun d => toDue s (claimed dbNow d))
  else none

def setRow (s : Outbox) (id : String) (f : DeliveryRow → DeliveryRow)
    (hf : ∀ d, (f d).id = d.id) : Outbox :=
  { s with deliveries := s.deliveries.update (fun d => d.id = id) f hf }

def markDelivered (s : Outbox) (id : String) (responseStatus : ℕ) (dbNow : ℤ) : Outbox :=
  setRow s id (fun d => { d with
    status := .succeeded, responseStatus := some responseStatus, lastError := none,
    updatedAt := dbNow }) fun _ => rfl

def cutError (error : String) : String := JsText.slice error 500

/-- A retry when `retryAt` is given, else dead. -/
def markFailed (s : Outbox) (id : String) (responseStatus : Option ℕ) (error : String)
    (retryAt : Option ℤ) (dbNow : ℤ) : Outbox :=
  match retryAt with
  | some at' => setRow s id (fun d => { d with
      status := .pending, responseStatus := responseStatus, lastError := some (cutError error),
      nextAttemptAt := at', updatedAt := dbNow }) fun _ => rfl
  | none => setRow s id (fun d => { d with
      status := .dead, responseStatus := responseStatus, lastError := some (cutError error),
      updatedAt := dbNow }) fun _ => rfl

/-- `attempts` was incremented by the claim, so it counts this try. -/
def failOrRetry (s : Outbox) (d : DueDelivery) (error : String) (responseStatus : Option ℕ)
    (now dbNow : ℤ) : Outbox :=
  if MAX_ATTEMPTS ≤ d.attempts then markFailed s d.id responseStatus error none dbNow
  else markFailed s d.id responseStatus error (some (now + backoffMs d.attempts)) dbNow

@[simp] theorem markDelivered_held (s : Outbox) (id : String) (status : ℕ) (dbNow : ℤ) :
    (markDelivered s id status dbNow).held = s.held := rfl

@[simp] theorem markFailed_held (s : Outbox) (id : String) (status : Option ℕ)
    (error : String) (retryAt : Option ℤ) (dbNow : ℤ) :
    (markFailed s id status error retryAt dbNow).held = s.held := by
  cases retryAt <;> rfl

@[simp] theorem failOrRetry_held (s : Outbox) (d : DueDelivery) (error : String)
    (status : Option ℕ) (now dbNow : ℤ) :
    (failOrRetry s d error status now dbNow).held = s.held := by
  unfold failOrRetry
  split_ifs <;> simp

def reapOrphanedDeliveries (s : Outbox) (dbNow : ℤ) : Outbox :=
  { s with
    deliveries := s.deliveries.update
      (fun d => d.status = .pending ∧ s.endpoints.find? d.endpointId = none)
      (fun d => { d with
        status := .dead, lastError := some "Endpoint was deleted", updatedAt := dbNow })
      fun _ => rfl }

def enqueueDelivery (s : Outbox) (id endpointId tenantId event payload : String) (dbNow : ℤ) :
    Option Outbox :=
  (s.deliveries.insert {
    id := id, endpointId := endpointId, tenantId := tenantId, event := event,
    payload := payload, status := .pending, attempts := 0, responseStatus := none,
    lastError := none, nextAttemptAt := dbNow, createdAt := dbNow, updatedAt := dbNow }).map
    fun t => { s with deliveries := t }

def createEndpoint (s : Outbox) (e : EndpointRow) : Option Outbox :=
  (s.endpoints.insert e).map fun t => { s with endpoints := t }

/-- `PATCH` of an endpoint; an absent field keeps its value. -/
def updateEndpoint (s : Outbox) (tenantId id : String) (url description : Option String)
    (events : Option (List String)) (enabled : Option Bool) (dbNow : ℤ) : Outbox :=
  { s with
    endpoints := s.endpoints.update (fun e => e.tenantId = tenantId ∧ e.id = id)
      (fun e => { e with
        url := url.getD e.url, description := description.orElse fun _ => e.description,
        events := events.getD e.events, enabled := enabled.getD e.enabled,
        updatedAt := dbNow }) fun _ => rfl }

def deleteEndpoint (s : Outbox) (tenantId id : String) : Outbox :=
  { s with endpoints := s.endpoints.delete fun e => e.tenantId = tenantId ∧ e.id = id }

/-- The delivery a tick holds, in the given stage of its attempt. -/
def holding (s : Outbox) (tick : ℕ) (id : String) (posting : Bool) : Option DueDelivery :=
  (s.held.find? fun h => h.tick = tick ∧ h.delivery.id = id ∧ h.posting = posting).map
    Held.delivery

/-- The attempt is over: the tick forgets the delivery. -/
def release (s : Outbox) (tick : ℕ) (id : String) : Outbox :=
  { s with held := s.held.filter fun h => ¬(h.tick = tick ∧ h.delivery.id = id) }

inductive Action where
  /-- One tick's claim: it becomes the next tick and holds what the statement returns. -/
  | claim (limit : ℕ) (now dbNow : ℤ) (picked : List DeliveryRow)
  /-- The destination guard refused: `markFailed` without a retry. -/
  | refuse (tick : ℕ) (id reason : String) (dbNow : ℤ)
  | post (tick : ℕ) (id : String)
  | answer (tick : ℕ) (id : String) (status : ℕ) (now dbNow : ℤ)
  /-- The request failed or timed out, or the write after its answer threw. -/
  | fail (tick : ℕ) (id message : String) (now dbNow : ℤ)
  /-- The outcome could not be written: the attempt ends with the row as it is. -/
  | lose (tick : ℕ) (id : String)
  /-- The process died with everything one of its ticks held. -/
  | crash (tick : ℕ)
  | reap (dbNow : ℤ)
  | enqueue (id endpointId tenantId event payload : String) (dbNow : ℤ)
  | createEndpoint (e : EndpointRow)
  | updateEndpoint (tenantId id : String) (url description : Option String)
      (events : Option (List String)) (enabled : Option Bool) (dbNow : ℤ)
  | deleteEndpoint (tenantId id : String)

def step (s : Outbox) : Action → Option Outbox
  | .claim limit now dbNow picked =>
    (claimDueDeliveries s limit now dbNow picked).map fun (s', due) =>
      { s' with
        held := s'.held ++ due.map fun d => ⟨s.ticks, d, false⟩
        ticks := s.ticks + 1 }
  | .refuse tick id reason dbNow =>
    (holding s tick id false).map fun d =>
      release (markFailed s d.id none reason none dbNow) tick id
  | .post tick id =>
    (holding s tick id false).map fun d =>
      { s with
        held := s.held.map fun h =>
          if h.tick = tick ∧ h.delivery.id = id then { h with posting := true } else h
        posts := s.posts ++ [d.id] }
  | .answer tick id status now dbNow =>
    (holding s tick id true).map fun d =>
      if isSuccess status then release (markDelivered s d.id status dbNow) tick id
      else release (failOrRetry s d s!"Receiver responded {status}" (some status) now dbNow)
        tick id
  | .fail tick id message now dbNow =>
    (holding s tick id true).map fun d =>
      release (failOrRetry s d message none now dbNow) tick id
  | .lose tick id => some (release s tick id)
  | .crash tick => some { s with held := s.held.filter fun h => h.tick ≠ tick }
  | .reap dbNow => some (reapOrphanedDeliveries s dbNow)
  | .enqueue id endpointId tenantId event payload dbNow =>
    enqueueDelivery s id endpointId tenantId event payload dbNow
  | .createEndpoint e => createEndpoint s e
  | .updateEndpoint tenantId id url description events enabled dbNow =>
    some (updateEndpoint s tenantId id url description events enabled dbNow)
  | .deleteEndpoint tenantId id => some (deleteEndpoint s tenantId id)

end HeirsOcr.WebhookOutbox
