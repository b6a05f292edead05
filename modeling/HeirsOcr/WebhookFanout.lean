import HeirsOcr.EndpointCap
import HeirsOcr.JobWorker
import HeirsOcr.WebhookOutcomes

/-!
# From an event to the POSTs it causes

A document event becomes one delivery for each endpoint of its tenant that is enabled and
subscribed, and the workers of the outbox send them. Below the outbox runs together with the
requests that register, change, rotate and delete endpoints, with any number of dispatches, test
events and retention purges; a step is one statement, one POST or one crash. The ids of endpoints
and deliveries and the secrets of endpoints are random, so a step that makes one makes a new one.
Every row that an endpoint ever had is remembered, to say whose URL and secret a POST used, and
with each delivery the rows that there were when the endpoints were read for it.
-/
namespace HeirsOcr.WebhookFanout
open KeyedTable StepMachine WebhookOutbox
open EndpointCap (CreateWebhook Given newEndpoint rotated leaves_rotated)
open Jobs (DocumentEventPayload WebhookEvent)

/-- What a delivery carries. -/
inductive Body where
  | document (deliveryId : String) (payload : DocumentEventPayload) (occurredAt : ℤ)
  /-- The synthetic event of `POST /api/webhooks/:id/test`. -/
  | test (deliveryId tenantId : String) (occurredAt : ℤ)

def Body.deliveryId : Body → String
  | .document deliveryId _ _ => deliveryId
  | .test deliveryId _ _ => deliveryId

def Body.tenantId : Body → String
  | .document _ payload _ => payload.tenantId
  | .test _ tenantId _ => tenantId

def Body.event : Body → WebhookEvent
  | .document _ payload _ => payload.event
  | .test _ _ _ => .processed

/-- The endpoint asked for this. -/
def Wants (e : EndpointRow) : Body → Prop
  | .document _ payload _ => e.enabled ∧ payload.event.toText ∈ e.events
  | .test _ _ _ => True

/-- `dispatchDocumentEvent`, or the test request, by its next statement. -/
inductive Dispatch where
  | entitlement (payload : DocumentEventPayload)
  | endpoints (payload : DocumentEventPayload)
  | fanOut (payload : DocumentEventPayload) (occurredAt : ℤ) (remaining : List EndpointRow)
  | test (tenantId endpointId : String)

/-- What a delivery was made for, and the endpoints as they were read for it. -/
structure Made where
  body : Body
  endpointId : String
  seen : List EndpointRow

structure World where
  outbox : Outbox
  dispatches : ℕ → Option Dispatch
  /-- The POSTs sent, oldest first. -/
  wire : List DueDelivery
  endpointIds : List String
  secrets : List String
  /-- Every row that an endpoint ever had. -/
  history : List EndpointRow
  /-- The rows there were when a dispatch, or a test request, read the endpoints. -/
  seen : ℕ → List EndpointRow
  /-- Every delivery that was ever inserted. -/
  made : List Made

inductive Action where
  /-- A statement or a POST of a worker, or a change or the deletion of an endpoint. -/
  | outbox (a : WebhookOutbox.Action)
  | register (tenantId : String) (input : CreateWebhook) (given : Given)
  | rotateSecret (tenantId id secret : String) (now : ℤ)
  | purgeDeliveriesOlderThan (cutoff : ℤ)
  | dispatch (n : ℕ) (payload : DocumentEventPayload)
  /-- `tenantHasFeature` answers, or throws. -/
  | entitled (n : ℕ) (answer : Option Bool)
  /-- `endpointsForEvent` answers, or throws. -/
  | read (n : ℕ) (now : ℤ) (answered : Bool)
  /-- One of the inserts of a dispatch is answered, or throws. -/
  | enqueue (n : ℕ) (endpointId deliveryId : String) (dbNow : ℤ) (inserted : Bool)
  | test (n : ℕ) (tenantId endpointId : String)
  | enqueueTest (n : ℕ) (deliveryId : String) (now dbNow : ℤ)
  /-- The dispatch failed, or its process died. -/
  | drop (n : ℕ)

/-- What `outbox` stands for: not the inserts, which have steps of their own. -/
def isDelivery : WebhookOutbox.Action → Bool
  | .enqueue .. => false
  | .createEndpoint _ => false
  | _ => true

/-- The request a step sends. -/
def posted (o : Outbox) : WebhookOutbox.Action → List DueDelivery
  | .post tick id => (holding o tick id false).toList
  | _ => []

def endpointsForEvent (endpoints : Table EndpointRow.id) (tenantId event : String) :
    List EndpointRow :=
  endpoints.rows.filter fun e => e.tenantId = tenantId && e.enabled && event ∈ e.events

def World.setDispatch (w : World) (n : ℕ) (d : Option Dispatch) : World :=
  { w with dispatches := Function.update w.dispatches n d }

def World.setEndpoints (w : World) (endpoints : Table EndpointRow.id) : World :=
  { w with
    outbox := { w.outbox with endpoints := endpoints }
    history := endpoints.rows ++ w.history }

/-- The endpoints are read. -/
def World.look (w : World) (n : ℕ) : World :=
  { w with seen := Function.update w.seen n w.outbox.endpoints.rows }

/-- `enqueueDelivery` of a body. -/
def World.enqueueBody (encode : Body → String) (w : World) (n : ℕ) (endpointId : String)
    (body : Body) (dbNow : ℤ) : Option World :=
  (enqueueDelivery w.outbox body.deliveryId endpointId body.tenantId body.event.toText (encode body)
    dbNow).map fun o => { w with outbox := o, made := ⟨body, endpointId, w.seen n⟩ :: w.made }

/-- `encode` is `JSON.stringify`. -/
def step (encode : Body → String) (w : World) : Action → Option World
  | .outbox a =>
    if isDelivery a then
      (WebhookOutbox.step w.outbox a).map fun o =>
        { w with
          outbox := o
          history := o.endpoints.rows ++ w.history
          wire := w.wire ++ posted w.outbox a }
    else none
  | .register tenantId input given =>
    if given.id ∈ w.endpointIds ∨ given.secret ∈ w.secrets then none
    else
      (w.outbox.endpoints.insert (newEndpoint tenantId input given)).map fun endpoints =>
        { w.setEndpoints endpoints with
          endpointIds := given.id :: w.endpointIds
          secrets := given.secret :: w.secrets }
  | .rotateSecret tenantId id secret now =>
    if secret ∈ w.secrets then none
    else
      some { w.setEndpoints (w.outbox.endpoints.update
          (fun e => e.tenantId = tenantId && e.id = id) (rotated secret now)
          (leaves_rotated secret now).id) with
        secrets := secret :: w.secrets }
  | .purgeDeliveriesOlderThan cutoff =>
    some { w with
      outbox := { w.outbox with
        deliveries := w.outbox.deliveries.delete fun d => d.createdAt < cutoff } }
  | .dispatch n payload =>
    if w.dispatches n = none then some (w.setDispatch n (some (.entitlement payload))) else none
  | .entitled n answer =>
    match w.dispatches n with
    | some (.entitlement payload) =>
      some (w.setDispatch n (if answer = some true then some (.endpoints payload) else none))
    | _ => none
  | .read n now answered =>
    match w.dispatches n with
    | some (.endpoints payload) =>
      if answered then
        some ((w.look n).setDispatch n (some (.fanOut payload now
          (endpointsForEvent w.outbox.endpoints payload.tenantId payload.event.toText))))
      else some (w.setDispatch n none)
    | _ => none
  | .enqueue n endpointId deliveryId dbNow inserted =>
    match w.dispatches n with
    | some (.fanOut payload occurredAt remaining) =>
      if endpointId ∈ remaining.map EndpointRow.id then
        let w := w.setDispatch n
          (some (.fanOut payload occurredAt (remaining.filter fun e => e.id ≠ endpointId)))
        if inserted then
          w.enqueueBody encode n endpointId (.document deliveryId payload occurredAt) dbNow
        else some w
      else none
    | _ => none
  | .test n tenantId endpointId =>
    if w.dispatches n ≠ none then none
    else if w.outbox.endpoints.rows.any fun e => e.tenantId = tenantId && e.id = endpointId then
      some ((w.look n).setDispatch n (some (.test tenantId endpointId)))
    else some w
  | .enqueueTest n deliveryId now dbNow =>
    match w.dispatches n with
    | some (.test tenantId endpointId) =>
      (w.setDispatch n none).enqueueBody encode n endpointId (.test deliveryId tenantId now) dbNow
    | _ => none
  | .drop n => some (w.setDispatch n none)

/-- Before the first endpoint. -/
def World.fresh : World where
  outbox := ⟨∅, ∅, [], 0, []⟩
  dispatches := fun _ => none
  wire := []
  endpointIds := []
  secrets := []
  history := []
  seen := fun _ => []
  made := []

/-- What each action can come to. -/
inductive Stepped (encode : Body → String) (w : World) : Action → World → Prop where
  | outbox {a : WebhookOutbox.Action} {o : Outbox} (delivery : isDelivery a)
      (stepped : WebhookOutbox.step w.outbox a = some o) : Stepped encode w (.outbox a) { w with
        outbox := o
        history := o.endpoints.rows ++ w.history
        wire := w.wire ++ posted w.outbox a }
  | register {tenantId : String} {input : CreateWebhook} {given : Given}
      {endpoints : Table EndpointRow.id} (newId : given.id ∉ w.endpointIds)
      (newSecret : given.secret ∉ w.secrets)
      (inserted : w.outbox.endpoints.insert (newEndpoint tenantId input given) = some endpoints) :
      Stepped encode w (.register tenantId input given) { w.setEndpoints endpoints with
        endpointIds := given.id :: w.endpointIds
        secrets := given.secret :: w.secrets }
  | rotateSecret (tenantId id : String) {secret : String} (now : ℤ) (new : secret ∉ w.secrets) :
      Stepped encode w (.rotateSecret tenantId id secret now) { w.setEndpoints
          (w.outbox.endpoints.update (fun e => e.tenantId = tenantId && e.id = id)
            (rotated secret now) (leaves_rotated secret now).id) with
        secrets := secret :: w.secrets }
  | purgeDeliveriesOlderThan (cutoff : ℤ) : Stepped encode w (.purgeDeliveriesOlderThan cutoff)
      { w with
        outbox := { w.outbox with
          deliveries := w.outbox.deliveries.delete fun d => d.createdAt < cutoff } }
  | dispatch {n : ℕ} (payload : DocumentEventPayload) (free : w.dispatches n = none) :
      Stepped encode w (.dispatch n payload) (w.setDispatch n (some (.entitlement payload)))
  | entitled {n : ℕ} {payload : DocumentEventPayload}
      (asked : w.dispatches n = some (.entitlement payload)) :
      Stepped encode w (.entitled n (some true)) (w.setDispatch n (some (.endpoints payload)))
  | unentitled (n : ℕ) {answer : Option Bool} (no : answer ≠ some true) :
      Stepped encode w (.entitled n answer) (w.setDispatch n none)
  | read {n : ℕ} {payload : DocumentEventPayload} (now : ℤ)
      (asked : w.dispatches n = some (.endpoints payload)) :
      Stepped encode w (.read n now true) ((w.look n).setDispatch n (some (.fanOut payload now
        (endpointsForEvent w.outbox.endpoints payload.tenantId payload.event.toText))))
  | unread (n : ℕ) (now : ℤ) : Stepped encode w (.read n now false) (w.setDispatch n none)
  | enqueue {n : ℕ} {payload : DocumentEventPayload} {occurredAt dbNow : ℤ}
      {remaining : List EndpointRow} {endpointId deliveryId : String} {w' : World}
      (planned : w.dispatches n = some (.fanOut payload occurredAt remaining))
      (left : endpointId ∈ remaining.map EndpointRow.id)
      (inserted : (w.setDispatch n (some (.fanOut payload occurredAt
        (remaining.filter fun e => e.id ≠ endpointId)))).enqueueBody encode n endpointId
          (.document deliveryId payload occurredAt) dbNow = some w') :
      Stepped encode w (.enqueue n endpointId deliveryId dbNow true) w'
  | unqueued {n : ℕ} {payload : DocumentEventPayload} {occurredAt : ℤ}
      {remaining : List EndpointRow} (endpointId deliveryId : String) (dbNow : ℤ)
      (planned : w.dispatches n = some (.fanOut payload occurredAt remaining)) :
      Stepped encode w (.enqueue n endpointId deliveryId dbNow false)
        (w.setDispatch n (some (.fanOut payload occurredAt
          (remaining.filter fun e => e.id ≠ endpointId))))
  | test (n : ℕ) {e : EndpointRow} (own : e ∈ w.outbox.endpoints) :
      Stepped encode w (.test n e.tenantId e.id)
        ((w.look n).setDispatch n (some (.test e.tenantId e.id)))
  | notFound (n : ℕ) (tenantId endpointId : String) :
      Stepped encode w (.test n tenantId endpointId) w
  | enqueueTest {n : ℕ} {tenantId endpointId deliveryId : String} {now dbNow : ℤ} {w' : World}
      (planned : w.dispatches n = some (.test tenantId endpointId))
      (inserted : (w.setDispatch n none).enqueueBody encode n endpointId
        (.test deliveryId tenantId now) dbNow = some w') :
      Stepped encode w (.enqueueTest n deliveryId now dbNow) w'
  | drop (n : ℕ) : Stepped encode w (.drop n) (w.setDispatch n none)

theorem step_cases {encode : Body → String} {w w' : World} {a : Action}
    (hstep : step encode w a = some w') : Stepped encode w a w' := by
  cases a with
  | outbox a =>
    simp only [step] at hstep
    split_ifs at hstep with ha
    obtain ⟨o, ho, rfl⟩ := Option.map_eq_some_iff.mp hstep
    exact .outbox ha ho
  | register tenantId input given =>
    simp only [step] at hstep
    split_ifs at hstep with hused
    push Not at hused
    obtain ⟨endpoints, hinsert, rfl⟩ := Option.map_eq_some_iff.mp hstep
    exact .register hused.1 hused.2 hinsert
  | rotateSecret tenantId id secret now =>
    simp only [step] at hstep
    split_ifs at hstep with hused
    obtain rfl := Option.some.inj hstep
    exact .rotateSecret tenantId id now hused
  | purgeDeliveriesOlderThan cutoff =>
    obtain rfl := Option.some.inj hstep
    exact .purgeDeliveriesOlderThan cutoff
  | dispatch n payload =>
    simp only [step] at hstep
    split_ifs at hstep with hfree
    obtain rfl := Option.some.inj hstep
    exact .dispatch payload hfree
  | entitled n answer =>
    simp only [step] at hstep
    split at hstep
    · rename_i payload hasked
      obtain rfl := Option.some.inj hstep
      by_cases hanswer : answer = some true
      · rw [if_pos hanswer, hanswer]
        exact .entitled hasked
      · rw [if_neg hanswer]
        exact .unentitled n hanswer
    · cases hstep
  | read n now answered =>
    simp only [step] at hstep
    split at hstep
    · rename_i payload hasked
      cases answered with
      | true =>
        obtain rfl := Option.some.inj hstep
        exact .read now hasked
      | false =>
        obtain rfl := Option.some.inj hstep
        exact .unread n now
    · cases hstep
  | enqueue n endpointId deliveryId dbNow inserted =>
    simp only [step] at hstep
    split at hstep
    · rename_i payload occurredAt remaining hplanned
      split at hstep
      · rename_i hleft
        cases inserted with
        | true => exact .enqueue hplanned hleft hstep
        | false =>
          obtain rfl := Option.some.inj hstep
          exact .unqueued endpointId deliveryId dbNow hplanned
      · cases hstep
    · cases hstep
  | test n tenantId endpointId =>
    simp only [step] at hstep
    split_ifs at hstep with hbusy hany
    · obtain rfl := Option.some.inj hstep
      obtain ⟨e, he, hmatch⟩ := List.any_eq_true.mp hany
      simp only [Bool.and_eq_true, decide_eq_true_eq] at hmatch
      obtain ⟨rfl, rfl⟩ := hmatch
      exact .test n he
    · obtain rfl := Option.some.inj hstep
      exact .notFound n tenantId endpointId
  | enqueueTest n deliveryId now dbNow =>
    simp only [step] at hstep
    split at hstep
    · rename_i tenantId endpointId hplanned
      exact .enqueueTest hplanned hstep
    · cases hstep
  | drop n =>
    obtain rfl := Option.some.inj hstep
    exact .drop n

section Invariant

variable (encode : Body → String)

/-- A delivery of a body to an endpoint of its tenant that wanted it, as its row was read for it. -/
def Meant (made : List Made) (id endpointId tenantId event payload : String) : Prop :=
  ∃ m ∈ made, payload = encode m.body ∧ m.body.deliveryId = id ∧ m.body.tenantId = tenantId ∧
    m.body.event.toText = event ∧ m.endpointId = endpointId ∧
      ∃ e ∈ m.seen, e.id = endpointId ∧ e.tenantId = tenantId ∧ Wants e m.body

/-- A request with the URL and the secret that the endpoint had together, while enabled. -/
def Addressed (made : List Made) (history : List EndpointRow) (d : DueDelivery) : Prop :=
  Meant encode made d.id d.endpointId d.tenantId d.event d.payload ∧
    ∃ e ∈ history, e.id = d.endpointId ∧ e.tenantId = d.tenantId ∧ e.url = d.url ∧
      e.secret = d.secret ∧ e.enabled

/-- What is still to be inserted is for endpoints that want it, among the rows that were read. -/
def Planned (seen : List EndpointRow) : Dispatch → Prop
  | .fanOut payload _ remaining => ∀ e ∈ remaining, e ∈ seen ∧ e.tenantId = payload.tenantId ∧
      e.enabled ∧ payload.event.toText ∈ e.events
  | .test tenantId endpointId => ∃ e ∈ seen, e.id = endpointId ∧ e.tenantId = tenantId
  | _ => True

/-- The endpoints, and whose they are. -/
structure Registered (w : World) : Prop where
  current : ∀ e ∈ w.outbox.endpoints, e ∈ w.history
  known : ∀ e ∈ w.history, e.id ∈ w.endpointIds ∧ e.secret ∈ w.secrets
  owner : ∀ e ∈ w.history, ∀ e' ∈ w.history, e.id = e'.id → e.tenantId = e'.tenantId

/-- The deliveries, from what is planned to what is sent. -/
structure Directed (w : World) : Prop where
  seen : ∀ n, ∀ e ∈ w.seen n, e ∈ w.history
  made : ∀ m ∈ w.made, ∀ e ∈ m.seen, e ∈ w.history
  planned : ∀ n d, w.dispatches n = some d → Planned (w.seen n) d
  rows : ∀ d ∈ w.outbox.deliveries,
    Meant encode w.made d.id d.endpointId d.tenantId d.event d.payload
  held : ∀ x ∈ w.outbox.held, Addressed encode w.made w.history x.delivery
  wire : ∀ p ∈ w.wire, Addressed encode w.made w.history p

structure Sound (w : World) : Prop extends Registered w, Directed encode w

end Invariant

variable {encode : Body → String} {w w' : World}

theorem sound_fresh : Sound encode .fresh where
  current e he := by cases he
  known e he := by cases he
  owner e he := by cases he
  seen n e he := by cases he
  made m hm := by cases hm
  planned n d hd := by cases hd
  rows d hd := by cases hd
  held x hx := by cases hx
  wire p hp := by cases hp

theorem Meant.mono {made made' : List Made} {id endpointId tenantId event payload : String}
    (h : Meant encode made id endpointId tenantId event payload)
    (hsub : ∀ m ∈ made, m ∈ made') :
    Meant encode made' id endpointId tenantId event payload := by
  obtain ⟨m, hm, h⟩ := h
  exact ⟨m, hsub m hm, h⟩

theorem Addressed.mono {made made' : List Made} {history history' : List EndpointRow}
    {d : DueDelivery} (h : Addressed encode made history d) (hmade : ∀ m ∈ made, m ∈ made')
    (hsub : ∀ e ∈ history, e ∈ history') : Addressed encode made' history' d := by
  obtain ⟨hmeant, e, he, h⟩ := h
  exact ⟨hmeant.mono hmade, e, hsub e he, h⟩

/-- The row still is for the same delivery. -/
structure SameContent (d e : DeliveryRow) : Prop where
  id : e.id = d.id
  endpointId : e.endpointId = d.endpointId
  tenantId : e.tenantId = d.tenantId
  event : e.event = d.event
  payload : e.payload = d.payload

theorem SameContent.refl (d : DeliveryRow) : SameContent d d := ⟨rfl, rfl, rfl, rfl, rfl⟩

/-- A step that only forgets or rewrites deliveries, while the history may grow. -/
theorem Directed.keep (h : Directed encode w) (hhistory : ∀ e ∈ w.history, e ∈ w'.history)
    (hseen : w'.seen = w.seen) (hmade : w'.made = w.made)
    (hdispatches : w'.dispatches = w.dispatches)
    (hrows : ∀ d ∈ w'.outbox.deliveries, ∃ d₀ ∈ w.outbox.deliveries, SameContent d₀ d)
    (hheld : ∀ x ∈ w'.outbox.held, (∃ y ∈ w.outbox.held, y.delivery = x.delivery) ∨
      Addressed encode w'.made w'.history x.delivery)
    (hwire : ∀ p ∈ w'.wire, p ∈ w.wire ∨ ∃ y ∈ w.outbox.held, y.delivery = p) :
    Directed encode w' where
  seen n e he := hhistory e (h.seen n e (hseen ▸ he))
  made m hm e he := hhistory e (h.made m (hmade ▸ hm) e he)
  planned n d hd := by
    rw [hseen]
    exact h.planned n d (hdispatches ▸ hd)
  rows d hd := by
    obtain ⟨d₀, hd₀, hsame⟩ := hrows d hd
    rw [hsame.id, hsame.endpointId, hsame.tenantId, hsame.event, hsame.payload, hmade]
    exact h.rows d₀ hd₀
  held x hx := by
    rcases hheld x hx with ⟨y, hy, hdelivery⟩ | haddressed
    · exact hdelivery ▸ (h.held y hy).mono (fun m hm => hmade ▸ hm) hhistory
    · exact haddressed
  wire p hp := by
    rcases hwire p hp with hold | ⟨y, hy, rfl⟩
    · exact (h.wire p hold).mono (fun m hm => hmade ▸ hm) hhistory
    · exact (h.held y hy).mono (fun m hm => hmade ▸ hm) hhistory

section Outbox

variable {o o' : Outbox} {a : WebhookOutbox.Action}

theorem sameContent_update {p : DeliveryRow → Bool} {f : DeliveryRow → DeliveryRow}
    (hrows : o'.deliveries.rows = o.deliveries.rows.map fun d => if p d then f d else d)
    (hsame : ∀ d, SameContent d (f d)) :
    ∀ e ∈ o'.deliveries, ∃ d ∈ o.deliveries, SameContent d e := by
  intro e he
  rw [Table.mem_def, hrows] at he
  obtain ⟨d, hd, rfl⟩ := List.mem_map.mp he
  refine ⟨d, hd, ?_⟩
  split_ifs
  · exact hsame d
  · exact .refl d

theorem sameContent_failOrRetry {d : DueDelivery} {error : String} {status : Option ℕ}
    {now dbNow : ℤ}
    (h : o'.deliveries.rows = (failOrRetry o d error status now dbNow).deliveries.rows) :
    ∀ e ∈ o'.deliveries, ∃ d ∈ o.deliveries, SameContent d e := by
  unfold failOrRetry at h
  split_ifs at h
  · exact sameContent_update h fun _ => ⟨rfl, rfl, rfl, rfl, rfl⟩
  · exact sameContent_update h fun _ => ⟨rfl, rfl, rfl, rfl, rfl⟩

/-- A step that inserts nothing keeps what the deliveries are for. -/
theorem sameContent_of_step (ha : isDelivery a) (h : WebhookOutbox.step o a = some o') :
    ∀ e ∈ o'.deliveries, ∃ d ∈ o.deliveries, SameContent d e := by
  have hkeep : ∀ e ∈ o.deliveries, ∃ d ∈ o.deliveries, SameContent d e :=
    fun e he => ⟨e, he, .refl e⟩
  cases a with
  | claim limit now dbNow picked =>
    simp only [WebhookOutbox.step, claimDueDeliveries] at h
    split_ifs at h
    · obtain rfl := Option.some.inj h
      exact sameContent_update rfl fun _ => ⟨rfl, rfl, rfl, rfl, rfl⟩
    · cases h
  | refuse tick id reason dbNow =>
    obtain ⟨d, -, rfl⟩ := Option.map_eq_some_iff.mp h
    exact sameContent_update rfl fun _ => ⟨rfl, rfl, rfl, rfl, rfl⟩
  | post tick id =>
    obtain ⟨d, -, rfl⟩ := Option.map_eq_some_iff.mp h
    exact hkeep
  | answer tick id status now dbNow =>
    obtain ⟨d, -, rfl⟩ := Option.map_eq_some_iff.mp h
    split_ifs
    · exact sameContent_update rfl fun _ => ⟨rfl, rfl, rfl, rfl, rfl⟩
    · exact sameContent_failOrRetry rfl
  | fail tick id message now dbNow =>
    obtain ⟨d, -, rfl⟩ := Option.map_eq_some_iff.mp h
    exact sameContent_failOrRetry rfl
  | reap dbNow =>
    obtain rfl := Option.some.inj h
    exact sameContent_update rfl fun _ => ⟨rfl, rfl, rfl, rfl, rfl⟩
  | enqueue | createEndpoint => cases ha
  | lose | crash | updateEndpoint | deleteEndpoint =>
    obtain rfl := Option.some.inj h
    exact hkeep

/-- An endpoint of after was there before, under the same tenant and with the same secret. -/
theorem endpoints_of_step (ha : isDelivery a) (h : WebhookOutbox.step o a = some o') :
    ∀ e ∈ o'.endpoints, ∃ e₀ ∈ o.endpoints, e.id = e₀.id ∧ e.tenantId = e₀.tenantId ∧
      e.secret = e₀.secret := by
  have hkeep : ∀ e ∈ o.endpoints, ∃ e₀ ∈ o.endpoints, e.id = e₀.id ∧ e.tenantId = e₀.tenantId ∧
      e.secret = e₀.secret := fun e he => ⟨e, he, rfl, rfl, rfl⟩
  cases a with
  | claim limit now dbNow picked =>
    simp only [WebhookOutbox.step, claimDueDeliveries] at h
    split_ifs at h
    · obtain rfl := Option.some.inj h
      exact hkeep
    · cases h
  | refuse | post =>
    obtain ⟨d, -, rfl⟩ := Option.map_eq_some_iff.mp h
    exact hkeep
  | answer | fail =>
    obtain ⟨d, -, rfl⟩ := Option.map_eq_some_iff.mp h
    unfold failOrRetry
    split_ifs <;> exact hkeep
  | enqueue | createEndpoint => cases ha
  | lose | crash | reap =>
    obtain rfl := Option.some.inj h
    exact hkeep
  | updateEndpoint tenantId id url description events enabled dbNow =>
    obtain rfl := Option.some.inj h
    intro e he
    obtain ⟨e₀, he₀, rfl⟩ := List.mem_map.mp he
    refine ⟨e₀, he₀, ?_⟩
    split_ifs <;> exact ⟨rfl, rfl, rfl⟩
  | deleteEndpoint tenantId id =>
    obtain rfl := Option.some.inj h
    exact fun e he => hkeep e (Table.mem_delete.mp he).1

/-- A row joined with its endpoint. -/
structure Joined (d : DeliveryRow) (e : EndpointRow) (due : DueDelivery) : Prop where
  endpoint : e.id = d.endpointId
  enabled : e.enabled
  id : due.id = d.id
  endpointId : due.endpointId = d.endpointId
  tenantId : due.tenantId = d.tenantId
  event : due.event = d.event
  payload : due.payload = d.payload
  url : due.url = e.url
  secret : due.secret = e.secret

/-- What a tick holds it held before, or the claim joined it with its endpoint just now. -/
theorem held_or_claimed (h : WebhookOutbox.step o a = some o') :
    ∀ x ∈ o'.held, (∃ y ∈ o.held, y.delivery = x.delivery) ∨
      ∃ d ∈ o.deliveries, ∃ e ∈ o.endpoints, Joined d e x.delivery := by
  intro x hx
  by_cases hc : ∃ limit now dbNow picked, a = .claim limit now dbNow picked
  · obtain ⟨limit, now, dbNow, picked, rfl⟩ := hc
    obtain ⟨hbatch, hheld, -⟩ := step_claim h
    rcases List.mem_append.mp (hheld ▸ hx) with hx | hx
    · exact .inl ⟨x, hx, rfl⟩
    · obtain ⟨due, hdue, rfl⟩ := List.mem_map.mp hx
      obtain ⟨d, hd, hto⟩ := List.mem_filterMap.mp hdue
      obtain ⟨hmem, hisDue⟩ := List.mem_filter.mp (hbatch.2.1 d hd)
      simp only [isDue, Bool.and_eq_true] at hisDue
      obtain ⟨e, hfind, henabled⟩ := (Option.any_eq_true _ _).mp hisDue.2
      obtain ⟨he, hid⟩ := Table.find?_eq_some.mp hfind
      obtain ⟨e', hfind', rfl⟩ := Option.map_eq_some_iff.mp hto
      obtain rfl : e = e' := Option.some.inj (hfind.symm.trans hfind')
      exact .inr ⟨d, hmem, e, he, hid, henabled, rfl, rfl, rfl, rfl, rfl, rfl, rfl⟩
  · push Not at hc
    obtain ⟨y, hy, -, hdelivery⟩ := (held_of_step h hc).2 x hx
    exact .inl ⟨y, hy, hdelivery⟩

theorem held_of_posted {p : DueDelivery} (hp : p ∈ posted o a) : ∃ y ∈ o.held, y.delivery = p := by
  unfold posted at hp
  split at hp
  · obtain ⟨y, hy, -, hdelivery, -⟩ := exists_held_of_holding (Option.mem_toList.mp hp)
    exact ⟨y, hy, hdelivery⟩
  · cases hp

end Outbox

/-- Endpoints that were there before or are new have one tenant each. -/
theorem Registered.extend (h : Registered w)
    (hhistory : w'.history = w'.outbox.endpoints.rows ++ w.history)
    (hids : ∀ id ∈ w.endpointIds, id ∈ w'.endpointIds)
    (hsecrets : ∀ secret ∈ w.secrets, secret ∈ w'.secrets)
    (hcurrent : ∀ e ∈ w'.outbox.endpoints, e.id ∈ w'.endpointIds ∧ e.secret ∈ w'.secrets ∧
      ∀ e' ∈ w.history, e.id = e'.id → e.tenantId = e'.tenantId) : Registered w' where
  current e he := by
    rw [hhistory]
    exact List.mem_append_left _ he
  known e he := by
    rcases List.mem_append.mp (hhistory ▸ he) with hnew | hold
    · exact ⟨(hcurrent e hnew).1, (hcurrent e hnew).2.1⟩
    · exact ⟨hids _ (h.known e hold).1, hsecrets _ (h.known e hold).2⟩
  owner e he e' he' hid := by
    rcases List.mem_append.mp (hhistory ▸ he) with hnew | hold
    · rcases List.mem_append.mp (hhistory ▸ he') with hnew' | hold'
      · rw [Table.eq_of_key_eq hnew hnew' hid]
      · exact (hcurrent e hnew).2.2 e' hold' hid
    · rcases List.mem_append.mp (hhistory ▸ he') with hnew' | hold'
      · exact ((hcurrent e' hnew').2.2 e hold hid.symm).symm
      · exact h.owner e hold e' hold' hid

theorem Sound.outbox (h : Sound encode w) {a : WebhookOutbox.Action} {o : Outbox}
    (ha : isDelivery a) (hstep : WebhookOutbox.step w.outbox a = some o) :
    Sound encode { w with
      outbox := o
      history := o.endpoints.rows ++ w.history
      wire := w.wire ++ posted w.outbox a } where
  toRegistered := by
    refine h.toRegistered.extend rfl (fun id hid => hid) (fun secret hsecret => hsecret) ?_
    intro e he
    obtain ⟨e₀, he₀, hid, htenant, hsecret⟩ := endpoints_of_step ha hstep e he
    have hcurrent := h.current e₀ he₀
    obtain ⟨hknown, hsecrets⟩ := h.known e₀ hcurrent
    refine ⟨hid ▸ hknown, hsecret ▸ hsecrets, fun e' he' hid' => ?_⟩
    exact htenant.trans (h.owner e₀ hcurrent e' he' (hid.symm.trans hid'))
  toDirected := by
    have hold : ∀ e ∈ w.history, e ∈ o.endpoints.rows ++ w.history :=
      fun e he => List.mem_append_right _ he
    refine h.toDirected.keep hold rfl rfl rfl (sameContent_of_step ha hstep) ?_ ?_
    · intro x hx
      rcases held_or_claimed hstep x hx with hheld | ⟨d, hd, e, he, hjoined⟩
      · exact .inl hheld
      right
      have hmeant := h.rows d hd
      have htenant : e.tenantId = d.tenantId := by
        obtain ⟨m, hm, -, -, -, -, -, e', he', hid, htenant, -⟩ := hmeant
        rw [← htenant]
        exact h.owner e (h.current e he) e' (h.made m hm e' he')
          (hjoined.endpoint.trans hid.symm)
      constructor
      · rw [hjoined.id, hjoined.endpointId, hjoined.tenantId, hjoined.event, hjoined.payload]
        exact hmeant
      · refine ⟨e, hold e (h.current e he), ?_, ?_, hjoined.url.symm, hjoined.secret.symm,
          hjoined.enabled⟩
        · exact hjoined.endpoint.trans hjoined.endpointId.symm
        · exact htenant.trans hjoined.tenantId.symm
    · intro p hp
      exact (List.mem_append.mp hp).imp_right held_of_posted

/-- Another table of endpoints, with what is new in it made up. -/
theorem Sound.setEndpoints (h : Sound encode w) {endpoints : Table EndpointRow.id}
    {ids secrets : List String} (hids : ∀ id ∈ w.endpointIds, id ∈ ids)
    (hsecrets : ∀ secret ∈ w.secrets, secret ∈ secrets)
    (hrows : ∀ e ∈ endpoints, e.id ∈ ids ∧ e.secret ∈ secrets ∧
      ∀ e' ∈ w.history, e.id = e'.id → e.tenantId = e'.tenantId) :
    Sound encode { w.setEndpoints endpoints with endpointIds := ids, secrets := secrets } where
  toRegistered := h.toRegistered.extend rfl hids hsecrets hrows
  toDirected := h.toDirected.keep (fun _ he => List.mem_append_right _ he) rfl rfl rfl
    (fun d hd => ⟨d, hd, .refl d⟩) (fun x hx => .inl ⟨x, hx, rfl⟩) fun _ hp => .inl hp

theorem Sound.purge (h : Sound encode w) (p : DeliveryRow → Bool) : Sound encode { w with
    outbox := { w.outbox with deliveries := w.outbox.deliveries.delete p } } where
  toRegistered := ⟨h.current, h.known, h.owner⟩
  toDirected := h.toDirected.keep (fun _ he => he) rfl rfl rfl
    (fun d hd => ⟨d, (Table.mem_delete.mp hd).1, .refl d⟩) (fun x hx => .inl ⟨x, hx, rfl⟩)
      fun _ hp => .inl hp

theorem Sound.setDispatch (h : Sound encode w) (n : ℕ) {d : Option Dispatch}
    (hd : ∀ x, d = some x → Planned (w.seen n) x) : Sound encode (w.setDispatch n d) :=
  { h with
    planned := by
      intro n' d' hd'
      by_cases hn : n' = n
      · subst hn
        exact hd d' (by simpa [World.setDispatch] using hd')
      · exact h.planned n' d' (by simpa [World.setDispatch, Function.update_of_ne hn] using hd') }

/-- The rows that are read are the endpoints of this moment. -/
theorem Sound.look (h : Sound encode w) (n : ℕ) {d : Dispatch}
    (hd : Planned w.outbox.endpoints.rows d) :
    Sound encode ((w.look n).setDispatch n (some d)) :=
  { h with
    seen := by
      intro n' e he
      by_cases hn : n' = n
      · subst hn
        have he : e ∈ w.outbox.endpoints.rows := by
          simpa [World.look, World.setDispatch] using he
        exact h.current e he
      · exact h.seen n' e
          (by simpa [World.look, World.setDispatch, Function.update_of_ne hn] using he)
    planned := by
      intro n' d' hd'
      by_cases hn : n' = n
      · subst hn
        obtain rfl : d = d' := by simpa [World.setDispatch] using hd'
        simpa [World.look, World.setDispatch] using hd
      · have hold := h.planned n' d'
          (by simpa [World.look, World.setDispatch, Function.update_of_ne hn] using hd')
        simpa [World.look, World.setDispatch, Function.update_of_ne hn] using hold }

theorem Sound.enqueueBody (h : Sound encode w) {n : ℕ} (body : Body) {endpointId : String}
    {dbNow : ℤ}
    (he : ∃ e ∈ w.seen n, e.id = endpointId ∧ e.tenantId = body.tenantId ∧ Wants e body)
    (hw' : w.enqueueBody encode n endpointId body dbNow = some w') : Sound encode w' := by
  obtain ⟨o, ho, rfl⟩ := Option.map_eq_some_iff.mp hw'
  obtain ⟨deliveries, hinsert, rfl⟩ := Option.map_eq_some_iff.mp ho
  have hmade : ∀ m ∈ w.made, m ∈ (⟨body, endpointId, w.seen n⟩ : Made) :: w.made :=
    fun m hm => List.mem_cons_of_mem _ hm
  refine ⟨⟨h.current, h.known, h.owner⟩, h.seen, ?_, h.planned, ?_, ?_, ?_⟩
  · intro m hm
    rcases List.mem_cons.mp hm with rfl | hm
    · exact h.seen n
    · exact h.made m hm
  · intro d hd
    rcases (Table.mem_insert hinsert).mp hd with hd | rfl
    · exact (h.rows d hd).mono hmade
    · exact ⟨_, List.mem_cons_self, rfl, rfl, rfl, rfl, rfl, he⟩
  · exact fun x hx => (h.held x hx).mono hmade fun e he => he
  · exact fun p hp => (h.wire p hp).mono hmade fun e he => he

theorem planned_endpointsForEvent (endpoints : Table EndpointRow.id)
    (payload : DocumentEventPayload) (occurredAt : ℤ) :
    Planned endpoints.rows (.fanOut payload occurredAt
      (endpointsForEvent endpoints payload.tenantId payload.event.toText)) := by
  intro e he
  obtain ⟨hmem, hmatch⟩ := List.mem_filter.mp he
  simp only [Bool.and_eq_true, decide_eq_true_eq] at hmatch
  exact ⟨hmem, hmatch.1.1, hmatch.1.2, hmatch.2⟩

/-- A registration makes an endpoint with an id of its own. -/
theorem Sound.register (h : Sound encode w) {tenantId : String} {input : CreateWebhook}
    {given : Given} {endpoints : Table EndpointRow.id} (hid : given.id ∉ w.endpointIds)
    (hinsert : w.outbox.endpoints.insert (newEndpoint tenantId input given) = some endpoints) :
    Sound encode { w.setEndpoints endpoints with
      endpointIds := given.id :: w.endpointIds
      secrets := given.secret :: w.secrets } := by
  apply h.setEndpoints
  · exact fun id hid => List.mem_cons_of_mem _ hid
  · exact fun secret hsecret => List.mem_cons_of_mem _ hsecret
  · intro e he
    rcases (Table.mem_insert hinsert).mp he with he | rfl
    · have hcurrent := h.current e he
      exact ⟨List.mem_cons_of_mem _ (h.known e hcurrent).1,
        List.mem_cons_of_mem _ (h.known e hcurrent).2, h.owner e hcurrent⟩
    · refine ⟨List.mem_cons_self, List.mem_cons_self, fun e' he' hsame => ?_⟩
      have hsame : given.id = e'.id := hsame
      exact absurd (hsame ▸ (h.known e' he').1) hid

theorem Sound.rotateSecret (h : Sound encode w) (tenantId id secret : String) (now : ℤ) :
    Sound encode { w.setEndpoints
        (w.outbox.endpoints.update (fun e => e.tenantId = tenantId && e.id = id)
          (rotated secret now) (leaves_rotated secret now).id) with
      secrets := secret :: w.secrets } := by
  apply h.setEndpoints
  · exact fun id hid => hid
  · exact fun secret hsecret => List.mem_cons_of_mem _ hsecret
  · intro e he
    obtain ⟨e₀, he₀, rfl⟩ := Table.mem_update.mp he
    have hcurrent := h.current e₀ he₀
    split_ifs
    · exact ⟨(h.known e₀ hcurrent).1, List.mem_cons_self, h.owner e₀ hcurrent⟩
    · exact ⟨(h.known e₀ hcurrent).1, List.mem_cons_of_mem _ (h.known e₀ hcurrent).2,
        h.owner e₀ hcurrent⟩

/-- What remains of a fan-out is planned as all of it was. -/
theorem Sound.dequeue (h : Sound encode w) {n : ℕ} {payload : DocumentEventPayload}
    {occurredAt : ℤ} {remaining : List EndpointRow}
    (hplanned : w.dispatches n = some (.fanOut payload occurredAt remaining))
    (endpointId : String) : Sound encode (w.setDispatch n (some (.fanOut payload occurredAt
      (remaining.filter fun e => e.id ≠ endpointId)))) := by
  apply h.setDispatch
  rintro d hd
  obtain rfl := Option.some.inj hd
  exact fun e he => h.planned n _ hplanned e (List.mem_filter.mp he).1

theorem Sound.step (h : Sound encode w) {a : Action} (hstep : step encode w a = some w') :
    Sound encode w' := by
  cases step_cases hstep with
  | outbox hdelivery hstepped => exact h.outbox hdelivery hstepped
  | register hid _ hinsert => exact h.register hid hinsert
  | rotateSecret tenantId id now _ => exact h.rotateSecret tenantId id _ now
  | purgeDeliveriesOlderThan cutoff => exact h.purge _
  | dispatch payload _ => exact h.setDispatch _ (by simp [Planned])
  | entitled _ => exact h.setDispatch _ (by simp [Planned])
  | unentitled n _ => exact h.setDispatch n (by simp)
  | read now _ => exact h.look _ (planned_endpointsForEvent _ _ now)
  | unread n now => exact h.setDispatch n (by simp)
  | enqueue hplanned hleft hinserted =>
    obtain ⟨e, he, hid⟩ := List.mem_map.mp hleft
    obtain ⟨hseen, htenant, henabled, hevent⟩ := h.planned _ _ hplanned e he
    exact (h.dequeue hplanned _).enqueueBody (.document _ _ _)
      ⟨e, hseen, hid, htenant, henabled, hevent⟩ hinserted
  | unqueued endpointId _ _ hplanned => exact h.dequeue hplanned endpointId
  | test n hown => exact h.look n ⟨_, hown, rfl, rfl⟩
  | notFound n tenantId endpointId => exact h
  | enqueueTest hplanned hinserted =>
    obtain ⟨e, he, hid, htenant⟩ := h.planned _ _ hplanned
    exact Sound.enqueueBody (h.setDispatch _ (by simp)) (.test _ _ _)
      ⟨e, he, hid, htenant, trivial⟩ hinserted
  | drop n => exact h.setDispatch n (by simp)

/-- Whatever runs beside it, every POST ever sent carries a body of its own tenant and its own id,
to an endpoint of that tenant whose row was enabled and subscribed when the endpoints were read to
fan the event out, at a URL and with a secret that the endpoint had together while it was
enabled. -/
theorem posts_addressed (encode : Body → String) (as : List Action) :
    Throughout (step encode) (fun w => ∀ p ∈ w.wire, Addressed encode w.made w.history p)
      .fresh as :=
  (throughout_of_step (fun _ _ _ h => h.step) sound_fresh as).mono fun _ h => h.wire

/-- What holds once a secret of an endpoint is out of use: only what was claimed before uses it. -/
structure Retired (id secret : String) (claimed : List Held) (sent : List DueDelivery) (w : World) :
    Prop where
  used : secret ∈ w.secrets
  gone : ∀ e ∈ w.outbox.endpoints, e.id = id → e.secret ≠ secret
  held : ∀ x ∈ w.outbox.held, x.delivery.endpointId = id → x.delivery.secret = secret →
    ∃ y ∈ claimed, y.delivery = x.delivery
  wire : ∀ p ∈ w.wire, p.endpointId = id → p.secret = secret →
    p ∈ sent ∨ ∃ y ∈ claimed, y.delivery = p

section Retired

variable {id secret : String} {claimed : List Held} {sent : List DueDelivery}

/-- A step that leaves what is held and sent alone. -/
theorem Retired.mono (h : Retired id secret claimed sent w)
    (hsecrets : ∀ x ∈ w.secrets, x ∈ w'.secrets)
    (hendpoints : ∀ e ∈ w'.outbox.endpoints, e ∈ w.outbox.endpoints ∨ e.secret ∉ w.secrets)
    (hheld : w'.outbox.held = w.outbox.held) (hwire : w'.wire = w.wire) :
    Retired id secret claimed sent w' where
  used := hsecrets secret h.used
  gone e he hid := by
    rcases hendpoints e he with hold | hnew
    · exact h.gone e hold hid
    · rintro rfl
      exact hnew h.used
  held x hx := h.held x (hheld ▸ hx)
  wire p hp := h.wire p (hwire ▸ hp)

theorem Retired.outbox (h : Retired id secret claimed sent w) {a : WebhookOutbox.Action}
    {o : Outbox} (ha : isDelivery a) (ho : WebhookOutbox.step w.outbox a = some o) :
    Retired id secret claimed sent { w with
      outbox := o
      history := o.endpoints.rows ++ w.history
      wire := w.wire ++ posted w.outbox a } where
  used := h.used
  gone e he hid := by
    obtain ⟨e₀, he₀, hid₀, -, hsecret⟩ := endpoints_of_step ha ho e he
    rw [hsecret]
    exact h.gone e₀ he₀ (hid₀.symm.trans hid)
  held x hx hid hsecret := by
    rcases held_or_claimed ho x hx with ⟨y, hy, hdelivery⟩ | ⟨d, -, e, he, hjoined⟩
    · rw [← hdelivery] at hid hsecret ⊢
      exact h.held y hy hid hsecret
    · refine absurd (hjoined.secret.symm.trans hsecret) (h.gone e he ?_)
      exact hjoined.endpoint.trans (hjoined.endpointId.symm.trans hid)
  wire p hp hid hsecret := by
    rcases List.mem_append.mp hp with hp | hp
    · exact h.wire p hp hid hsecret
    · obtain ⟨y, hy, rfl⟩ := held_of_posted hp
      exact .inr (h.held y hy hid hsecret)

/-- A step of a dispatch leaves endpoints, ticks and POSTs alone. -/
theorem Retired.same (h : Retired id secret claimed sent w) (hsecrets : w'.secrets = w.secrets)
    (hendpoints : w'.outbox.endpoints = w.outbox.endpoints)
    (hheld : w'.outbox.held = w.outbox.held) (hwire : w'.wire = w.wire) :
    Retired id secret claimed sent w' :=
  h.mono (fun _ hx => hsecrets ▸ hx) (fun _ he => .inl (hendpoints ▸ he)) hheld hwire

theorem Retired.enqueueBody (h : Retired id secret claimed sent w) {n : ℕ} {endpointId : String}
    {body : Body} {dbNow : ℤ} (hw' : w.enqueueBody encode n endpointId body dbNow = some w') :
    Retired id secret claimed sent w' := by
  obtain ⟨o, ho, rfl⟩ := Option.map_eq_some_iff.mp hw'
  obtain ⟨deliveries, -, rfl⟩ := Option.map_eq_some_iff.mp ho
  exact h.same rfl rfl rfl rfl

theorem Retired.step (h : Retired id secret claimed sent w) {a : Action}
    (hstep : step encode w a = some w') : Retired id secret claimed sent w' := by
  cases step_cases hstep with
  | outbox hdelivery hstepped => exact h.outbox hdelivery hstepped
  | register _ hsecret hinsert =>
    refine h.mono (fun x hx => List.mem_cons_of_mem _ hx) (fun e he => ?_) rfl rfl
    rcases (Table.mem_insert hinsert).mp he with hold | rfl
    · exact .inl hold
    · exact .inr hsecret
  | rotateSecret tenantId id now hsecret =>
    refine h.mono (fun x hx => List.mem_cons_of_mem _ hx) (fun e he => ?_) rfl rfl
    obtain ⟨e₀, he₀, rfl⟩ := List.mem_map.mp he
    split_ifs
    · exact .inr hsecret
    · exact .inl he₀
  | enqueue _ _ hinserted =>
    refine Retired.enqueueBody ?_ hinserted
    exact h.same rfl rfl rfl rfl
  | enqueueTest _ hinserted =>
    refine Retired.enqueueBody ?_ hinserted
    exact h.same rfl rfl rfl rfl
  | purgeDeliveriesOlderThan | dispatch | entitled | unentitled | read | unread | unqueued | test
  | notFound | drop => exact h.same rfl rfl rfl rfl

end Retired

/-- Once a secret is rotated, only the requests that a tick had claimed by then still go out with
the old one, however long the run goes on. -/
theorem old_secret_only_in_flight {as bs : List Action} {w₁ w₂ : World} {e : EndpointRow}
    {secret : String} {now : ℤ} (hw : exec (step encode) .fresh as = some w)
    (he : e ∈ w.outbox.endpoints)
    (hrotate : step encode w (.rotateSecret e.tenantId e.id secret now) = some w₁)
    (hw₂ : exec (step encode) w₁ bs = some w₂) :
    ∀ p ∈ w₂.wire, p.endpointId = e.id → p.secret = e.secret →
      p ∈ w.wire ∨ ∃ x ∈ w.outbox.held, x.delivery = p := by
  have hsound : Sound encode w :=
    (throughout_of_step (fun _ _ _ h => Sound.step h) sound_fresh as).exec hw
  have hused := (hsound.known e (hsound.current e he)).2
  have hstart : Retired e.id e.secret w.outbox.held w.wire w₁ := by
    simp only [step] at hrotate
    split_ifs at hrotate with hnew
    obtain rfl := Option.some.inj hrotate
    refine ⟨List.mem_cons_of_mem _ hused, fun e' he' hid => ?_, fun x hx _ _ => ⟨x, hx, rfl⟩,
      fun p hp _ _ => .inl hp⟩
    obtain ⟨e₀, he₀, rfl⟩ := List.mem_map.mp he'
    have hsame : e₀ = e := by
      apply Table.eq_of_key_eq he₀ he
      split_ifs at hid <;> exact hid
    subst hsame
    rw [if_pos (by simp)]
    show secret ≠ e₀.secret
    rintro rfl
    exact hnew hused
  exact ((throughout_of_step (fun _ _ _ h => h.step) hstart bs).exec hw₂).wire

section Example

/-- Any text will do for the bodies. -/
def plainText : Body → String
  | .document .. => "document"
  | .test .. => "test"

def endpoint : EndpointRow :=
  newEndpoint "acme" ⟨"https://acme.example/hook", none, ["document.processed"]⟩
    ⟨"e1", "whsec_1", 0⟩

/-- A test event, claimed by a tick. -/
def claimedTest : List Action :=
  [.register "acme" ⟨"https://acme.example/hook", none, ["document.processed"]⟩
      ⟨"e1", "whsec_1", 0⟩,
    .test 0 "acme" "e1", .enqueueTest 0 "d1" 0 0,
    .outbox (.claim 20 0 0
      [⟨"d1", "e1", "acme", "document.processed", "test", .pending, 0, none, none, 0, 0, 0⟩])]

def beforeRotation : World := (exec (step plainText) .fresh claimedTest).get rfl

def afterRotation : World :=
  (step plainText beforeRotation (.rotateSecret "acme" "e1" "whsec_2" 5)).get rfl

def afterPost : World :=
  (exec (step plainText) afterRotation [.outbox (.post 0 "d1")]).get rfl

theorem afterPost_wire_ne : afterPost.wire ≠ [] := List.cons_ne_nil _ _

/-- A request claimed before the rotation goes out with the old secret after it. -/
theorem old_secret_only_in_flight_test : ∃ p ∈ afterPost.wire, p.secret = "whsec_1" ∧
    (p ∈ beforeRotation.wire ∨ ∃ x ∈ beforeRotation.outbox.held, x.delivery = p) := by
  have hflight := @old_secret_only_in_flight plainText beforeRotation claimedTest
    [.outbox (.post 0 "d1")] afterRotation afterPost endpoint "whsec_2" 5 rfl
    (List.mem_singleton.mpr rfl) rfl rfl
  have hposted := List.head_mem afterPost_wire_ne
  exact ⟨_, hposted, rfl, hflight _ hposted rfl rfl⟩

end Example

end HeirsOcr.WebhookFanout
