import HeirsOcr.Errors
import HeirsOcr.Interleaving
import HeirsOcr.WebhookOutbox

/-!
# The cap on webhook endpoints

`POST /api/webhooks` counts the endpoints of the organisation and inserts one more when there
is room. The count and the insert are two statements, and those of other requests run in
between. The other requests about endpoints are one statement each.
-/
namespace HeirsOcr.EndpointCap
open Interleaving KeyedTable StepMachine
open WebhookOutbox (EndpointRow)

abbrev Endpoints := Table EndpointRow.id

def MAX_ENDPOINTS_PER_TENANT : ℕ := 10

/-- The body of a `POST`, once the schema and the check of its URL have passed it. -/
structure CreateWebhook where
  url : String
  description : Option String
  events : List String
  deriving DecidableEq, Repr

structure UpdateWebhook where
  url : Option String
  description : Option String
  events : Option (List String)
  enabled : Option Bool
  deriving DecidableEq, Repr

inductive EndpointRequest where
  | create (tenantId : String) (input : CreateWebhook)
  | update (tenantId id : String) (patch : UpdateWebhook)
  | rotateSecret (tenantId id : String)
  | delete (tenantId id : String)
  deriving DecidableEq, Repr

/-- A request by its next statement. -/
inductive EndpointCall where
  | countEndpoints (tenantId : String) (input : CreateWebhook)
  | createEndpoint (tenantId : String) (input : CreateWebhook) (existing : ℕ)
  | updateEndpoint (tenantId id : String) (patch : UpdateWebhook)
  | rotateSecret (tenantId id : String)
  | deleteEndpoint (tenantId id : String)
  deriving DecidableEq, Repr

/-- What a statement is given: a fresh id, a fresh secret and the time. -/
structure Given where
  id : String
  secret : String
  now : ℤ
  deriving DecidableEq, Repr

def countEndpoints (endpoints : Endpoints) (tenantId : String) : ℕ :=
  endpoints.rows.countP fun r => r.tenantId = tenantId

def limitReached (existing : ℕ) : Option HttpError :=
  if MAX_ENDPOINTS_PER_TENANT ≤ existing then
    some ⟨409, "LIMIT_REACHED",
      s!"You already have {existing} webhook endpoints; " ++
        s!"the limit is {MAX_ENDPOINTS_PER_TENANT}. Delete one to add another."⟩
  else none

def newEndpoint (tenantId : String) (input : CreateWebhook) (given : Given) : EndpointRow where
  id := given.id
  tenantId := tenantId
  url := input.url
  secret := given.secret
  description := input.description
  events := input.events
  enabled := true
  createdAt := given.now
  updatedAt := given.now

def patched (patch : UpdateWebhook) (now : ℤ) (r : EndpointRow) : EndpointRow :=
  { r with
    url := patch.url.getD r.url
    description := patch.description.or r.description
    events := patch.events.getD r.events
    enabled := patch.enabled.getD r.enabled
    updatedAt := now }

def rotated (secret : String) (now : ℤ) (r : EndpointRow) : EndpointRow :=
  { r with secret := secret, updatedAt := now }

/-- A change of an endpoint leaves it its id and its organisation. -/
structure Leaves (f : EndpointRow → EndpointRow) : Prop where
  id : ∀ r, (f r).id = r.id
  tenantId : ∀ r, (f r).tenantId = r.tenantId

theorem leaves_patched (patch : UpdateWebhook) (now : ℤ) : Leaves (patched patch now) :=
  ⟨fun _ => rfl, fun _ => rfl⟩

theorem leaves_rotated (secret : String) (now : ℤ) : Leaves (rotated secret now) :=
  ⟨fun _ => rfl, fun _ => rfl⟩

/-- An `INSERT` that violates the key fails and leaves the table. -/
def createEndpoint (endpoints : Endpoints) (tenantId : String) (input : CreateWebhook)
    (given : Given) : Endpoints :=
  (endpoints.insert (newEndpoint tenantId input given)).getD endpoints

def resumeRequest (endpoints : Endpoints) :
    EndpointCall → Given → Endpoints × Option EndpointCall
  | .countEndpoints tenantId input, _ =>
    let existing := countEndpoints endpoints tenantId
    match limitReached existing with
    | some _ => (endpoints, none)
    | none => (endpoints, some (.createEndpoint tenantId input existing))
  | .createEndpoint tenantId input _, given =>
    (createEndpoint endpoints tenantId input given, none)
  | .updateEndpoint tenantId id patch, given =>
    (endpoints.update (fun r => r.tenantId = tenantId && r.id = id) (patched patch given.now)
      (leaves_patched patch given.now).id, none)
  | .rotateSecret tenantId id, given =>
    (endpoints.update (fun r => r.tenantId = tenantId && r.id = id)
      (rotated given.secret given.now) (leaves_rotated given.secret given.now).id, none)
  | .deleteEndpoint tenantId id, _ =>
    (endpoints.delete fun r => r.tenantId = tenantId && r.id = id, none)

def firstStatement : EndpointRequest → EndpointCall
  | .create tenantId input => .countEndpoints tenantId input
  | .update tenantId id patch => .updateEndpoint tenantId id patch
  | .rotateSecret tenantId id => .rotateSecret tenantId id
  | .delete tenantId id => .deleteEndpoint tenantId id

def endpointRequests : System Endpoints EndpointCall EndpointRequest Given Empty where
  start endpoints request := (endpoints, some (firstStatement request))
  resume := resumeRequest
  environment endpoints _ := endpoints

/-- The condition of an insert: the organisation has no more endpoints than its request
counted. -/
def EndpointCall.CountHolds (endpoints : Endpoints) (org : String) : EndpointCall → Prop
  | .createEndpoint tenantId _ existing =>
    tenantId = org → EndpointCap.countEndpoints endpoints org ≤ existing
  | .countEndpoints _ _ | .updateEndpoint _ _ _ | .rotateSecret _ _ | .deleteEndpoint _ _ => True

instance (endpoints : Endpoints) (org : String) :
    ∀ c : EndpointCall, Decidable (c.CountHolds endpoints org)
  | .createEndpoint tenantId _ existing =>
    inferInstanceAs (Decidable (tenantId = org → countEndpoints endpoints org ≤ existing))
  | .countEndpoints _ _ | .updateEndpoint _ _ _ | .rotateSecret _ _ | .deleteEndpoint _ _ =>
    inferInstanceAs (Decidable True)

def CountsHold (org : String) (s : State Endpoints EndpointCall) :
    Action EndpointRequest Given Empty → Prop
  | .advance i _ => ∀ c ∈ s.calls[i]?, c.CountHolds s.shared org
  | .start _ | .environment _ => True

instance (org : String) (s : State Endpoints EndpointCall) : ∀ a, Decidable (CountsHold org s a)
  | .advance i _ => inferInstanceAs (Decidable (∀ c ∈ s.calls[i]?, c.CountHolds s.shared org))
  | .start _ | .environment _ => inferInstanceAs (Decidable True)

def Capped (org : String) (endpoints : Endpoints) : Prop :=
  countEndpoints endpoints org ≤ MAX_ENDPOINTS_PER_TENANT

instance (org : String) : DecidablePred (Capped org) :=
  fun endpoints => inferInstanceAs (Decidable (countEndpoints endpoints org ≤ _))

/-- A request that is about to insert found room. -/
def EndpointCall.FoundRoom : EndpointCall → Prop
  | .createEndpoint _ _ existing => existing < MAX_ENDPOINTS_PER_TENANT
  | .countEndpoints _ _ | .updateEndpoint _ _ _ | .rotateSecret _ _ | .deleteEndpoint _ _ => True

section Count

variable {endpoints : Endpoints} {org tenantId : String}

theorem limitReached_eq_none {existing : ℕ} (h : limitReached existing = none) :
    existing < MAX_ENDPOINTS_PER_TENANT := by
  by_contra hfull
  simp [limitReached, not_lt.mp hfull] at h

theorem countEndpoints_create (input : CreateWebhook) (given : Given) :
    countEndpoints (createEndpoint endpoints tenantId input given) org ≤
      countEndpoints endpoints org + if tenantId = org then 1 else 0 := by
  cases h : endpoints.insert (newEndpoint tenantId input given) with
  | none => simp [createEndpoint, h]
  | some t =>
    have hrows := (Table.insert_eq_some h).2
    rw [createEndpoint, h, Option.getD_some, countEndpoints, hrows, List.countP_append]
    simp [countEndpoints, newEndpoint, List.countP_singleton]

theorem countEndpoints_update (p : EndpointRow → Bool) {f : EndpointRow → EndpointRow}
    (hf : Leaves f) :
    countEndpoints (endpoints.update p f hf.id) org = countEndpoints endpoints org := by
  have hsame : ((fun r : EndpointRow => decide (r.tenantId = org)) ∘
      fun r => if p r then f r else r) = fun r => decide (r.tenantId = org) := by
    funext r
    by_cases hp : p r = true
    · simp [hp, hf.tenantId]
    · simp [hp]
  rw [countEndpoints, Table.update, List.countP_map, hsame, countEndpoints]

theorem countEndpoints_delete (p : EndpointRow → Bool) :
    countEndpoints (endpoints.delete p) org ≤ countEndpoints endpoints org :=
  List.filter_sublist.countP_le

end Count

section Run

variable {s : State Endpoints EndpointCall} {org : String}
  {a : Action EndpointRequest Given Empty}

theorem foundRoom_firstStatement (request : EndpointRequest) :
    (firstStatement request).FoundRoom := by
  cases request <;> trivial

theorem stepKeeps_countsHold (hs : Holds (Capped org) (fun _ c => c.FoundRoom) s)
    (hok : CountsHold org s a) :
    StepKeeps endpointRequests (Capped org) (fun _ c => c.FoundRoom) s a := by
  have hcap : countEndpoints s.shared org ≤ MAX_ENDPOINTS_PER_TENANT := hs.shared
  cases a with
  | start request =>
    refine ⟨hs.shared, fun c hc => ?_, fun _ _ h => h⟩
    obtain rfl := Option.some.inj hc
    exact foundRoom_firstStatement request
  | environment event => exact event.elim
  | advance i given =>
    intro c hc
    cases c with
    | countEndpoints tenantId input =>
      simp only [endpointRequests, resumeRequest]
      split
      case h_1 => exact ⟨hs.shared, by simp, fun _ _ h => h⟩
      case h_2 hroom =>
        refine ⟨hs.shared, fun c' hc' => ?_, fun _ _ h => h⟩
        obtain rfl := Option.some.inj hc'
        exact limitReached_eq_none hroom
    | createEndpoint tenantId input existing =>
      have hroom : existing < MAX_ENDPOINTS_PER_TENANT := hs.calls _ (List.mem_of_getElem? hc)
      have hcount : tenantId = org → countEndpoints s.shared org ≤ existing := hok _ hc
      refine ⟨?_, by simp [endpointRequests, resumeRequest], fun _ _ h => h⟩
      have hnext : countEndpoints (createEndpoint s.shared tenantId input given) org ≤ _ :=
        countEndpoints_create input given
      show countEndpoints (createEndpoint s.shared tenantId input given) org ≤ _
      split_ifs at hnext with htenant
      · have hle := hcount htenant
        omega
      · omega
    | updateEndpoint tenantId id patch =>
      refine ⟨?_, by simp [endpointRequests, resumeRequest], fun _ _ h => h⟩
      exact (countEndpoints_update _ (leaves_patched patch given.now)).trans_le hcap
    | rotateSecret tenantId id =>
      refine ⟨?_, by simp [endpointRequests, resumeRequest], fun _ _ h => h⟩
      exact (countEndpoints_update _ (leaves_rotated given.secret given.now)).trans_le hcap
    | deleteEndpoint tenantId id =>
      refine ⟨?_, by simp [endpointRequests, resumeRequest], fun _ _ h => h⟩
      exact (countEndpoints_delete _).trans hcap

/-- Over all interleavings of the statements of requests about endpoints of any organisations:
while an insert finds no more endpoints than its request counted, the organisation stays within
the cap. -/
theorem endpoints_capped (endpoints : Endpoints) (hcap : Capped org endpoints)
    (as : List (Action EndpointRequest Given Empty))
    (hok : Guarded endpointRequests.step (CountsHold org) ⟨endpoints, []⟩ as) :
    Throughout endpointRequests.step (fun s => Capped org s.shared) ⟨endpoints, []⟩ as := by
  have hstart : Holds (Capped org) (fun _ c => EndpointCall.FoundRoom c)
      (⟨endpoints, []⟩ : State Endpoints EndpointCall) := ⟨hcap, by simp⟩
  have hrun := throughout_holds (fun _ _ hs ha => stepKeeps_countsHold hs ha) hstart hok
  exact hrun.mono fun s hs => hs.shared

end Run

section Examples

private def receiver : CreateWebhook := ⟨"https://a.test/h", none, ["document.processed"]⟩

private def nine : Endpoints where
  rows := ["0", "1", "2", "3", "4", "5", "6", "7", "8"].map fun id =>
    newEndpoint "acme" receiver ⟨id, "s", 0⟩
  nodup := by decide

/-- The tenth endpoint, and an eleventh, which is refused. -/
theorem endpoints_capped_ten :
    Throughout endpointRequests.step (fun s => Capped "acme" s.shared) ⟨nine, []⟩
      [.start (.create "acme" receiver), .advance 0 ⟨"", "", 1⟩, .advance 0 ⟨"9", "s", 1⟩,
        .start (.create "acme" receiver), .advance 0 ⟨"", "", 2⟩] :=
  endpoints_capped nine (by decide +kernel) _ (by decide +kernel)

/-- Two requests count nine, and both insert. -/
theorem eleven_endpoints :
    ¬ ∀ (endpoints : Endpoints) (as : List (Action EndpointRequest Given Empty)),
      Capped "acme" endpoints →
      Throughout endpointRequests.step (fun s => Capped "acme" s.shared) ⟨endpoints, []⟩ as := by
  intro hall
  have hrun := hall nine
    [.start (.create "acme" receiver), .start (.create "acme" receiver),
      .advance 0 ⟨"", "", 1⟩, .advance 0 ⟨"", "", 1⟩, .advance 0 ⟨"9", "s", 1⟩,
      .advance 0 ⟨"10", "s", 1⟩] (by decide +kernel)
  revert hrun
  decide +kernel

end Examples

end HeirsOcr.EndpointCap
