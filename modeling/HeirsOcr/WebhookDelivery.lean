import HeirsOcr.StepMachine
import HeirsOcr.UrlGuard
import HeirsOcr.WebhookOutbox

/-!
# Where a delivery attempt connects

An attempt puts its URL to the guard and then POSTs it with `fetch`, which resolves the
host by itself. Each of the two lookups gets whatever the resolver answers at that moment,
so a run carries the answers with its steps and quantifies over every resolver. The log
keeps, for each connection, what both lookups answered.
-/
namespace HeirsOcr.WebhookDelivery
open StepMachine UrlGuard AddressText
open WebhookOutbox (DueDelivery)

/-- An attempt the guard let through, with what the guard's lookup answered. -/
structure Passed where
  delivery : DueDelivery
  guardLookup : Lookup

structure Connection where
  url : String
  address : List Char
  guardLookup : Lookup
  fetchLookup : Lookup

/-- The attempts under way, the connections made, and the deliveries refused with their
reasons. -/
structure Worker where
  passed : List Passed
  connections : List Connection
  refused : List (String × String)

/-- Where `fetch` connects: to the host itself when it is an address, else to one of the
addresses its lookup answers, the `pick`th. -/
def fetchAddress (env : Environment) (url : String) (answer : Lookup) (pick : ℕ) :
    Option (List Char) :=
  (env.hostname url).bind fun hostname =>
    if isIP (hostOf hostname) ≠ 0 then some (hostOf hostname)
    else
      match answer with
      | .error _ => none
      | .ok addresses => addresses[pick]?

/-- The two halves of `attempt`: the check of a claimed delivery, and the POST of the
`i`th attempt that passed. -/
inductive Action where
  | attempt (delivery : DueDelivery) (answer : Lookup)
  | post (i : ℕ) (answer : Lookup) (pick : ℕ)

def Worker.connect (env : Environment) (w : Worker) (p : Passed) (answer : Lookup) (pick : ℕ) :
    Worker :=
  match fetchAddress env p.delivery.url answer pick with
  | none => w
  | some address =>
    { w with
      connections := w.connections ++ [⟨p.delivery.url, address, p.guardLookup, answer⟩] }

def step (env : Environment) (w : Worker) : Action → Option Worker
  | .attempt delivery answer =>
    match assertSafeWebhookUrl env delivery.url answer with
    | .error reason => some { w with refused := w.refused ++ [(delivery.id, reason)] }
    | .ok () => some { w with passed := w.passed ++ [⟨delivery, answer⟩] }
  | .post i answer pick =>
    w.passed[i]?.map fun p =>
      Worker.connect env { w with passed := w.passed.eraseIdx i } p answer pick

def start : Worker := ⟨[], [], []⟩

/-- The connection went where the guard looked: the host is an address, or the guard's
lookup answered and `fetch`'s answered nothing else. -/
def Checked (env : Environment) (c : Connection) : Prop :=
  (∃ hostname ∈ env.hostname c.url, isIP (hostOf hostname) ≠ 0) ∨
  ∃ guarded fetched, c.guardLookup = .ok guarded ∧ c.fetchLookup = .ok fetched ∧
    ∀ a ∈ fetched, a ∈ guarded

/-- Everything under way passed the guard, and every connection was made by `fetch` on
such an attempt. -/
structure Guards (env : Environment) (w : Worker) : Prop where
  passed : ∀ p ∈ w.passed, assertSafeWebhookUrl env p.delivery.url p.guardLookup = .ok ()
  connections : ∀ c ∈ w.connections, assertSafeWebhookUrl env c.url c.guardLookup = .ok () ∧
    ∃ pick, fetchAddress env c.url c.fetchLookup pick = some c.address

section Steps
variable {env : Environment} {w w' : Worker}

theorem guards_connect {p : Passed} (hw : Guards env w)
    (hp : assertSafeWebhookUrl env p.delivery.url p.guardLookup = .ok ()) (answer : Lookup)
    (pick : ℕ) : Guards env (w.connect env p answer pick) := by
  unfold Worker.connect
  cases hfetch : fetchAddress env p.delivery.url answer pick with
  | none => exact hw
  | some address =>
    refine ⟨hw.passed, fun c hc => ?_⟩
    rcases List.mem_append.mp hc with hc | hc
    · exact hw.connections c hc
    · obtain rfl := List.mem_singleton.mp hc
      exact ⟨hp, pick, hfetch⟩

/-- The step lemma. -/
theorem guards_step {a : Action} (hw : Guards env w) (h : step env w a = some w') :
    Guards env w' := by
  cases a with
  | attempt delivery answer =>
    simp only [step] at h
    split at h
    · obtain rfl := Option.some.inj h
      exact ⟨hw.passed, hw.connections⟩
    · rename_i hpass
      obtain rfl := Option.some.inj h
      refine ⟨fun p hp => ?_, hw.connections⟩
      rcases List.mem_append.mp hp with hp | hp
      · exact hw.passed p hp
      · obtain rfl := List.mem_singleton.mp hp
        exact hpass
  | post i answer pick =>
    obtain ⟨p, hp, rfl⟩ := Option.map_eq_some_iff.mp h
    have hrest : Guards env { w with passed := w.passed.eraseIdx i } :=
      ⟨fun q hq => hw.passed q (List.mem_of_mem_eraseIdx hq), hw.connections⟩
    exact guards_connect hrest (hw.passed p (List.mem_of_getElem? hp)) answer pick

/-- A connection that went where the guard looked is to no blocked address. -/
theorem unblocked_of_checked {c : Connection} (hprod : env.NODE_ENV = "production")
    (hguard : assertSafeWebhookUrl env c.url c.guardLookup = .ok ())
    (hfetch : ∃ pick, fetchAddress env c.url c.fetchLookup pick = some c.address)
    (hchecked : Checked env c) : isBlockedAddress c.address = false := by
  obtain ⟨pick, hfetch⟩ := hfetch
  obtain ⟨hostname, hhost, hfetch⟩ := Option.bind_eq_some_iff.mp hfetch
  by_cases hip : isIP (hostOf hostname) ≠ 0
  · rw [if_pos hip] at hfetch
    rw [← Option.some.inj hfetch]
    exact literal_of_assertSafe hprod hhost hguard hip
  · rw [if_neg hip] at hfetch
    rcases hchecked with ⟨hostname', hhost', hip'⟩ | ⟨guarded, fetched, hg, hf, hsub⟩
    · obtain rfl : hostname = hostname' := Option.some.inj (hhost.symm.trans hhost')
      exact absurd hip' hip
    · rw [hf] at hfetch
      rw [hg] at hguard
      have hmem := hsub _ (List.mem_of_getElem? hfetch)
      exact resolved_of_assertSafe hprod hhost hguard (not_not.mp hip) _ hmem

end Steps

/-- In production, whatever the resolver answers at any moment, no connection is to a
blocked address whose host is an address itself or whose `fetch` was answered only what
the guard was answered. -/
theorem checked_connections_unblocked (env : Environment) (hprod : env.NODE_ENV = "production")
    (as : List Action) :
    Throughout (step env)
      (fun w => ∀ c ∈ w.connections, Checked env c → isBlockedAddress c.address = false)
      start as := by
  have hstart : Guards env start := ⟨nofun, nofun⟩
  have hguards : Throughout (step env) (Guards env) start as :=
    throughout_of_step (fun _ _ _ hw h => guards_step hw h) hstart as
  refine hguards.mono fun w hw c hc hchecked => ?_
  obtain ⟨hguard, hfetch⟩ := hw.connections c hc
  exact unblocked_of_checked hprod hguard hfetch hchecked

/-- A production worker that knows one receiver. -/
def production : Environment where
  NODE_ENV := "production"
  hostname raw :=
    if raw = "https://hooks.acme.test/in" then some "hooks.acme.test".toList else none

def delivery : DueDelivery where
  id := "d1"
  endpointId := "e1"
  tenantId := "acme"
  event := "document.processed"
  payload := "{}"
  attempts := 1
  url := "https://hooks.acme.test/in"
  secret := "whsec_1"

/-- The guard and `fetch` are both answered the receiver's public address. -/
theorem checked_connections_unblocked_stable :
    Throughout (step production)
      (fun w => ∀ c ∈ w.connections, Checked production c → isBlockedAddress c.address = false)
      start
      [.attempt delivery (.ok ["93.184.216.34".toList]),
        .post 0 (.ok ["93.184.216.34".toList]) 0] :=
  checked_connections_unblocked production rfl _

/-- The guard's lookup fails, which lets the name through, and `fetch` is answered a
private address; or the guard is answered a public address and `fetch` the loopback. -/
theorem unchecked_connection_blocked :
    ¬Throughout (step production)
      (fun w => ∀ c ∈ w.connections, isBlockedAddress c.address = false) start
      [.attempt delivery (.error "ENOTFOUND"), .post 0 (.ok ["10.0.0.5".toList]) 0] ∧
    ¬Throughout (step production)
      (fun w => ∀ c ∈ w.connections, isBlockedAddress c.address = false) start
      [.attempt delivery (.ok ["93.184.216.34".toList]),
        .post 0 (.ok ["127.0.0.1".toList]) 0] := by
  decide

end HeirsOcr.WebhookDelivery
