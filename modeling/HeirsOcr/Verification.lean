import HeirsOcr.PortalKeys
import HeirsOcr.Signup
import HeirsOcr.Subscriptions

/-!
# Verifying a signup

`POST /verification` with the right code: the organisation, its subscription and its owner
are inserted one statement after another, and the signup is discarded at the end. Requests
run side by side, no store fails, and one that the gates before the check refuse does none
of this and is left out. Beside the store the state logs the organisations created, each
with the e-mail it was created for.
-/
namespace HeirsOcr.Verification
open ExpiringKeys Interleaving KeyedTable StepMachine
open Billing (Subscription SubscriptionPlan resolveTrialWindow upsertSubscription)
open Signup (PendingSignup normalizeEmail normalizeEmail_normalizeEmail pendingKey)
open TenantKeys (Tenant TenantRole TenantTable listKeysForTenant)

/-- A row of `tenant_users`; the e-mail is unique. -/
structure TenantUserRecord where
  id : String
  tenantId : String
  email : String
  name : String
  role : TenantRole
  passwordHash : String
  disabled : Bool
  deriving DecidableEq, Repr

/-- An organisation, with the e-mail of the signup it was created for. -/
structure Organisation where
  email : String
  tenantId : String
  deriving DecidableEq, Repr

structure Store where
  now : ℤ
  keys : Keyspace String PendingSignup
  tenants : TenantTable
  subscriptions : Table Subscription.tenantId
  users : Table TenantUserRecord.email
  organisations : List Organisation

/-- What a command receives: the plan of the id, what is drawn for the ids and the key, and
the calendar. -/
structure Answer where
  plan : Option SubscriptionPlan
  suffix : String
  keyHash : String
  subscriptionId : String
  userId : String
  oneMonthLater : ℤ

/-- The next statement of a request. -/
inductive VerificationCall where
  | checkOtp (email : String)
  | getTenantUserByEmail (pending : PendingSignup)
  | getStoredPlan (pending : PendingSignup)
  | allocateTenantId (pending : PendingSignup) (plan : SubscriptionPlan) (attempts : ℕ)
  | putTenant (pending : PendingSignup) (plan : SubscriptionPlan) (tenantId : String)
  | putSubscription (pending : PendingSignup) (plan : SubscriptionPlan) (tenantId : String)
  | rereadTenantUser (pending : PendingSignup) (tenantId : String)
  | createTenantUser (pending : PendingSignup) (tenantId : String)
  | createSession (pending : PendingSignup)
  | discardSignup (pending : PendingSignup)
  deriving DecidableEq, Repr

def ALLOCATE_ATTEMPTS : ℕ := 5

def createSubscriptionFromPlan (tenantId : String) (plan : SubscriptionPlan) (now : ℤ)
    (answer : Answer) : Subscription where
  id := "sub_" ++ answer.subscriptionId
  tenantId := tenantId
  plan := plan
  status := if plan.trial.isSome then .trialing else .active
  trial := plan.trial.map fun policy => resolveTrialWindow policy now
  currentPeriodStart := now
  currentPeriodEnd := answer.oneMonthLater
  cancelAtPeriodEnd := false
  canceledAt := none
  usage := ⟨0, 0, 0, 0⟩
  payment := ⟨.manual, none, none, false⟩
  createdAt := now
  updatedAt := now

/-- The tenant `provisionTenant` puts. -/
def tenantOf (pending : PendingSignup) (tenantId : String) (now : ℤ) : Tenant where
  tenantId := tenantId
  name := some pending.organizationName
  disabled := none
  rateLimit := none
  allowedOrigins := none
  allowedFunctions := none
  expiresAt := none
  createdAt := some now

def ownerRecord (pending : PendingSignup) (tenantId userId : String) : TenantUserRecord where
  id := userId
  tenantId := tenantId
  email := normalizeEmail pending.email
  name := pending.name
  role := .owner
  passwordHash := pending.passwordHash
  disabled := false

section System

variable (slugify : String → String)

/-- One statement. A duplicate owner and an exhausted allocation are thrown, and end the request
with a 503. -/
def resumeVerification (s : Store) : VerificationCall → Answer → Store × Option VerificationCall
  | .checkOtp email, _ =>
    (s, (get s.keys s.now (pendingKey (normalizeEmail email))).map .getTenantUserByEmail)
  | .getTenantUserByEmail pending, _ =>
    match s.users.find? (normalizeEmail pending.email) with
    | some _ => (s, some (.discardSignup pending))
    | none => (s, some (.getStoredPlan pending))
  | .getStoredPlan pending, answer =>
    match answer.plan with
    | none => (s, some (.discardSignup pending))
    | some plan =>
      if plan.hidden then (s, some (.discardSignup pending))
      else (s, some (.allocateTenantId pending plan ALLOCATE_ATTEMPTS))
  | .allocateTenantId _ _ 0, _ => (s, none)
  | .allocateTenantId pending plan (attempts + 1), answer =>
    let candidate := slugify pending.organizationName ++ "-" ++ answer.suffix
    if listKeysForTenant s.tenants candidate = [] then
      (s, some (.putTenant pending plan candidate))
    else (s, some (.allocateTenantId pending plan attempts))
  | .putTenant pending plan tenantId, answer =>
    ({ s with
        tenants := TenantKeys.putTenant s.tenants answer.keyHash (tenantOf pending tenantId s.now)
          s.now
        organisations := s.organisations ++ [⟨normalizeEmail pending.email, tenantId⟩] },
      some (.putSubscription pending plan tenantId))
  | .putSubscription pending plan tenantId, answer =>
    ({ s with
        subscriptions := upsertSubscription s.subscriptions
          (createSubscriptionFromPlan tenantId plan s.now answer) },
      some (.rereadTenantUser pending tenantId))
  | .rereadTenantUser pending tenantId, _ =>
    match s.users.find? (normalizeEmail (normalizeEmail pending.email)) with
    | some _ => (s, none)
    | none => (s, some (.createTenantUser pending tenantId))
  | .createTenantUser pending tenantId, answer =>
    match s.users.insert (ownerRecord pending tenantId answer.userId) with
    | none => (s, none)
    | some users => ({ s with users := users }, some (.createSession pending))
  | .createSession pending, _ => (s, some (.discardSignup pending))
  | .discardSignup pending, _ =>
    ({ s with keys := del s.keys [pendingKey (normalizeEmail pending.email)] }, none)

/-- Requests for any e-mails, each with the code its signup has; the environment lets
milliseconds pass. -/
def verifications : System Store VerificationCall String Answer ℕ where
  start s email := (s, some (.checkOtp email))
  resume := resumeVerification slugify
  environment s elapsed := { s with now := s.now + elapsed }

end System

/-- The store before the first request: no organisation is logged. -/
def unverified (m : Store) : State Store VerificationCall := ⟨{ m with organisations := [] }, []⟩

/-- The organisations created for an e-mail. -/
def Store.orgsOf (m : Store) (email : String) : List Organisation :=
  m.organisations.filter (·.email = email)

/-- The organisation whose owner a request is about to insert. -/
def VerificationCall.organisation : VerificationCall → Option Organisation
  | .putSubscription pending _ tenantId | .rereadTenantUser pending tenantId
  | .createTenantUser pending tenantId => some ⟨normalizeEmail pending.email, tenantId⟩
  | .checkOtp _ | .getTenantUserByEmail _ | .getStoredPlan _ | .allocateTenantId _ _ _
  | .putTenant _ _ _ | .createSession _ | .discardSignup _ => none

/-- The owner row of an organisation. -/
def Store.HasOwner (m : Store) (org : Organisation) : Prop :=
  ∃ user ∈ m.users, user.tenantId = org.tenantId ∧ user.email = org.email ∧ user.role = .owner

/-- Each e-mail got at most one organisation, and an organisation has its owner unless its
request is still to insert it. -/
structure OneOrganisation (s : State Store VerificationCall) : Prop where
  one : ∀ email, (s.shared.orgsOf email).length ≤ 1
  owned : ∀ org ∈ s.shared.organisations, s.shared.HasOwner org ∨
    ∃ c ∈ s.calls, c.organisation = some org

/-- The e-mail a request is creating an owner for: from its look for an account to the owner's
insert. -/
def VerificationCall.creating : VerificationCall → Option String
  | .getStoredPlan pending | .allocateTenantId pending _ _ | .putTenant pending _ _
  | .putSubscription pending _ _ | .rereadTenantUser pending _ | .createTenantUser pending _ =>
    some (normalizeEmail pending.email)
  | .checkOtp _ | .getTenantUserByEmail _ | .createSession _ | .discardSignup _ => none

def VerificationCall.creates (email : String) (c : VerificationCall) : Bool :=
  c.creating = some email

/-- The e-mail a request is about to look an account up for. -/
def VerificationCall.looksFor : VerificationCall → Option String
  | .getTenantUserByEmail pending => some (normalizeEmail pending.email)
  | .checkOtp _ | .getStoredPlan _ | .allocateTenantId _ _ _ | .putTenant _ _ _
  | .putSubscription _ _ _ | .rereadTenantUser _ _ | .createTenantUser _ _ | .createSession _
  | .discardSignup _ => none

/-- The condition of a step: a request looks for the account of its e-mail while no other
request is creating it. -/
def LooksAlone (s : State Store VerificationCall) : Action String Answer ℕ → Prop
  | .advance i _ =>
    ∀ email ∈ s.calls[i]?.bind VerificationCall.looksFor, s.calls.all (!·.creates email)
  | .start _ | .environment _ => True

instance (s : State Store VerificationCall) : DecidablePred (LooksAlone s)
  | .advance _ _ => inferInstanceAs (Decidable (∀ email ∈ _, _))
  | .start _ => inferInstanceAs (Decidable True)
  | .environment _ => inferInstanceAs (Decidable True)

/-- No request is creating the account: no organisation, or one with the account as its owner. -/
def Settled (m : Store) (email : String) : Prop :=
  m.orgsOf email = [] ∨ ∃ org user, m.orgsOf email = [org] ∧ m.users.find? email = some user ∧
    user.tenantId = org.tenantId ∧ user.role = .owner

/-- The request creates the account: there is none, and no organisation but its own. -/
def Creating (m : Store) (email : String) (c : VerificationCall) : Prop :=
  m.users.find? email = none ∧ m.orgsOf email = c.organisation.toList

structure Provisioned (m : Store) (calls : List VerificationCall) : Prop where
  alone : ∀ email, calls.countP (VerificationCall.creates email) ≤ 1
  creating : ∀ c ∈ calls, ∀ email, c.creates email → Creating m email c
  settled : ∀ email, (∀ c ∈ calls, ¬c.creates email) → Settled m email

section Commands

variable {m m' : Store} {calls : List VerificationCall} {i : ℕ} {c : VerificationCall}
  {next : Option VerificationCall}

/-- What a command has to do: leave other e-mails alone, enter alone, and leave the account
of its own e-mail created or its creation under way. -/
theorem Provisioned.advance (hs : Provisioned m calls) (hc : calls[i]? = some c)
    (hframe : ∀ email, ¬c.creates email → (∀ d ∈ next, ¬d.creates email) →
      m'.users.find? email = m.users.find? email ∧ m'.orgsOf email = m.orgsOf email)
    (henter : ∀ email, ¬c.creates email → (∃ d ∈ next, d.creates email) →
      ∀ d ∈ calls, ¬d.creates email)
    (hnext : ∀ d ∈ next, ∀ email, d.creates email → Creating m' email d)
    (hleave : ∀ email, c.creates email → (∀ d ∈ next, ¬d.creates email) → Settled m' email) :
    Provisioned m' (calls.eraseIdx i ++ next.toList) := by
  have hrest : ∀ email, c.creates email ∨ (∃ d ∈ next, d.creates email) →
      ∀ d ∈ calls.eraseIdx i, ¬d.creates email := by
    intro email hin d hd hcreates
    by_cases hown : c.creates email = true
    · have hother := not_of_mem_eraseIdx (hs.alone email) hc hown hd
      rw [hcreates] at hother
      cases hother
    · have hmem : d ∈ calls := (mem_iff_eq_or_mem_eraseIdx hc).mpr (.inr hd)
      exact henter email hown (hin.resolve_left hown) d hmem hcreates
  refine ⟨fun email => ?_, fun d hd email hcreates => ?_, fun email hnone => ?_⟩
  · by_cases hin : c.creates email = true ∨ ∃ d ∈ next, d.creates email = true
    · have hzero : (calls.eraseIdx i).countP (VerificationCall.creates email) = 0 :=
        List.countP_eq_zero.mpr (hrest email hin)
      have hone : next.toList.countP (VerificationCall.creates email) ≤ 1 := by
        refine List.countP_le_length.trans ?_
        cases next <;> simp
      rw [List.countP_append]
      omega
    · have hnone : next.toList.countP (VerificationCall.creates email) = 0 := by
        refine List.countP_eq_zero.mpr fun d hd hcreates => hin (.inr ⟨d, ?_, hcreates⟩)
        exact Option.mem_toList.mp hd
      have hcount := countP_advance (p := VerificationCall.creates email) hc next
      have hone := hs.alone email
      omega
  · rcases List.mem_append.mp hd with hold | hnew
    · have hmem : d ∈ calls := (mem_iff_eq_or_mem_eraseIdx hc).mpr (.inr hold)
      have hout : ¬(c.creates email = true ∨ ∃ d ∈ next, d.creates email = true) :=
        fun hin => hrest email hin d hold hcreates
      rw [not_or, not_exists] at hout
      obtain ⟨husers, horgs⟩ := hframe email hout.1 fun d hd h => hout.2 d ⟨hd, h⟩
      rw [Creating, husers, horgs]
      exact hs.creating d hmem email hcreates
    · exact hnext d (Option.mem_toList.mp hnew) email hcreates
  · have hnext' : ∀ d ∈ next, ¬d.creates email = true :=
      fun d hd => hnone d (List.mem_append_right _ (Option.mem_toList.mpr hd))
    by_cases hown : c.creates email = true
    · exact hleave email hown hnext'
    · obtain ⟨husers, horgs⟩ := hframe email hown hnext'
      rw [Settled, husers, horgs]
      refine hs.settled email fun d hd => ?_
      rcases (mem_iff_eq_or_mem_eraseIdx hc).mp hd with rfl | hold
      · exact hown
      · exact hnone d (List.mem_append_left _ hold)

theorem orgsOf_congr (h : m'.organisations = m.organisations) (email : String) :
    m'.orgsOf email = m.orgsOf email := by
  rw [Store.orgsOf, Store.orgsOf, h]

/-- A command that inserts neither an organisation nor an account. -/
theorem Provisioned.quiet (hs : Provisioned m calls) (hc : calls[i]? = some c)
    (husers : m'.users = m.users) (horgs : m'.organisations = m.organisations)
    (hnext : ∀ d ∈ next, ∀ email, d.creates email →
      c.creates email ∧ d.organisation = c.organisation)
    (hleave : ∀ email, c.creates email → (∀ d ∈ next, ¬d.creates email) →
      c.organisation = none) :
    Provisioned m' (calls.eraseIdx i ++ next.toList) := by
  have hcreating := hs.creating c (List.mem_of_getElem? hc)
  refine hs.advance hc (fun email _ _ => ?_) (fun email hown henter => ?_)
    (fun d hd email h => ?_) fun email hown hout => ?_
  · rw [husers, orgsOf_congr horgs]
    exact ⟨rfl, rfl⟩
  · obtain ⟨d, hd, hcreates⟩ := henter
    exact absurd (hnext d hd email hcreates).1 hown
  · obtain ⟨hown, horganisation⟩ := hnext d hd email h
    rw [Creating, husers, orgsOf_congr horgs, horganisation]
    exact hcreating email hown
  · left
    rw [orgsOf_congr horgs, (hcreating email hown).2, hleave email hown hout]
    rfl

theorem creates_iff {email : String} : c.creates email = true ↔ c.creating = some email := by
  simp [VerificationCall.creates]

/-- An account that is looked for and not there starts to be created. -/
theorem Provisioned.look (hs : Provisioned m calls) {pending : PendingSignup}
    (hc : calls[i]? = some (.getTenantUserByEmail pending))
    (halone : ∀ d ∈ calls, ¬d.creates (normalizeEmail pending.email) = true)
    (hnone : m.users.find? (normalizeEmail pending.email) = none) :
    Provisioned m (calls.eraseIdx i ++ (some (VerificationCall.getStoredPlan pending)).toList) := by
  refine hs.advance hc (fun _ _ _ => ⟨rfl, rfl⟩) (fun email _ henter => ?_)
    (fun d hd email h => ?_) fun email h => ?_
  · obtain ⟨d, hd, hcreates⟩ := henter
    obtain rfl := Option.some.inj hd
    obtain rfl := Option.some.inj (creates_iff.mp hcreates)
    exact halone
  · obtain rfl := Option.some.inj hd
    obtain rfl := Option.some.inj (creates_iff.mp h)
    refine ⟨hnone, ?_⟩
    rcases hs.settled _ halone with hempty | ⟨org, user, -, huser, -⟩
    · exact hempty
    · rw [hnone] at huser
      cases huser
  · cases h

/-- The organisation of an account being created is its first. -/
theorem Provisioned.put (hs : Provisioned m calls) {pending : PendingSignup}
    {plan : SubscriptionPlan} {tenantId : String}
    (hc : calls[i]? = some (.putTenant pending plan tenantId)) (husers : m'.users = m.users)
    (horgs : m'.organisations =
      m.organisations ++ [⟨normalizeEmail pending.email, tenantId⟩]) :
    Provisioned m' (calls.eraseIdx i ++
      (some (VerificationCall.putSubscription pending plan tenantId)).toList) := by
  obtain ⟨hnone, hempty⟩ := hs.creating _ (List.mem_of_getElem? hc)
    (normalizeEmail pending.email) (creates_iff.mpr rfl)
  refine hs.advance hc (fun email hown _ => ?_) (fun email hown henter => ?_)
    (fun d hd email h => ?_) fun email hown hout => ?_
  · have hemail : normalizeEmail pending.email ≠ email :=
      fun h => hown (creates_iff.mpr (congrArg some h))
    refine ⟨by rw [husers], ?_⟩
    simp [Store.orgsOf, horgs, hemail]
  · obtain ⟨d, hd, hcreates⟩ := henter
    obtain rfl := Option.some.inj hd
    exact absurd (creates_iff.mpr (creates_iff.mp hcreates)) hown
  · obtain rfl := Option.some.inj hd
    obtain rfl := Option.some.inj (creates_iff.mp h)
    have hbefore : m.organisations.filter (·.email = normalizeEmail pending.email) = [] := hempty
    refine ⟨by rw [husers]; exact hnone, ?_⟩
    rw [Store.orgsOf, horgs, List.filter_append, hbefore]
    simp [VerificationCall.organisation]
  · have hcreates : VerificationCall.creates email (.putSubscription pending plan tenantId) :=
      creates_iff.mpr (creates_iff.mp hown)
    exact absurd hcreates (hout _ rfl)

/-- The owner's insert finds no account, and settles the e-mail. -/
theorem Provisioned.own (hs : Provisioned m calls) {pending : PendingSignup} {tenantId : String}
    (hc : calls[i]? = some (.createTenantUser pending tenantId)) {userId : String}
    (hinsert : m.users.insert (ownerRecord pending tenantId userId) = some m'.users)
    (horgs : m'.organisations = m.organisations) :
    Provisioned m'
      (calls.eraseIdx i ++ (some (VerificationCall.createSession pending)).toList) := by
  obtain ⟨hnone, hone⟩ := hs.creating _ (List.mem_of_getElem? hc)
    (normalizeEmail pending.email) (creates_iff.mpr rfl)
  refine hs.advance hc (fun email hown _ => ?_) (fun email hown henter => ?_)
    (fun d hd email h => ?_) fun email hown hout => ?_
  · have hemail : (ownerRecord pending tenantId userId).email ≠ email :=
      fun h => hown (creates_iff.mpr (congrArg some h))
    rw [Table.find?_insert hinsert, if_neg hemail, orgsOf_congr horgs]
    exact ⟨rfl, rfl⟩
  · obtain ⟨d, hd, hcreates⟩ := henter
    obtain rfl := Option.some.inj hd
    cases hcreates
  · obtain rfl := Option.some.inj hd
    cases h
  · obtain rfl := Option.some.inj (creates_iff.mp hown)
    refine .inr ⟨⟨normalizeEmail pending.email, tenantId⟩, ownerRecord pending tenantId userId,
      ?_, ?_, rfl, rfl⟩
    · rw [orgsOf_congr horgs, hone]
      rfl
    · rw [Table.find?_insert hinsert]
      exact if_pos rfl

end Commands

section Run

variable {slugify : String → String} {s t : State Store VerificationCall} {i : ℕ}
  {c : VerificationCall} {answer : Answer}

/-- Every statement of a request that looks alone keeps the invariant. -/
theorem Provisioned.resume (hs : Provisioned s.shared s.calls) (hc : s.calls[i]? = some c)
    (halone : LooksAlone s (.advance i answer)) :
    Provisioned (resumeVerification slugify s.shared c answer).1
      (s.calls.eraseIdx i ++ (resumeVerification slugify s.shared c answer).2.toList) := by
  have hcreating := hs.creating c (List.mem_of_getElem? hc)
  cases c with
  | checkOtp email =>
    refine hs.quiet hc rfl rfl (fun d hd email h => ?_) fun _ h => by cases h
    obtain ⟨pending, -, rfl⟩ := Option.map_eq_some_iff.mp hd
    cases h
  | getTenantUserByEmail pending =>
    simp only [resumeVerification]
    split
    · refine hs.quiet hc rfl rfl (fun d hd email h => ?_) fun _ h => by cases h
      obtain rfl := Option.some.inj hd
      cases h
    · rename_i hnone
      refine hs.look hc ?_ hnone
      have hall := halone (normalizeEmail pending.email) (by rw [hc]; rfl)
      simpa using hall
  | getStoredPlan pending =>
    simp only [resumeVerification]
    split
    · refine hs.quiet hc rfl rfl (fun d hd email h => ?_) fun _ _ _ => rfl
      obtain rfl := Option.some.inj hd
      cases h
    · split_ifs
      · refine hs.quiet hc rfl rfl (fun d hd email h => ?_) fun _ _ _ => rfl
        obtain rfl := Option.some.inj hd
        cases h
      · refine hs.quiet hc rfl rfl (fun d hd email h => ?_) fun _ _ _ => rfl
        obtain rfl := Option.some.inj hd
        exact ⟨h, rfl⟩
  | allocateTenantId pending plan attempts =>
    cases attempts with
    | zero =>
      simp only [resumeVerification]
      exact hs.quiet hc rfl rfl (by simp) fun _ _ _ => rfl
    | succ attempts =>
      simp only [resumeVerification]
      split_ifs
      all_goals
        refine hs.quiet hc rfl rfl (fun d hd email h => ?_) fun _ _ _ => rfl
        obtain rfl := Option.some.inj hd
        exact ⟨h, rfl⟩
  | putTenant pending plan tenantId => exact hs.put hc rfl rfl
  | putSubscription pending plan tenantId =>
    refine hs.quiet hc rfl rfl (fun d hd email h => ?_) fun email h hout => ?_
    · obtain rfl := Option.some.inj hd
      exact ⟨h, rfl⟩
    · exact absurd h (hout (.rereadTenantUser pending tenantId) rfl)
  | rereadTenantUser pending tenantId =>
    have hnone := (hcreating (normalizeEmail pending.email) (creates_iff.mpr rfl)).1
    simp only [resumeVerification, normalizeEmail_normalizeEmail, hnone]
    refine hs.quiet hc rfl rfl (fun d hd email h => ?_) fun email h hout => ?_
    · obtain rfl := Option.some.inj hd
      exact ⟨h, rfl⟩
    · exact absurd h (hout (.createTenantUser pending tenantId) rfl)
  | createTenantUser pending tenantId =>
    have hnone := (hcreating (normalizeEmail pending.email) (creates_iff.mpr rfl)).1
    simp only [resumeVerification]
    split
    · rename_i hfails
      obtain ⟨user, huser⟩ := Table.insert_eq_none.mp hfails
      have hsome : s.shared.users.find? (normalizeEmail pending.email) = some user := huser
      rw [hnone] at hsome
      cases hsome
    · rename_i users hinsert
      exact hs.own hc hinsert rfl
  | createSession pending =>
    refine hs.quiet hc rfl rfl (fun d hd email h => ?_) fun _ h => by cases h
    obtain rfl := Option.some.inj hd
    cases h
  | discardSignup pending =>
    exact hs.quiet hc rfl rfl (by simp [resumeVerification]) fun _ h => by cases h

theorem provisioned_step {a : Action String Answer ℕ} (hs : Provisioned s.shared s.calls)
    (halone : LooksAlone s a) (h : (verifications slugify).step s a = some t) :
    Provisioned t.shared t.calls := by
  cases a with
  | start email =>
    obtain rfl := Option.some.inj h
    refine ⟨fun e => ?_, fun d hd e hcreates => ?_, fun e hnone => ?_⟩
    · simpa [verifications, VerificationCall.creates, VerificationCall.creating] using hs.alone e
    · rcases List.mem_append.mp hd with hold | hnew
      · exact hs.creating d hold e hcreates
      · obtain rfl := List.mem_singleton.mp hnew
        cases hcreates
    · exact hs.settled e fun d hd => hnone d (List.mem_append_left _ hd)
  | advance i answer =>
    obtain ⟨c, hc, rfl⟩ := Option.map_eq_some_iff.mp h
    exact hs.resume hc halone
  | environment elapsed =>
    obtain rfl := Option.some.inj h
    exact ⟨hs.alone, hs.creating, hs.settled⟩

theorem oneOrganisation_of_provisioned (hs : Provisioned s.shared s.calls) :
    OneOrganisation s := by
  have hcases : ∀ email, (∃ c ∈ s.calls, c.creates email ∧ Creating s.shared email c) ∨
      Settled s.shared email := by
    intro email
    by_cases hin : ∃ c ∈ s.calls, c.creates email
    · obtain ⟨c, hc, hcreates⟩ := hin
      exact .inl ⟨c, hc, hcreates, hs.creating c hc email hcreates⟩
    · exact .inr (hs.settled email fun c hc hcreates => hin ⟨c, hc, hcreates⟩)
  refine ⟨fun email => ?_, fun org horg => ?_⟩
  · rcases hcases email with ⟨c, -, -, -, horgs⟩ | hempty | ⟨org, user, horgs, -⟩
    · rw [horgs]
      cases c.organisation <;> simp
    · simp [hempty]
    · simp [horgs]
  · have hmem : org ∈ s.shared.orgsOf org.email := by simp [Store.orgsOf, horg]
    rcases hcases org.email with ⟨c, hc, -, -, horgs⟩ | hempty | ⟨org', user, horgs, huser, howner⟩
    · rw [horgs] at hmem
      exact .inr ⟨c, hc, Option.mem_toList.mp hmem⟩
    · rw [hempty] at hmem
      cases hmem
    · rw [horgs] at hmem
      obtain rfl := List.mem_singleton.mp hmem
      exact .inl ⟨user, Table.mem_of_find? huser, howner.1, Table.key_of_find? huser, howner.2⟩

/-- Over all interleavings of verifications with the right codes, from any accounts, signups
and keys: while every request looks for its account alone, an e-mail gets at most one
organisation and each organisation its owner. -/
theorem one_organisation_alone (m : Store) (as : List (Action String Answer ℕ))
    (halone : Guarded (verifications slugify).step LooksAlone (unverified m) as) :
    Throughout (verifications slugify).step OneOrganisation (unverified m) as := by
  have hstart : Provisioned (unverified m).shared (unverified m).calls :=
    ⟨by simp [unverified], by simp [unverified], fun email _ => .inl rfl⟩
  have hrun := throughout_of_guarded
    (I := fun s : State Store VerificationCall => Provisioned s.shared s.calls)
    (fun s a t hs ha h => provisioned_step hs ha h) hstart halone
  exact hrun.mono fun s hs => oneOrganisation_of_provisioned hs

end Run

def starter : SubscriptionPlan where
  id := "starter"
  name := "Starter"
  tier := .starter
  description := none
  billing := .monthly ⟨1500000, .NGN⟩ (some 100) none
  entitlements := ⟨[], .standard, [], ⟨some 100, none, none, none, none, 30⟩⟩
  trial := none
  hidden := false

/-- One pending signup, nobody else. -/
def oneSignup : Store where
  now := 0
  keys := Function.update (fun _ => none) (pendingKey "a@b.c") (some ⟨⟨"a@b.c", "Ada",
    "Analytical", "starter", "argon2id-password", "argon2id-otp", 0, 0, 0⟩, some 900000⟩)
  tenants := ∅
  subscriptions := ∅
  users := ∅
  organisations := []

def answer (n : String) : Answer :=
  ⟨some starter, n, "key-" ++ n, "sub-" ++ n, "user-" ++ n, 2592000000⟩

/-- A request with the code from its first statement to its last, and another after it. -/
def verifiedInTurn : List (Action String Answer ℕ) :=
  .start "a@b.c" :: List.replicate 10 (.advance 0 (answer "1")) ++
    [.start "a@b.c", .advance 0 (answer "2")]

theorem one_organisation_in_turn :
    (exec (verifications fun _ => "analytical").step (unverified oneSignup) verifiedInTurn).map
      (fun s => (s.shared.organisations, s.shared.users.rows.map TenantUserRecord.tenantId)) =
        some ([⟨"a@b.c", "analytical-1"⟩], ["analytical-1"]) ∧
    Throughout (verifications fun _ => "analytical").step OneOrganisation (unverified oneSignup)
      verifiedInTurn := by
  have halone : Guarded (verifications fun _ => "analytical").step LooksAlone
      (unverified oneSignup) verifiedInTurn := by decide +kernel
  exact ⟨by decide +kernel, one_organisation_alone oneSignup verifiedInTurn halone⟩

/-- Two requests with the code, statement by statement side by side. -/
def verifiedAtOnce : List (Action String Answer ℕ) :=
  .start "a@b.c" :: .start "a@b.c" ::
    (List.replicate 8 [.advance 0 (answer "1"), .advance 0 (answer "2")]).flatten

/-- Both look for an account before either inserts one: two organisations, and the second has
no owner. -/
theorem second_organisation :
    (exec (verifications fun _ => "analytical").step (unverified oneSignup) verifiedAtOnce).map
      (fun s => (s.shared.organisations, s.shared.users.rows.map TenantUserRecord.tenantId)) =
        some ([⟨"a@b.c", "analytical-1"⟩, ⟨"a@b.c", "analytical-2"⟩], ["analytical-1"]) ∧
    ¬Throughout (verifications fun _ => "analytical").step OneOrganisation (unverified oneSignup)
      verifiedAtOnce := by
  have htwo : (exec (verifications fun _ => "analytical").step (unverified oneSignup)
      verifiedAtOnce).map
      (fun s => (s.shared.organisations, s.shared.users.rows.map TenantUserRecord.tenantId)) =
        some ([⟨"a@b.c", "analytical-1"⟩, ⟨"a@b.c", "analytical-2"⟩], ["analytical-1"]) := by
    decide +kernel
  refine ⟨htwo, fun h => ?_⟩
  obtain ⟨s, hs, hfacts⟩ := Option.map_eq_some_iff.mp htwo
  have horgs : s.shared.organisations = [⟨"a@b.c", "analytical-1"⟩, ⟨"a@b.c", "analytical-2"⟩] :=
    congrArg Prod.fst hfacts
  have hone := (h.exec hs).one "a@b.c"
  rw [Store.orgsOf, horgs] at hone
  simp at hone

end HeirsOcr.Verification
