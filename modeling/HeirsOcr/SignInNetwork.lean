import HeirsOcr.IpAllowlist
import HeirsOcr.CodeGuessing

/-!
# Where a session is established

The portal and the console put the caller's address to an allowlist before the password
is looked at: the organisation's own list on one, the platform's on the other. The
second-factor request that turns a challenge into a session does not look at the list.
So a session of an account with a second factor is established wherever its code is sent
from, and the lists gate every session exactly in the runs whose right codes come from
addresses the list admits at that moment.
-/
namespace HeirsOcr.SignInNetwork
open IpAllowlist KeyedTable Login Mfa StepMachine

structure TenantSettings where
  ipAllowlistEnabled : Bool
  ipAllowlist : List String
  deriving DecidableEq, Repr

def TenantSettings.defaults : TenantSettings := ⟨false, []⟩

def tenantSettingsSchema (settings : TenantSettings) : Bool :=
  settings.ipAllowlist.all ipAllowlistEntry

/-- The stored rows of `tenant_settings`, and the `ipAllowlist` of the platform's security
settings. -/
structure Policies where
  tenantSettings : String → Option TenantSettings
  ipAllowlist : List String

/-- Defaults where there is no row, or one the schema does not accept. -/
def getTenantSettings (p : Policies) (tenantId : String) : TenantSettings :=
  ((p.tenantSettings tenantId).filter tenantSettingsSchema).getD .defaults

/-- The two surfaces that sign people in. -/
inductive Console where
  | tenant
  | admin
  deriving DecidableEq, Repr

/-- What both surfaces check credentials with, and the organisation of each portal user. -/
structure Deployment where
  argonVerify : String → String → Bool
  digests : Digests
  tenantId : String → String

/-- The network check of `POST /login`. An unknown e-mail has no organisation. -/
def ipDenied (d : Deployment) (p : Policies) (user : Option LoginUser) (ip : String) :
    Console → Bool
  | .tenant =>
    user.any fun user =>
      let settings := getTenantSettings p (d.tenantId user.id)
      settings.ipAllowlistEnabled && !isIpAllowed (some ip) settings.ipAllowlist
  | .admin => !isIpAllowed (some ip) p.ipAllowlist

def Console.surface (d : Deployment) (p : Policies) (c : Console) : Surface where
  scope :=
    match c with
    | .tenant => "tenant"
    | .admin => "admin"
  argonVerify := d.argonVerify
  digests := d.digests
  ipDenied := fun user ip => ipDenied d p user ip c

structure Portal where
  login : LoginState
  policies : Policies

inductive Action where
  | request (a : Login.Action)
  | putTenantSettings (tenantId : String) (settings : TenantSettings)
  | putSecuritySettings (ipAllowlist : List String)

section Console

variable (c : Console) (d : Deployment)

def step (s : Portal) : Action → Option Portal
  | .request a => (Login.step (c.surface d s.policies) s.login a).map fun t => { s with login := t }
  | .putTenantSettings tenantId settings =>
    if tenantSettingsSchema settings then
      some { s with policies := { s.policies with
        tenantSettings := Function.update s.policies.tenantSettings tenantId (some settings) } }
    else none
  | .putSecuritySettings ipAllowlist =>
    if ipAllowlist.all ipAllowlistEntry then
      some { s with policies := { s.policies with ipAllowlist := ipAllowlist } }
    else none

/-- The list in force for an account admits the address. -/
def admits (p : Policies) (userId ip : String) : Bool :=
  match c with
  | .tenant =>
    let settings := getTenantSettings p (d.tenantId userId)
    !settings.ipAllowlistEnabled || isIpAllowed (some ip) settings.ipAllowlist
  | .admin => isIpAllowed (some ip) p.ipAllowlist

def sessionOf : Except HttpError LoginReply → Option String
  | .ok (.session userId) => some userId
  | _ => none

/-- The account a request mints a session for, and the address it comes from. -/
def minted (s : Portal) : Action → Option (String × String)
  | .request (.login ip email password token) =>
    (sessionOf (login (c.surface d s.policies) s.login ip email password token).2).map (·, ip)
  | .request (.loginMfa ip token code at') =>
    (sessionOf (loginMfa (c.surface d s.policies) s.login ip token code at').2).map (·, ip)
  | _ => none

/-- Every session is minted for an address the list admits. -/
def Gated (s : Portal) (a : Action) : Prop :=
  ∀ m ∈ minted c d s a, admits c d s.policies m.1 m.2

instance (s : Portal) : DecidablePred (Gated c d s) := fun a =>
  inferInstanceAs (Decidable (∀ m ∈ minted c d s a, admits c d s.policies m.1 m.2))

/-- The account a second factor completes: its challenge is pending, the throttle is open,
the code is right and the account enabled. -/
def completes (s : Portal) (ip token code : String) (at' : ℤ) : Option LoginUser :=
  let surface := c.surface d s.policies
  if token = "" ∨ code = "" then none
  else
    (s.login.challenges token).bind fun pending =>
      let row := (s.login.users.find? pending.userId).elim ⟨none, false, none, none⟩ LoginUser.mfa
      match loginAllowed s.login.fails surface.scope ip pending.email,
        verifyMfa d.digests row code at' with
      | true, .ok (some _) => (s.login.users.find? pending.userId).filter fun u => !u.disabled
      | _, _ => none

/-- The condition of a step: a second factor that completes comes from an address the list
admits. -/
def SecondFactorAdmitted (s : Portal) : Action → Prop
  | .request (.loginMfa ip token code at') =>
    ∀ user ∈ completes c d s ip token code at', admits c d s.policies user.id ip
  | _ => True

end Console

section Requests

variable {c : Console} {d : Deployment} {s : Portal}

/-- Whoever is let past the network check of an account is at an admitted address. -/
theorem admits_of_not_ipDenied {p : Policies} {user : LoginUser} {ip : String}
    (h : ipDenied d p (some user) ip c = false) : admits c d p user.id ip := by
  cases c with
  | tenant =>
    simp only [ipDenied, Option.any_some, Bool.and_eq_false_iff, Bool.not_eq_false'] at h
    simpa only [admits, Bool.or_eq_true, Bool.not_eq_true'] using h
  | admin => simpa only [ipDenied, admits, Bool.not_eq_false'] using h

/-- The password step mints no session its network check would not let through. -/
theorem gated_login (ip email password token : String) :
    Gated c d s (.request (.login ip email password token)) := by
  intro m hm
  obtain ⟨userId, hreply, rfl⟩ := Option.map_eq_some_iff.mp hm
  unfold login at hreply
  by_cases hargs : email = "" ∨ password = ""
  · rw [if_pos hargs] at hreply
    cases hreply
  rw [if_neg hargs] at hreply
  by_cases hallow : !loginAllowed s.login.fails (c.surface d s.policies).scope ip email
  · rw [if_pos hallow] at hreply
    cases hreply
  rw [if_neg hallow] at hreply
  by_cases hip : (c.surface d s.policies).ipDenied (getUserByEmail s.login.users email) ip
  · simp only [hip, if_true] at hreply
    cases hreply
  simp only [hip, Bool.false_eq_true, if_false] at hreply
  cases hu : (getUserByEmail s.login.users email).filter fun u =>
      verifyPassword (c.surface d s.policies) u password with
  | none =>
    rw [hu] at hreply
    cases hreply
  | some user =>
    rw [hu] at hreply
    obtain ⟨huser, -⟩ := Option.filter_eq_some_iff.mp hu
    have hadmits : admits c d s.policies user.id ip := by
      rw [huser] at hip
      exact admits_of_not_ipDenied (Bool.not_eq_true _ ▸ hip)
    by_cases hmfa : user.mfa.enabled
    · simp only [hmfa, if_true] at hreply
      cases hreply
    · simp only [hmfa, Bool.false_eq_true, if_false] at hreply
      obtain rfl := Option.some.inj hreply
      exact hadmits

/-- Storing a row's second factor changes nobody's id or state. -/
theorem find?_setMfa (t : LoginState) (userId token : String) (row : MfaRow) :
    (((t.setMfa userId row).consume token).users.find? userId).filter (fun u => !u.disabled) =
      ((t.users.find? userId).filter fun u => !u.disabled).map fun u => { u with mfa := row } := by
  simp only [LoginState.setMfa, LoginState.consume, Table.find?_update]
  cases hu : t.users.find? userId with
  | none => rfl
  | some user =>
    have hid : user.id = userId := Table.key_of_find? hu
    cases hd : user.disabled <;> simp [hid, hd, Option.filter]

/-- The second-factor step mints a session for the account it completes. -/
theorem sessionOf_loginMfa (ip token code : String) (at' : ℤ) :
    sessionOf (loginMfa (c.surface d s.policies) s.login ip token code at').2 =
      (completes c d s ip token code at').map LoginUser.id := by
  unfold loginMfa completes
  by_cases hargs : token = "" ∨ code = ""
  · rw [if_pos hargs, if_pos hargs]
    rfl
  rw [if_neg hargs, if_neg hargs]
  cases hpending : s.login.challenges token with
  | none => rfl
  | some pending =>
    simp only [Option.bind_some]
    cases hallow : loginAllowed s.login.fails (c.surface d s.policies).scope ip pending.email with
    | false => simp [sessionOf]
    | true =>
      simp only [Bool.not_true, Bool.false_eq_true, if_false]
      have hdigests : (c.surface d s.policies).digests = d.digests := rfl
      rw [hdigests]
      split
      · simp [sessionOf, *]
      · simp [sessionOf, *]
      · rename_i row' hverify
        rw [hverify]
        simp only [find?_setMfa]
        cases (s.login.users.find? pending.userId).filter fun u => !u.disabled <;> rfl

end Requests

/-- In every run, whatever the lists become, every session is minted for an address the
list then admits exactly when every second factor that completes comes from one. -/
theorem sessions_gated_iff (c : Console) (d : Deployment) (s : Portal) (as : List Action) :
    Along (step c d) (fun s a _ => Gated c d s a) s as ↔
      Guarded (step c d) (SecondFactorAdmitted c d) s as := by
  refine along_iff_guarded (I := fun _ => True) (fun s a t _ _ => ?_) (fun _ _ _ _ _ _ => trivial)
    trivial
  cases a with
  | request r =>
    cases r with
    | login ip email password token =>
      exact iff_of_true (gated_login ip email password token) trivial
    | loginMfa ip token code at' =>
      simp only [Gated, minted, SecondFactorAdmitted, sessionOf_loginMfa, Option.map_map]
      cases completes c d s ip token code at' <;> simp
    | windowEnds | challengeExpires | usersChange => simp [Gated, minted, SecondFactorAdmitted]
  | putTenantSettings | putSecuritySettings => simp [Gated, minted, SecondFactorAdmitted]

/-- One account with a second factor, in an organisation that admits one network. -/
def officeOnly : Portal where
  login := enrolledUser
  policies := ⟨fun _ => some ⟨true, ["203.0.113.0/24"]⟩, ["203.0.113.0/24"]⟩

def acme : Deployment where
  argonVerify := portal.argonVerify
  digests := portal.digests
  tenantId _ := "acme"

/-- The password is sent from the office and the code from elsewhere, on either surface. -/
theorem session_minted_elsewhere :
    ¬Along (step .tenant acme) (fun s a _ => Gated .tenant acme s a) officeOnly
      [.request (.login "203.0.113.9" "ada@acme.test" "hunter22" "t1"),
        .request (.loginMfa "198.51.100.7" "t1" "287082" 59000)] ∧
    ¬Along (step .admin acme) (fun s a _ => Gated .admin acme s a) officeOnly
      [.request (.login "203.0.113.9" "ada@acme.test" "hunter22" "t1"),
        .request (.loginMfa "198.51.100.7" "t1" "287082" 59000)] := by
  decide

end HeirsOcr.SignInNetwork
