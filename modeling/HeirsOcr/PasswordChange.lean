import HeirsOcr.Login
import HeirsOcr.PortalKeys

/-!
# Password changes among sign-ins, one command at a time

One portal account: its row in `tenant_users`, its sessions with the index `revokeOthers`
reads, its pending challenges and its mailed reset links. A request runs one SQL statement
or Redis command a step, and other requests run in between. A request that the throttle or
the password policy refuses does none of this and is left out, and so are the commands that
only feed the throttle and the audit log.

Beside the store the state counts the passwords the account has had, keeps with each
session and challenge the number of the password it was obtained with, and keeps the
highest number a completed change issued.
-/
namespace HeirsOcr.PasswordChange
open KeyedTable Login Mfa StepMachine
open TenantKeys (TenantRole)

/-- The row of the account; `version` is the number of its password. -/
structure TenantUser extends LoginUser where
  role : TenantRole
  version : ℕ
  deriving DecidableEq, Repr

/-- A session or a challenge, with the number of the password it was obtained with. -/
structure Handle where
  token : String
  version : ℕ
  deriving DecidableEq, Repr

structure UpdateTenantUserInput where
  role : Option TenantRole
  disabled : Option Bool
  password : Option String
  deriving DecidableEq, Repr

/-- The three endpoints that set a password. -/
inductive Change where
  | reset
  | self (token : String)
  | owner
  deriving DecidableEq, Repr

/-- The session a change keeps. -/
def Change.keep : Change → Option String
  | .self token => some token
  | _ => none

/-- A request under way, by the command it runs next and what it has read so far. -/
inductive Call where
  | isMfaEnabled (version : ℕ)
  | createChallenge (version : ℕ)
  | createSession (version : ℕ)
  | indexAdd (token : String)
  | verifyMfa (challenge : Handle) (code : String) (at' : ℤ)
  | spendFactor (challenge : Handle) (write : Write)
  | rereadUser (challenge : Handle)
  | consumeChallenge (challenge : Handle) (completes : Bool)
  /-- The read of the account behind a session; a self-service change goes on from it. -/
  | revalidate (session : Handle) (change : Option (String × String))
  | verifyCurrent (token current next : String)
  | consumePasswordReset (link password : String)
  | readResetUser (password : String)
  | updateTenantUser (change : Change) (patch : UpdateTenantUserInput)
  | revokeOthers (change : Change) (version : ℕ)
  | deleteSessions (change : Change) (version : ℕ) (doomed : List String)
  | indexRemove (change : Change) (version : ℕ) (doomed : List String)
  | respond (change : Change) (version : ℕ)
  deriving DecidableEq, Repr

/-- A session that resolved, with the highest completed change at that moment. -/
structure Resolution where
  version : ℕ
  completed : ℕ
  deriving DecidableEq, Repr

structure Portal where
  user : Option TenantUser
  challenges : Table Handle.token
  sessions : Table Handle.token
  index : List String
  links : List String
  calls : List Call
  completed : ℕ
  resolved : List Resolution

/-- Requests, the next command of the `i`th of them, and what else happens to the keys and
the row. `token` is what the command draws if it draws one, `up` whether Redis answers where
the source goes on without it. -/
inductive Action where
  | login (ip email password : String)
  | loginMfa (challenge code : String) (at' : ℤ)
  | resolveSession (token : String)
  | changePassword (token current next : String)
  | resetPassword (link password : String)
  | patchUser (patch : UpdateTenantUserInput) (countOwners : ℕ)
  | advance (i : ℕ) (token : String) (up : Bool)
  /-- The request dies: its command throws, or its process goes down. -/
  | fail (i : ℕ)
  | sessionGone (token : String)
  | challengeGone (token : String)
  | indexGone (tokens : List String)
  | linkMailed (link : String)
  | linkGone (link : String)
  | setMfa (row : MfaRow)
  | deleteTenantUser

def Portal.call (s : Portal) (c : Call) : Portal := { s with calls := s.calls ++ [c] }

/-- The `i`th request leaves the queue. -/
def Portal.leave (s : Portal) (i : ℕ) : Portal := { s with calls := s.calls.eraseIdx i }

/-- The account exists and is not disabled. -/
def Portal.enabled (s : Portal) : Bool := s.user.any fun u => !u.disabled

/-- `SET` of a key. -/
def put (t : Table Handle.token) (h : Handle) : Table Handle.token :=
  t.upsert h (fun old new => { old with version := new.version }) fun _ => rfl

/-- The session a completed change kept passes for one of the new password. -/
def Handle.renew (change : Change) (version : ℕ) (h : Handle) : Handle :=
  if some h.token = change.keep then { h with version := max h.version version } else h

@[simp] theorem Handle.renew_token (change : Change) (version : ℕ) (h : Handle) :
    (h.renew change version).token = h.token := by
  rw [Handle.renew]
  split_ifs <;> rfl

theorem Handle.le_renew (change : Change) (version : ℕ) (h : Handle) :
    h.version ≤ (h.renew change version).version := by
  rw [Handle.renew]
  split_ifs
  · exact le_max_left _ _
  · exact le_rfl

theorem Handle.le_renew_of_keep {change : Change} {h : Handle} (version : ℕ)
    (hkeep : some h.token = change.keep) : version ≤ (h.renew change version).version := by
  rw [Handle.renew, if_pos hkeep]
  exact le_max_right _ _

def Call.renew (change : Change) (version : ℕ) : Call → Call
  | .revalidate session next => .revalidate (session.renew change version) next
  | c => c

def Portal.complete (s : Portal) (change : Change) (version : ℕ) : Portal :=
  { s with
    sessions := s.sessions.update (fun _ => true) (Handle.renew change version)
      (Handle.renew_token change version)
    calls := s.calls.map (Call.renew change version)
    completed := max s.completed version }

/-- The password an update sets; an empty one counts as none. -/
def UpdateTenantUserInput.newPassword (patch : UpdateTenantUserInput) : Option String :=
  patch.password.filter (· ≠ "")

/-- The number of the password an update issues, zero when it sets none. -/
def UpdateTenantUserInput.issues (patch : UpdateTenantUserInput) (u : TenantUser) : ℕ :=
  if patch.newPassword.isSome then u.version + 1 else 0

section Handlers

variable (surface : Surface) (hashPassword : String → String)

/-- The `UPDATE` of `updateTenantUser`. -/
def updated (patch : UpdateTenantUserInput) (u : TenantUser) : TenantUser :=
  { u with
    role := patch.role.getD u.role
    disabled := patch.disabled.getD u.disabled
    passwordHash := patch.newPassword.elim u.passwordHash hashPassword
    version := max u.version (patch.issues u) }

/-- A request runs its next command; it is off the queue and joins it again if there is
another. -/
def resume (s : Portal) (token : String) (up : Bool) : Call → Portal
  | .isMfaEnabled version =>
    s.call (if s.user.any fun u => u.mfa.enabled then .createChallenge version
      else .createSession version)
  | .createChallenge version => { s with challenges := put s.challenges ⟨token, version⟩ }
  | .createSession version =>
    Portal.call { s with sessions := put s.sessions ⟨token, version⟩ } (.indexAdd token)
  | .indexAdd token => if up then { s with index := s.index.insert token } else s
  | .verifyMfa challenge code at' =>
    let row := s.user.elim ⟨none, false, none, none⟩ fun u => u.mfa
    match readVerify surface.digests row code at' with
    | .ok (some write) => s.call (.spendFactor challenge write)
    | _ => s
  | .spendFactor challenge write =>
    Portal.call { s with user := s.user.map fun u => { u with mfa := runWrite u.mfa write } }
      (.rereadUser challenge)
  | .rereadUser challenge => s.call (.consumeChallenge challenge s.enabled)
  | .consumeChallenge challenge completes =>
    let t := { s with challenges := s.challenges.delete fun h => h.token = challenge.token }
    if completes then t.call (.createSession challenge.version) else t
  | .revalidate session change =>
    if s.enabled then
      let t := { s with resolved := s.resolved ++ [⟨session.version, s.completed⟩] }
      match change with
      | none => t
      | some (current, next) => t.call (.verifyCurrent session.token current next)
    else s
  | .verifyCurrent token current next =>
    if (s.user.any fun u => verifyPassword surface u.toLoginUser current) && next ≠ current then
      s.call (.updateTenantUser (.self token) ⟨none, none, some next⟩)
    else s
  | .consumePasswordReset link password =>
    if link ∈ s.links then
      Portal.call { s with links := s.links.erase link } (.readResetUser password)
    else s
  | .readResetUser password =>
    if s.enabled then s.call (.updateTenantUser .reset ⟨none, none, some password⟩) else s
  | .updateTenantUser change patch =>
    let version := s.user.elim 0 patch.issues
    Portal.call { s with user := s.user.map (updated hashPassword patch) }
      (if change = .owner then .respond change version else .revokeOthers change version)
  | .revokeOthers change version =>
    let doomed := s.index.filter fun token => some token ≠ change.keep
    s.call (if up && doomed ≠ [] then .deleteSessions change version doomed
      else .respond change version)
  | .deleteSessions change version doomed =>
    Portal.call { s with sessions := s.sessions.delete fun h => h.token ∈ doomed }
      (.indexRemove change version doomed)
  | .indexRemove change version doomed =>
    Portal.call { s with index := if up then s.index.filter (· ∉ doomed) else s.index }
      (.respond change version)
  | .respond change version => s.complete change version

/-- The owner's guard against demoting or disabling the last owner. -/
def removesOwner (patch : UpdateTenantUserInput) (target : TenantUser) : Bool :=
  target.role = .owner && (patch.role.any (· ≠ .owner) || patch.disabled = some true)

/-- The first command of each request, and the other events. -/
def step (s : Portal) : Action → Option Portal
  | .login ip email password =>
    let user := s.user.filter fun u => u.email = normalizeEmail email &&
      !surface.ipDenied (some u.toLoginUser) ip && verifyPassword surface u.toLoginUser password
    some (user.elim s fun u => s.call (.isMfaEnabled u.version))
  | .loginMfa challenge code at' =>
    some ((s.challenges.find? challenge).elim s fun h => s.call (.verifyMfa h code at'))
  | .resolveSession token =>
    some ((s.sessions.find? token).elim s fun h => s.call (.revalidate h none))
  | .changePassword token current next =>
    some ((s.sessions.find? token).elim s fun h => s.call (.revalidate h (some (current, next))))
  | .resetPassword link password =>
    some (if link ∈ s.links then s.call (.consumePasswordReset link password) else s)
  | .patchUser patch countOwners =>
    some (s.user.elim s fun target =>
      if removesOwner patch target && countOwners ≤ 1 then s
      else s.call (.updateTenantUser .owner patch))
  | .advance i token up =>
    s.calls[i]?.map fun c => resume surface hashPassword (s.leave i) token up c
  | .fail i => some (s.leave i)
  | .sessionGone token => some { s with sessions := s.sessions.delete fun h => h.token = token }
  | .challengeGone token =>
    some { s with challenges := s.challenges.delete fun h => h.token = token }
  | .indexGone tokens => some { s with index := s.index.filter (· ∉ tokens) }
  | .linkMailed link => some { s with links := link :: s.links }
  | .linkGone link => some { s with links := s.links.erase link }
  | .setMfa row => some { s with user := s.user.map fun u => { u with mfa := row } }
  | .deleteTenantUser => some { s with user := none }

end Handlers

section Alone

variable {surface : Surface} {hashPassword : String → String} {s : Portal} {ℓ : LoginState}
  {ip email password token : String} {reply : LoginReply}

/-- Who a sign-in lets past the password, and with what. -/
theorem passed_of_login (h : (login surface ℓ ip email password token).2 = .ok reply) :
    ∃ u, getUserByEmail ℓ.users email = some u ∧ surface.ipDenied (some u) ip = false ∧
      verifyPassword surface u password = true ∧
      reply = if u.mfa.enabled then .mfaRequired token else .session u.id := by
  unfold login at h
  split_ifs at h with hargs hallowed
  cases hdenied : surface.ipDenied (getUserByEmail ℓ.users email) ip with
  | true => simp [hdenied] at h
  | false =>
    cases hu : (getUserByEmail ℓ.users email).filter fun u => verifyPassword surface u password
    with
    | none => simp [hdenied, hu] at h
    | some u =>
      obtain ⟨huser, hpassword⟩ := Option.filter_eq_some_iff.mp hu
      refine ⟨u, huser, huser ▸ hdenied, hpassword, ?_⟩
      simp only [hdenied, hu, Bool.false_eq_true, if_false] at h
      split_ifs at h ⊢ with hmfa
      · exact (Except.ok.inj h).symm
      · exact (Except.ok.inj h).symm

/-- With nothing in between, the commands of a sign-in leave what `Login.login` answers with:
a challenge, or a session, of the present password. -/
theorem exec_login (hidle : s.calls = [])
    (husers : ℓ.users.rows = s.user.toList.map TenantUser.toLoginUser)
    (h : (login surface ℓ ip email password token).2 = .ok reply) :
    ∃ u, s.user = some u ∧
      reply = (if u.mfa.enabled then .mfaRequired token else .session u.id) ∧
      exec (step surface hashPassword) s
        [.login ip email password, .advance 0 token true, .advance 0 token true] =
      some (if u.mfa.enabled then { s with challenges := put s.challenges ⟨token, u.version⟩ }
        else { s with
          sessions := put s.sessions ⟨token, u.version⟩
          calls := [.indexAdd token] }) := by
  obtain ⟨user, huser, hdenied, hpassword, hreply⟩ := passed_of_login h
  rw [getUserByEmail, husers] at huser
  have hemail : user.email = normalizeEmail email := by simpa using List.find?_some huser
  obtain ⟨u, hu, rfl⟩ := List.mem_map.mp (List.mem_of_find?_eq_some huser)
  rw [Option.mem_toList] at hu
  refine ⟨u, hu, hreply, ?_⟩
  have hpassed : (s.user.filter fun u => u.email = normalizeEmail email &&
      !surface.ipDenied (some u.toLoginUser) ip &&
        verifyPassword surface u.toLoginUser password) = some u := by
    rw [hu]
    exact Option.filter_eq_some_iff.mpr ⟨rfl, by simp [hemail, hdenied, hpassword]⟩
  simp only [exec, step, hpassed, Option.elim_some, Portal.call, hidle]
  cases hmfa : u.mfa.enabled <;> simp [Portal.leave, resume, Portal.call, hu, hmfa]

end Alone

end HeirsOcr.PasswordChange
