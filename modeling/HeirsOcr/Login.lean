import HeirsOcr.Errors
import HeirsOcr.KeyedTable
import HeirsOcr.Mfa

/-!
# Password login, second factor and the throttle between them

`POST /login` and `POST /login/mfa` with the failure counters they share. Both surfaces
run the same two handlers; they differ in the scope of their buckets and in the network
check, which are parameters. A request is one step. Redis is up: on an outage the
throttle lets everything through by design. Beside the store the state keeps, for each
e-mail bucket, how many wrong codes were evaluated in the current window since the last
completed login.
-/
namespace HeirsOcr.Login
open JsText KeyedTable Mfa StepMachine

def MAX_PER_EMAIL : ℕ := 10

def MAX_PER_IP : ℕ := 30

def normalizeEmail (email : String) : String :=
  String.ofList (toLowerCase (trim email.toList))

/-- A user record of either surface. -/
structure LoginUser where
  id : String
  email : String
  disabled : Bool
  passwordHash : String
  mfa : MfaRow
  deriving DecidableEq, Repr

/-- A Redis key of the throttle. -/
inductive Bucket where
  | email (scope address : String)
  | ip (scope address : String)
  deriving DecidableEq, Repr

def emailKey (scope email : String) : Bucket := .email scope (normalizeEmail email)

def ipKey (scope ip : String) : Bucket := .ip scope ip

/-- The failure counters; an absent key counts as zero. -/
abbrev Counters := Bucket → ℕ

def loginAllowed (fails : Counters) (scope ip email : String) : Bool :=
  fails (ipKey scope ip) < MAX_PER_IP && fails (emailKey scope email) < MAX_PER_EMAIL

def bump (fails : Counters) (key : Bucket) : Counters :=
  Function.update fails key (fails key + 1)

theorem bump_apply (fails : Counters) (key key' : Bucket) :
    bump fails key key' = fails key' + if key' = key then 1 else 0 := by
  by_cases hkey : key' = key
  · simp [bump, hkey]
  · simp [bump, hkey]

def recordLoginFailure (fails : Counters) (scope ip email : String) : Counters :=
  bump (bump fails (ipKey scope ip)) (emailKey scope email)

def clearLoginFailures (fails : Counters) (scope ip email : String) : Counters :=
  Function.update (Function.update fails (ipKey scope ip) 0) (emailKey scope email) 0

structure MfaChallenge where
  userId : String
  email : String
  deriving DecidableEq, Repr

/-- A surface: its bucket scope, its password check (false where the check throws), its
digests, and the network rule that refuses a sign-in. -/
structure Surface where
  scope : String
  argonVerify : String → String → Bool
  digests : Digests
  ipDenied : Option LoginUser → String → Bool

structure LoginState where
  users : Table LoginUser.id
  fails : Counters
  challenges : String → Option MfaChallenge
  sessions : List String
  wrongCodes : Counters

inductive LoginReply where
  | mfaRequired (challenge : String)
  | session (userId : String)
  deriving DecidableEq, Repr

variable (surface : Surface)

def getUserByEmail (users : Table LoginUser.id) (email : String) : Option LoginUser :=
  users.rows.find? fun u => u.email = normalizeEmail email

def verifyPassword (user : LoginUser) (plain : String) : Bool :=
  !user.disabled && surface.argonVerify user.passwordHash plain

/-- A login is complete: a session, clear counters, and nothing left of the wrong codes. -/
def LoginState.complete (s : LoginState) (userId ip email : String) : LoginState :=
  { s with
    fails := clearLoginFailures s.fails surface.scope ip email
    sessions := userId :: s.sessions
    wrongCodes := Function.update s.wrongCodes (emailKey surface.scope email) 0 }

/-- `POST /login`; `token` is the handle a challenge would get. -/
def login (s : LoginState) (ip email password token : String) :
    LoginState × Except HttpError LoginReply :=
  if email = "" ∨ password = "" then
    (s, .error ⟨400, "INVALID_ARGS", "email and password are required"⟩)
  else if !loginAllowed s.fails surface.scope ip email then
    (s, .error ⟨429, "RATE_LIMITED", "Too many failed attempts. Try again later."⟩)
  else
    let user := getUserByEmail s.users email
    if surface.ipDenied user ip then
      (s, .error ⟨403, "FORBIDDEN", "Sign-in is not permitted from this network"⟩)
    else
      match user.filter fun u => verifyPassword surface u password with
      | none =>
        ({ s with fails := recordLoginFailure s.fails surface.scope ip email },
          .error ⟨401, "UNAUTHORIZED", "Invalid email or password"⟩)
      | some user =>
        if user.mfa.enabled then
          ({ s with
              challenges := Function.update s.challenges token (some ⟨user.id, user.email⟩)
              fails := clearLoginFailures s.fails surface.scope ip email },
            .ok (.mfaRequired token))
        else (s.complete surface user.id ip email, .ok (.session user.id))

def LoginState.setMfa (s : LoginState) (userId : String) (row : MfaRow) : LoginState :=
  { s with
    users :=
      s.users.update (fun u => u.id = userId) (fun u => { u with mfa := row }) (fun _ => rfl) }

def LoginState.consume (s : LoginState) (token : String) : LoginState :=
  { s with challenges := Function.update s.challenges token none }

/-- `verifyMfa` as one step: the read, and the write when the code is good. -/
def verifyMfa (d : Digests) (row : MfaRow) (code : String) (at' : ℤ) :
    Except MfaError (Option MfaRow) :=
  match readVerify d row code at' with
  | .error e => .error e
  | .ok none => .ok none
  | .ok (some w) => .ok (some (runWrite row w))

/-- `POST /login/mfa`. -/
def loginMfa (s : LoginState) (ip token code : String) (at' : ℤ) :
    LoginState × Except HttpError LoginReply :=
  if token = "" ∨ code = "" then
    (s, .error ⟨400, "INVALID_ARGS", "challenge and code are required"⟩)
  else
    match s.challenges token with
    | none => (s, .error ⟨401, "UNAUTHORIZED", "Login session expired. Sign in again."⟩)
    | some pending =>
      if !loginAllowed s.fails surface.scope ip pending.email then
        (s, .error ⟨429, "RATE_LIMITED", "Too many failed attempts. Try again later."⟩)
      else
        let row := (s.users.find? pending.userId).elim ⟨none, false, none, none⟩ LoginUser.mfa
        match verifyMfa surface.digests row code at' with
        | .error _ =>
          (s, .error ⟨503, "PROVIDER_UNAVAILABLE", "Authentication store unavailable"⟩)
        | .ok none =>
          ({ s with
              fails := recordLoginFailure s.fails surface.scope ip pending.email
              wrongCodes := bump s.wrongCodes (emailKey surface.scope pending.email) },
            .error ⟨401, "UNAUTHORIZED", "Invalid verification code"⟩)
        | .ok (some row') =>
          let t := (s.setMfa pending.userId row').consume token
          match (t.users.find? pending.userId).filter fun u => !u.disabled with
          | none => (t, .error ⟨401, "UNAUTHORIZED", "Invalid email or password"⟩)
          | some user =>
            (t.complete surface user.id ip pending.email, .ok (.session user.id))

/-- A request, the end of a bucket's window, the expiry of a challenge, or any other
change of the user registry. -/
inductive Action where
  | login (ip email password token : String)
  | loginMfa (ip token code : String) (at' : ℤ)
  | windowEnds (key : Bucket)
  | challengeExpires (token : String)
  | usersChange (users : Table LoginUser.id)

def step (s : LoginState) : Action → Option LoginState
  | .login ip email password token => some (login surface s ip email password token).1
  | .loginMfa ip token code at' => some (loginMfa surface s ip token code at').1
  | .windowEnds key =>
    some { s with
      fails := Function.update s.fails key 0
      wrongCodes := Function.update s.wrongCodes key 0 }
  | .challengeExpires token => some (s.consume token)
  | .usersChange users => some { s with users := users }

/-- The request gets past the password of an account that has a second factor. -/
def passesPassword (s : LoginState) (ip email password : String) : Bool :=
  decide (email ≠ "" ∧ password ≠ "") && loginAllowed s.fails surface.scope ip email &&
    !surface.ipDenied (getUserByEmail s.users email) ip &&
    (getUserByEmail s.users email).any fun u => verifyPassword surface u password && u.mfa.enabled

/-- Everything a login request can do to the counters. -/
theorem login_cases (s : LoginState) (ip email password token : String) {t : LoginState}
    (ht : (login surface s ip email password token).1 = t) :
    t.fails = s.fails ∧ t.wrongCodes = s.wrongCodes ∨
    t.fails = recordLoginFailure s.fails surface.scope ip email ∧ t.wrongCodes = s.wrongCodes ∨
    (passesPassword surface s ip email password ∧
      t.fails = clearLoginFailures s.fails surface.scope ip email ∧
        t.wrongCodes = s.wrongCodes) ∨
    ∃ userId, t = s.complete surface userId ip email := by
  unfold login at ht
  by_cases hargs : email = "" ∨ password = ""
  · rw [if_pos hargs] at ht
    exact Or.inl (ht ▸ ⟨rfl, rfl⟩)
  rw [if_neg hargs] at ht
  cases hallow : loginAllowed s.fails surface.scope ip email with
  | false =>
    simp only [hallow, Bool.not_false, if_true] at ht
    exact Or.inl (ht ▸ ⟨rfl, rfl⟩)
  | true =>
    simp only [hallow, Bool.not_true, Bool.false_eq_true, if_false] at ht
    cases hip : surface.ipDenied (getUserByEmail s.users email) ip with
    | true =>
      simp only [hip, if_true] at ht
      exact Or.inl (ht ▸ ⟨rfl, rfl⟩)
    | false =>
      simp only [hip, Bool.false_eq_true, if_false] at ht
      cases hu : (getUserByEmail s.users email).filter fun u => verifyPassword surface u password
      with
      | none =>
        simp only [hu] at ht
        exact Or.inr (Or.inl (ht ▸ ⟨rfl, rfl⟩))
      | some user =>
        obtain ⟨huser, hpw⟩ := Option.filter_eq_some_iff.mp hu
        simp only [hu] at ht
        cases hmfa : user.mfa.enabled with
        | true =>
          simp only [hmfa, if_true] at ht
          have hpass : passesPassword surface s ip email password := by
            rw [huser] at hip
            simp only [not_or] at hargs
            simp [passesPassword, hargs, hallow, hip, huser, hmfa, hpw]
          exact Or.inr (Or.inr (Or.inl ⟨hpass, ht ▸ ⟨rfl, rfl⟩⟩))
        | false =>
          simp only [hmfa, Bool.false_eq_true, if_false] at ht
          exact Or.inr (Or.inr (Or.inr ⟨user.id, ht.symm⟩))

/-- What a login request answers tells what it did to the counters: a `401` recorded a failure,
a success cleared them, and any other refusal left them alone. -/
theorem login_reply {s t : LoginState} {ip email password token : String}
    {reply : Except HttpError LoginReply}
    (h : login surface s ip email password token = (t, reply)) :
    (t.fails = s.fails ∧ ∃ e, reply = .error e ∧ e.status ≠ 401) ∨
    (loginAllowed s.fails surface.scope ip email ∧
      t.fails = recordLoginFailure s.fails surface.scope ip email ∧
      ∃ e, reply = .error e ∧ e.status = 401) ∨
    (t.fails = clearLoginFailures s.fails surface.scope ip email ∧
      (getUserByEmail s.users email).isSome ∧ ∃ r, reply = .ok r) := by
  simp only [login] at h
  split_ifs at h with hargs hthrottled hdenied
  · obtain ⟨rfl, rfl⟩ := h
    exact .inl ⟨rfl, _, rfl, by simp⟩
  · obtain ⟨rfl, rfl⟩ := h
    exact .inl ⟨rfl, _, rfl, by simp⟩
  · obtain ⟨rfl, rfl⟩ := h
    exact .inl ⟨rfl, _, rfl, by simp⟩
  · have hallowed : loginAllowed s.fails surface.scope ip email := by simpa using hthrottled
    cases hu : (getUserByEmail s.users email).filter fun u => verifyPassword surface u password with
    | none =>
      simp only [hu] at h
      obtain ⟨rfl, rfl⟩ := h
      exact .inr (.inl ⟨hallowed, rfl, _, rfl, rfl⟩)
    | some user =>
      have hsome : (getUserByEmail s.users email).isSome := by
        rw [(Option.filter_eq_some_iff.mp hu).1]
        rfl
      simp only [hu] at h
      split_ifs at h with hmfa
      · obtain ⟨rfl, rfl⟩ := h
        exact .inr (.inr ⟨rfl, hsome, _, rfl⟩)
      · obtain ⟨rfl, rfl⟩ := h
        exact .inr (.inr ⟨rfl, hsome, _, rfl⟩)

/-- Everything a second-factor request can do to the counters. -/
theorem loginMfa_cases (s : LoginState) (ip token code : String) (at' : ℤ) {t : LoginState}
    (ht : (loginMfa surface s ip token code at').1 = t) :
    t.fails = s.fails ∧ t.wrongCodes = s.wrongCodes ∨
    ∃ email, loginAllowed s.fails surface.scope ip email ∧
      (t.fails = recordLoginFailure s.fails surface.scope ip email ∧
        t.wrongCodes = bump s.wrongCodes (emailKey surface.scope email) ∨
      t.fails = clearLoginFailures s.fails surface.scope ip email ∧
        t.wrongCodes = Function.update s.wrongCodes (emailKey surface.scope email) 0) := by
  unfold loginMfa at ht
  by_cases hargs : token = "" ∨ code = ""
  · rw [if_pos hargs] at ht
    exact Or.inl (ht ▸ ⟨rfl, rfl⟩)
  rw [if_neg hargs] at ht
  cases hch : s.challenges token with
  | none =>
    simp only [hch] at ht
    exact Or.inl (ht ▸ ⟨rfl, rfl⟩)
  | some pending =>
    simp only [hch] at ht
    cases hallow : loginAllowed s.fails surface.scope ip pending.email with
    | false =>
      simp only [hallow, Bool.not_false, if_true] at ht
      exact Or.inl (ht ▸ ⟨rfl, rfl⟩)
    | true =>
      simp only [hallow, Bool.not_true, Bool.false_eq_true, if_false] at ht
      split at ht
      · exact Or.inl (ht ▸ ⟨rfl, rfl⟩)
      · exact Or.inr ⟨pending.email, hallow, Or.inl (ht ▸ ⟨rfl, rfl⟩)⟩
      · split at ht
        · exact Or.inl (ht ▸ ⟨rfl, rfl⟩)
        · exact Or.inr ⟨pending.email, hallow, Or.inr (ht ▸ ⟨rfl, rfl⟩)⟩

/-- What a second-factor request answers tells whether it cleared the counters. -/
theorem loginMfa_reply {s t : LoginState} {ip token code : String} {at' : ℤ}
    {reply : Except HttpError LoginReply}
    (h : loginMfa surface s ip token code at' = (t, reply)) :
    ((t.fails = s.fails ∨
        ∃ email, t.fails = recordLoginFailure s.fails surface.scope ip email) ∧
      ∃ e, reply = .error e) ∨
    ∃ email, t.fails = clearLoginFailures s.fails surface.scope ip email ∧ ∃ r, reply = .ok r := by
  simp only [loginMfa] at h
  split_ifs at h with hargs
  · obtain ⟨rfl, rfl⟩ := h
    exact .inl ⟨.inl rfl, _, rfl⟩
  · cases hch : s.challenges token with
    | none =>
      simp only [hch] at h
      obtain ⟨rfl, rfl⟩ := h
      exact .inl ⟨.inl rfl, _, rfl⟩
    | some pending =>
      simp only [hch] at h
      split_ifs at h with hthrottled
      · obtain ⟨rfl, rfl⟩ := h
        exact .inl ⟨.inl rfl, _, rfl⟩
      · split at h
        · obtain ⟨rfl, rfl⟩ := h
          exact .inl ⟨.inl rfl, _, rfl⟩
        · obtain ⟨rfl, rfl⟩ := h
          exact .inl ⟨.inr ⟨pending.email, rfl⟩, _, rfl⟩
        · split at h
          · obtain ⟨rfl, rfl⟩ := h
            exact .inl ⟨.inl rfl, _, rfl⟩
          · obtain ⟨rfl, rfl⟩ := h
            exact .inr ⟨pending.email, rfl, _, rfl⟩

end HeirsOcr.Login
