import HeirsOcr.CodeGuessing

/-!
# How many passwords can be guessed

Four endpoints compare a submitted password with the account's: the login, the password
change, and the two that give up or renew a second factor. The first two ask the throttle and
record what was wrong. The others do neither, so a session is enough to try passwords
without end. Where these two see right passwords only, the throttle bounds the rest.

A request is one step, and Redis is up. Beside the store the state counts, for each e-mail,
the wrong passwords compared in the current window since the last right one.
-/
namespace HeirsOcr.PasswordGuessing
open JsText KeyedTable Mfa StepMachine
open Login (Counters Bucket LoginState LoginUser LoginReply Surface MAX_PER_EMAIL emailKey ipKey
  bump getUserByEmail verifyPassword loginAllowed recordLoginFailure clearLoginFailures
  normalizeEmail)

/-- Length as the source counts it, in UTF-16 code units. -/
def utf16Length (text : String) : ℕ :=
  (text.toList.map fun c => if c.toNat < 0x10000 then 1 else 2).sum

def HARD_MINIMUM : ℕ := 8

def MAXIMUM : ℕ := 200

/-- `passwordMinLength` is absent where the settings cannot be read. -/
def assertPasswordPolicy (passwordMinLength : Option ℕ) (password : String) :
    Except String Unit :=
  let minimum := max HARD_MINIMUM (passwordMinLength.getD 0)
  if utf16Length password < minimum then
    .error s!"Password must be at least {minimum} characters"
  else if MAXIMUM < utf16Length password then
    .error s!"Password must be at most {MAXIMUM} characters"
  else .ok ()

/-- What a request leaves: the store, the account whose password it compared with whether it
was right, and the reply. -/
structure Outcome (ρ : Type) where
  store : LoginState
  compared : Option (LoginUser × Bool)
  reply : Except HttpError ρ

section Handlers

variable (surface : Surface) (hashPassword : String → String)

/-- The reply of `POST /login` tells the comparison: it has a `401` for a wrong password, or for
no account. -/
def login (s : LoginState) (ip email password token : String) : Outcome LoginReply :=
  let done := Login.login surface s ip email password token
  let compared :=
    match done.2 with
    | .ok _ => (getUserByEmail s.users email).map (·, true)
    | .error e => if e.status = 401 then (getUserByEmail s.users email).map (·, false) else none
  ⟨done.1, compared, done.2⟩

/-- `POST /api/security/password`, from a session of `userId`. -/
def changePassword (s : LoginState) (userId ip current next : String)
    (passwordMinLength : Option ℕ) : Outcome Unit :=
  if current = "" ∨ next = "" then
    ⟨s, none, .error ⟨400, "INVALID_ARGS", "current and next are required"⟩⟩
  else
    match s.users.find? userId with
    | none => ⟨s, none, .error ⟨401, "UNAUTHORIZED", "Account no longer exists"⟩⟩
    | some user =>
      if !loginAllowed s.fails surface.scope ip user.email then
        ⟨s, none, .error ⟨429, "RATE_LIMITED", "Too many failed attempts. Try again later."⟩⟩
      else if !verifyPassword surface user current then
        ⟨{ s with fails := recordLoginFailure s.fails surface.scope ip user.email },
          some (user, false), .error ⟨401, "UNAUTHORIZED", "Current password is incorrect"⟩⟩
      else if next = current then
        ⟨s, some (user, true),
          .error ⟨400, "INVALID_ARGS", "New password must be different from the current one"⟩⟩
      else
        match assertPasswordPolicy passwordMinLength next with
        | .error message => ⟨s, some (user, true), .error ⟨400, "INVALID_ARGS", message⟩⟩
        | .ok () =>
          ⟨{ s with
              users := s.users.update (fun u => u.id = user.id)
                (fun u => { u with passwordHash := hashPassword next }) (fun _ => rfl)
              fails := clearLoginFailures s.fails surface.scope ip user.email },
            some (user, true), .ok ()⟩

/-- The two endpoints that check the password again, from a session of `userId`. -/
def recheckPassword {ρ : Type} (s : LoginState) (userId password : String)
    (act : LoginUser → LoginState × Except HttpError ρ) : Outcome ρ :=
  if password = "" then ⟨s, none, .error ⟨400, "INVALID_ARGS", "password is required"⟩⟩
  else
    match s.users.find? userId with
    | none => ⟨s, none, .error ⟨401, "UNAUTHORIZED", "Invalid password"⟩⟩
    | some user =>
      if !verifyPassword surface user password then
        ⟨s, some (user, false), .error ⟨401, "UNAUTHORIZED", "Invalid password"⟩⟩
      else ⟨(act user).1, some (user, true), (act user).2⟩

/-- `DELETE /api/security/mfa`. -/
def disableMfa (s : LoginState) (userId password : String) : Outcome Unit :=
  recheckPassword surface s userId password fun user =>
    (s.setMfa user.id ⟨none, false, none, none⟩, .ok ())

/-- `POST /api/security/mfa/recovery-codes`. -/
def recoveryCodes (s : LoginState) (userId password : String) (draws : ℕ → ℕ → Fin 30) :
    Outcome (List String) :=
  recheckPassword surface s userId password fun user =>
    match readRegenerate surface.digests user.mfa draws with
    | .ok (some write) =>
      (s.setMfa user.id (runWrite user.mfa write), .ok (mintRecoveryCodes draws))
    | .ok none | .error _ =>
      (s, .error ⟨409, "CONFLICT", "Two-factor authentication is not enabled"⟩)

inductive Action where
  | login (ip email password token : String)
  | changePassword (userId ip current next : String) (passwordMinLength : Option ℕ)
  | disableMfa (userId password : String)
  | recoveryCodes (userId password : String) (draws : ℕ → ℕ → Fin 30)
  | windowEnds (key : Bucket)
  | usersChange (users : Table LoginUser.id)

structure Guesses where
  store : LoginState
  wrongPasswords : Counters

/-- A right password starts the count of its account again. -/
def noteComparison (wrong : Counters) : Option (LoginUser × Bool) → Counters
  | none => wrong
  | some (user, true) => Function.update wrong (emailKey surface.scope user.email) 0
  | some (user, false) => bump wrong (emailKey surface.scope user.email)

def Guesses.after {ρ : Type} (s : Guesses) (o : Outcome ρ) : Guesses :=
  ⟨o.store, noteComparison surface s.wrongPasswords o.compared⟩

/-- A request, the end of a bucket's window, or any other change of the user registry. -/
def step (s : Guesses) : Action → Option Guesses
  | .login ip email password token =>
    some (s.after surface (login surface s.store ip email password token))
  | .changePassword userId ip current next passwordMinLength =>
    some (s.after surface
      (changePassword surface hashPassword s.store userId ip current next passwordMinLength))
  | .disableMfa userId password =>
    some (s.after surface (disableMfa surface s.store userId password))
  | .recoveryCodes userId password draws =>
    some (s.after surface (recoveryCodes surface s.store userId password draws))
  | .windowEnds key =>
    some ⟨{ s.store with fails := Function.update s.store.fails key 0 },
      Function.update s.wrongPasswords key 0⟩
  | .usersChange users => some { s with store := { s.store with users := users } }

/-- At most `MAX_PER_EMAIL` wrong passwords for an account, and then its comparisons are refused
from everywhere. -/
def PasswordsBounded (s : Guesses) : Prop :=
  ∀ email, s.wrongPasswords (emailKey surface.scope email) ≤ MAX_PER_EMAIL ∧
    (s.wrongPasswords (emailKey surface.scope email) = MAX_PER_EMAIL →
      ∀ ip, loginAllowed s.store.fails surface.scope ip email = false)

/-- The password submitted to an endpoint that does not ask the throttle is the account's. -/
def Right (s : Guesses) (userId password : String) : Prop :=
  password ≠ "" → ∀ user ∈ s.store.users.find? userId, verifyPassword surface user password = true

/-- The condition of a step: giving up or renewing a second factor takes the right password. -/
def RechecksRight (s : Guesses) : Action → Prop
  | .disableMfa userId password | .recoveryCodes userId password _ =>
    Right surface s userId password
  | .login .. | .changePassword .. | .windowEnds _ | .usersChange _ => True

instance (s : Guesses) (userId password : String) : Decidable (Right surface s userId password) :=
  inferInstanceAs (Decidable (password ≠ "" → ∀ user ∈ s.store.users.find? userId,
    verifyPassword surface user password = true))

instance (s : Guesses) : DecidablePred (RechecksRight surface s)
  | .disableMfa userId password | .recoveryCodes userId password _ =>
    inferInstanceAs (Decidable (Right surface s userId password))
  | .login .. | .changePassword .. | .windowEnds _ | .usersChange _ =>
    inferInstanceAs (Decidable True)

/-- The counters of the e-mails before and after a comparison: one that was wrong was below the
limit and is on record, and only one that was right lowers its own counter. -/
def Counted (before after : Counters) : Option (LoginUser × Bool) → Prop
  | none => ∀ email, before (emailKey surface.scope email) ≤ after (emailKey surface.scope email)
  | some (user, true) =>
    ∀ email, emailKey surface.scope email ≠ emailKey surface.scope user.email →
      before (emailKey surface.scope email) ≤ after (emailKey surface.scope email)
  | some (user, false) =>
    before (emailKey surface.scope user.email) < MAX_PER_EMAIL ∧
      ∀ email, before (emailKey surface.scope email) +
        (if emailKey surface.scope email = emailKey surface.scope user.email then 1 else 0) ≤
          after (emailKey surface.scope email)

/-- The invariant: wrong passwords are failures on record, and within the limit. -/
def Recorded (s : Guesses) : Prop :=
  ∀ email, s.wrongPasswords (emailKey surface.scope email) ≤
      s.store.fails (emailKey surface.scope email) ∧
    s.wrongPasswords (emailKey surface.scope email) ≤ MAX_PER_EMAIL

end Handlers

theorem normalizeEmail_normalizeEmail (email : String) :
    normalizeEmail (normalizeEmail email) = normalizeEmail email := by
  simp only [normalizeEmail, String.toList_ofList, toLowerCase_trim_idem]

/-- The bucket of a submitted e-mail is that of the account found by it. -/
theorem emailKey_of_getUserByEmail {users : Table LoginUser.id} {email scope : String}
    {user : LoginUser} (h : getUserByEmail users email = some user) :
    emailKey scope user.email = emailKey scope email := by
  have hemail : user.email = normalizeEmail email := by
    simpa using List.find?_some h
  rw [emailKey, hemail, normalizeEmail_normalizeEmail, emailKey]

section Counting

variable {surface : Surface} {hashPassword : String → String} {fails : Counters}
  {s t : Guesses} {ip email userId password : String} {user : LoginUser}

theorem counted_of_eq {compared : Option (LoginUser × Bool)} (hright : ∀ c ∈ compared, c.2 = true) :
    Counted surface fails fails compared := by
  cases compared with
  | none => exact fun _ => le_rfl
  | some c =>
    obtain ⟨user, right⟩ := c
    obtain rfl := hright _ rfl
    exact fun _ _ => le_rfl

theorem counted_recordLoginFailure (hallowed : loginAllowed fails surface.scope ip email)
    (hkey : emailKey surface.scope user.email = emailKey surface.scope email) :
    Counted surface fails (recordLoginFailure fails surface.scope ip email)
      (some (user, false)) := by
  refine ⟨?_, fun e => ?_⟩
  · rw [hkey]
    exact Login.below_limit hallowed
  · rw [Login.recordLoginFailure_email, hkey]

theorem counted_clearLoginFailures
    (hkey : emailKey surface.scope user.email = emailKey surface.scope email) :
    Counted surface fails (clearLoginFailures fails surface.scope ip email)
      (some (user, true)) := by
  intro e hne
  rw [hkey] at hne
  rw [Login.clearLoginFailures_email, if_neg hne]

theorem counted_login (s : LoginState) (ip email password token : String) :
    Counted surface s.fails (login surface s ip email password token).store.fails
      (login surface s ip email password token).compared := by
  obtain ⟨t, reply, hlogin⟩ : ∃ t reply, Login.login surface s ip email password token =
      (t, reply) := ⟨_, _, rfl⟩
  simp only [login, hlogin]
  rcases Login.login_reply surface hlogin with
    ⟨hfails, e, rfl, hstatus⟩ | ⟨hallowed, hfails, e, rfl, hstatus⟩ | ⟨hfails, hsome, r, rfl⟩
  · simp only [hfails, if_neg hstatus]
    exact counted_of_eq (by simp)
  · simp only [hfails, if_pos hstatus]
    cases hu : getUserByEmail s.users email with
    | none =>
      intro e'
      rw [Login.recordLoginFailure_email]
      omega
    | some user => exact counted_recordLoginFailure hallowed (emailKey_of_getUserByEmail hu)
  · obtain ⟨user, hu⟩ := Option.isSome_iff_exists.mp hsome
    simp only [hfails, hu]
    exact counted_clearLoginFailures (emailKey_of_getUserByEmail hu)

theorem counted_changePassword (s : LoginState) (userId ip current next : String)
    (minLength : Option ℕ) :
    Counted surface s.fails
      (changePassword surface hashPassword s userId ip current next minLength).store.fails
      (changePassword surface hashPassword s userId ip current next minLength).compared := by
  rw [changePassword]
  by_cases hargs : current = "" ∨ next = ""
  · rw [if_pos hargs]
    exact counted_of_eq (by simp)
  rw [if_neg hargs]
  cases s.users.find? userId with
  | none => exact counted_of_eq (by simp)
  | some user =>
    dsimp only
    split_ifs with hthrottled hwrong hsame
    · exact counted_of_eq (by simp)
    · exact counted_recordLoginFailure (by simpa using hthrottled) rfl
    · exact counted_of_eq (by simp)
    · split
      · exact counted_of_eq (by simp)
      · exact counted_clearLoginFailures rfl

/-- Whatever the throttle would say: the password is compared and no counter moves. -/
theorem recheckPassword_fails {ρ : Type} {s : LoginState} {userId password : String}
    {act : LoginUser → LoginState × Except HttpError ρ}
    (hact : ∀ user, (act user).1.fails = s.fails) :
    (recheckPassword surface s userId password act).store.fails = s.fails := by
  rw [recheckPassword]
  split_ifs with hargs
  · rfl
  · split
    · rfl
    · split_ifs with hwrong
      · rfl
      · exact hact _

/-- A recheck compares the password of the session's account, whenever both exist. -/
theorem recheckPassword_compared {ρ : Type} (s : LoginState) (userId password : String)
    (act : LoginUser → LoginState × Except HttpError ρ) :
    (recheckPassword surface s userId password act).compared =
      if password = "" then none
      else (s.users.find? userId).map fun u => (u, verifyPassword surface u password) := by
  rw [recheckPassword]
  split_ifs with hargs
  · rfl
  · split
    next hnone => simp [hnone]
    next user huser =>
      cases hright : verifyPassword surface user password with
      | true => simp [huser, hright]
      | false => simp [huser, hright]

theorem counted_recheckPassword {ρ : Type} {act : LoginUser → LoginState × Except HttpError ρ}
    (hact : ∀ user, (act user).1.fails = s.store.fails) (hright : Right surface s userId password) :
    Counted surface s.store.fails (recheckPassword surface s.store userId password act).store.fails
      (recheckPassword surface s.store userId password act).compared := by
  rw [recheckPassword_fails hact, recheckPassword_compared]
  refine counted_of_eq fun c hc => ?_
  split_ifs at hc with hargs
  · cases hc
  · obtain ⟨user, huser, rfl⟩ := Option.map_eq_some_iff.mp hc
    exact hright hargs user huser

theorem recorded_after {ρ : Type} {o : Outcome ρ} (hs : Recorded surface s)
    (h : Counted surface s.store.fails o.store.fails o.compared) :
    Recorded surface (s.after surface o) := by
  intro e
  have he := hs e
  rw [Guesses.after]
  cases hc : o.compared with
  | none =>
    rw [hc] at h
    have hle := h e
    exact ⟨he.1.trans hle, he.2⟩
  | some c =>
    obtain ⟨user, right⟩ := c
    rw [hc] at h
    by_cases hkey : emailKey surface.scope e = emailKey surface.scope user.email
    · cases right with
      | true => simp [noteComparison, hkey]
      | false =>
        have hlimit := h.1
        have hle := h.2 e
        rw [if_pos hkey] at hle
        simp only [noteComparison, Login.bump_apply, if_pos hkey]
        rw [← hkey] at hlimit
        omega
    · cases right with
      | true =>
        have hle := h e hkey
        simp only [noteComparison, Function.update_of_ne hkey]
        omega
      | false =>
        have hle := h.2 e
        rw [if_neg hkey] at hle
        simp only [noteComparison, Login.bump_apply, if_neg hkey]
        omega

/-- The step lemma. -/
theorem recorded_step {a : Action} (hs : Recorded surface s) (ha : RechecksRight surface s a)
    (h : step surface hashPassword s a = some t) : Recorded surface t := by
  cases a with
  | login ip email password token =>
    obtain rfl := Option.some.inj h
    exact recorded_after hs (counted_login ..)
  | changePassword userId ip current next passwordMinLength =>
    obtain rfl := Option.some.inj h
    exact recorded_after hs (counted_changePassword ..)
  | disableMfa userId password =>
    obtain rfl := Option.some.inj h
    exact recorded_after hs (counted_recheckPassword (fun _ => rfl) ha)
  | recoveryCodes userId password draws =>
    obtain rfl := Option.some.inj h
    refine recorded_after hs (counted_recheckPassword (fun user => ?_) ha)
    split
    · rfl
    · rfl
    · rfl
  | windowEnds key =>
    obtain rfl := Option.some.inj h
    intro e
    have he := hs e
    by_cases hkey : emailKey surface.scope e = key
    · simp [hkey]
    · simpa [Function.update_of_ne hkey] using he
  | usersChange users =>
    obtain rfl := Option.some.inj h
    exact hs

theorem passwordsBounded_of_recorded (hs : Recorded surface s) : PasswordsBounded surface s := by
  intro email
  refine ⟨(hs email).2, fun hfull ip => ?_⟩
  have hfails := (hs email).1
  rw [hfull] at hfails
  simp only [loginAllowed, Bool.and_eq_false_iff, decide_eq_false_iff_not]
  exact .inr (by omega)

end Counting

/-- In every run whose rechecks see right passwords only, at most `MAX_PER_EMAIL` wrong passwords
are compared for any account in a window, counted from its last right one, and the next
comparison is refused. -/
theorem passwords_bounded (surface : Surface) (hashPassword : String → String) (s : Guesses)
    (as : List Action) (hs : Recorded surface s)
    (hright : Guarded (step surface hashPassword) (RechecksRight surface) s as) :
    Throughout (step surface hashPassword) (PasswordsBounded surface) s as :=
  (throughout_of_guarded (fun _ _ _ hI ha h => recorded_step hI ha h) hs hright).mono
    fun _ hI => passwordsBounded_of_recorded hI

/-- Ada's account, before any failure. -/
def noGuesses : Guesses := ⟨Login.enrolledUser, fun _ => 0⟩

/-- Two wrong passwords at the endpoints that count them, the right one to renew the recovery
codes, and another wrong one. -/
theorem passwords_bounded_few :
    Throughout (step Login.portal id) (PasswordsBounded Login.portal) noGuesses
      [.login "203.0.113.9" "ada@acme.test" "hunter2" "t1",
        .changePassword "u1" "203.0.113.9" "hunter2" "longer than eight" none,
        .recoveryCodes "u1" "hunter22" (fun _ _ => 0),
        .login "203.0.113.9" "ada@acme.test" "hunter2" "t2"] :=
  passwords_bounded Login.portal id noGuesses _ (fun _ => ⟨le_rfl, Nat.zero_le _⟩)
    (by decide +kernel)

/-- Giving up the second factor compares any number of wrong passwords, and the throttle does not
learn of one. -/
theorem exec_disableMfa {surface : Surface} {hashPassword : String → String} {userId : String}
    {password : String} {user : LoginUser} (s : Guesses) (hargs : password ≠ "")
    (huser : s.store.users.find? userId = some user)
    (hwrong : verifyPassword surface user password = false) (n : ℕ) :
    ∃ t, exec (step surface hashPassword) s (List.replicate n (.disableMfa userId password)) =
        some t ∧ t.store = s.store ∧
      t.wrongPasswords (emailKey surface.scope user.email) =
        s.wrongPasswords (emailKey surface.scope user.email) + n := by
  induction n generalizing s with
  | zero => exact ⟨s, rfl, rfl, rfl⟩
  | succ n ih =>
    have houtcome : disableMfa surface s.store userId password =
        ⟨s.store, some (user, false), .error ⟨401, "UNAUTHORIZED", "Invalid password"⟩⟩ := by
      simp [disableMfa, recheckPassword, hargs, huser, hwrong]
    have hstep : step surface hashPassword s (.disableMfa userId password) =
        some ⟨s.store, bump s.wrongPasswords (emailKey surface.scope user.email)⟩ := by
      rw [step, houtcome]
      rfl
    obtain ⟨t, ht, hstore, hcount⟩ :=
      ih ⟨s.store, bump s.wrongPasswords (emailKey surface.scope user.email)⟩ huser
    refine ⟨t, ?_, hstore, ?_⟩
    · rw [List.replicate_succ, exec_cons_of_step _ hstep, ht]
    · rw [hcount]
      simp only [Login.bump_apply, if_true]
      omega

/-- Eleven wrong passwords from one session, all of them compared. -/
theorem passwords_unbounded :
    ¬Throughout (step Login.portal id) (PasswordsBounded Login.portal) noGuesses
      (List.replicate 11 (.disableMfa "u1" "hunter2")) := by
  intro h
  obtain ⟨user, huser, hwrong⟩ : ∃ user, noGuesses.store.users.find? "u1" = some user ∧
      verifyPassword Login.portal user "hunter2" = false := ⟨_, rfl, by decide⟩
  obtain ⟨t, ht, -, hcount⟩ := exec_disableMfa noGuesses (by decide) huser
    hwrong 11
  have hbounded := ((h.exec ht) user.email).1
  rw [hcount] at hbounded
  simp [noGuesses, MAX_PER_EMAIL] at hbounded

end HeirsOcr.PasswordGuessing
