import HeirsOcr.LastOwner
import HeirsOcr.PasswordGuessing
import HeirsOcr.PasswordReset
import HeirsOcr.ThrottleExpiry
import HeirsOcr.TwoRuns

/-!
# What other addresses do to a password reset

`POST /password/reset` throttles invalid links by two counters, as a login does. One is that of the
address. The other would be that of an e-mail, but a link has none until it resolves, and the
counter of the word `redeem` stands in for it: one counter for everybody, with the limit meant for
one e-mail. Two runs are compared that differ in requests with invalid links from other addresses.
A request is one step here and Redis is up; links, counters and the clock are as in Redis.
-/
namespace HeirsOcr.ResetIsolation
open ExpiringKeys KeyedTable StepMachine TwoRuns
open LastOwner (UserRecord Users)
open Login (Bucket MAX_PER_EMAIL MAX_PER_IP emailKey ipKey normalizeEmail)
open PasswordGuessing (assertPasswordPolicy)
open PasswordReset (PasswordResetRecord ResetCall ResetStore ResetUser resumeReset)
open TenantKeys (TenantRole)
open ThrottleExpiry (Throttle WINDOW_SECONDS loginAllowed)

def RESET_SCOPE : String := "password-reset"

def INVALID_LINK : String := "This reset link is invalid or has expired. Request a new one."

/-- The tokens of links, the check of an e-mail address, and the hash of a password. -/
structure Settings where
  links : PasswordReset.Options
  isEmail : String → Bool
  hashPassword : String → String

/-- The accounts, the users of the sessions there are, the links with the clock, and the counters
of failures. -/
structure Desk where
  users : Users TenantRole
  sessions : List String
  links : ResetStore
  fails : Keyspace Bucket ℕ

def Desk.throttle (s : Desk) : Throttle := ⟨s.fails, s.links.now⟩

def bump (keys : Keyspace Bucket ℕ) (now : ℤ) (key : Bucket) : Keyspace Bucket ℕ :=
  let counted := incr keys now key
  if counted.2 = 1 then expire counted.1 now key WINDOW_SECONDS else counted.1

def Desk.recordLoginFailure (s : Desk) (scope ip email : String) : Desk :=
  { s with
    fails := bump (bump s.fails s.links.now (ipKey scope ip)) s.links.now (emailKey scope email) }

def Desk.clearLoginFailures (s : Desk) (scope ip email : String) : Desk :=
  { s with fails := del s.fails [ipKey scope ip, emailKey scope email] }

/-- The commands of a call on links, one after the other: no call has more than four. -/
def runAlone (opts : PasswordReset.Options) : ℕ → ResetStore × Option ResetCall → ResetStore
  | 0, (m, _) | _, (m, none) => m
  | n + 1, (m, some c) => runAlone opts n (resumeReset opts m c ())

def startPasswordReset (opts : PasswordReset.Options) (m : ResetStore) (user : ResetUser) :
    ResetStore × Option String :=
  let next := runAlone opts 4 (m, some (.getPointer user m.now))
  (next, if next.drawn = m.drawn then none else some (opts.randomToken m.drawn))

def peekPasswordReset (opts : PasswordReset.Options) (m : ResetStore) (token : String) :
    Option PasswordResetRecord :=
  get m.tokens m.now (opts.hashToken token)

def consumePasswordReset (opts : PasswordReset.Options) (m : ResetStore) (token : String) :
    ResetStore :=
  runAlone opts 4 (m, some (.getDel token))

def discardPasswordReset (opts : PasswordReset.Options) (m : ResetStore) (token userId : String) :
    ResetStore :=
  runAlone opts 4 (m, some (.delBoth token userId))

section Requests

variable (cfg : Settings)

def getTenantUserByEmail (users : Users TenantRole) (email : String) :
    Option (UserRecord TenantRole) :=
  users.rows.find? fun u => u.email = normalizeEmail email

/-- `POST /password/forgot`, with whether the mail could be delivered. -/
def forgot (s : Desk) (ip email : String) (delivered : Bool) : Desk × Option HttpError :=
  if !cfg.isEmail email then (s, some ⟨400, "INVALID_ARGS", "Enter a valid email address"⟩)
  else if !loginAllowed s.throttle RESET_SCOPE ip email then
    (s, some ⟨429, "RATE_LIMITED", "Too many attempts. Try again later."⟩)
  else
    let s := s.recordLoginFailure RESET_SCOPE ip email
    match (getTenantUserByEmail s.users email).filter fun u => !u.disabled with
    | none => (s, none)
    | some user =>
      match startPasswordReset cfg.links s.links ⟨user.id, user.tenantId, user.email⟩ with
      | (links, none) => ({ s with links := links }, none)
      | (links, some token) =>
        if delivered then ({ s with links := links }, none)
        else ({ s with links := discardPasswordReset cfg.links links token user.id }, none)

theorem setPassword_id (hash : String) (u : UserRecord TenantRole) :
    { u with passwordHash := hash }.id = u.id := rfl

/-- The record of a link has been read, and the password has passed the policy. -/
def redeem (s : Desk) (ip token password : String) (record : PasswordResetRecord) :
    Desk × Option HttpError :=
  let links := consumePasswordReset cfg.links s.links token
  match (s.users.find? record.userId).filter fun u =>
      !u.disabled && u.tenantId = record.tenantId with
  | none => ({ s with links := links }, some ⟨401, "UNAUTHORIZED", INVALID_LINK⟩)
  | some user =>
    let next : Desk :=
      { s with
        users := s.users.update (fun u => u.tenantId = user.tenantId && u.id = user.id)
          (fun u => { u with passwordHash := cfg.hashPassword password })
          (setPassword_id (cfg.hashPassword password))
        sessions := s.sessions.filter fun userId => userId ≠ user.id
        links := links }
    ((next.clearLoginFailures "tenant" ip user.email).clearLoginFailures RESET_SCOPE ip user.email,
      none)

/-- `POST /password/reset`, with the minimum length of the settings; the reply is its error. -/
def reset (s : Desk) (ip token password : String) (passwordMinLength : Option ℕ) :
    Desk × Option HttpError :=
  if token = "" then
    (s, some ⟨400, "INVALID_ARGS", "This reset link is incomplete. Request a new one."⟩)
  else if password = "" then (s, some ⟨400, "INVALID_ARGS", "Password is required"⟩)
  else if !loginAllowed s.throttle RESET_SCOPE ip "redeem" then
    (s, some ⟨429, "RATE_LIMITED", "Too many attempts. Try again later."⟩)
  else
    match peekPasswordReset cfg.links s.links token with
    | none =>
      (s.recordLoginFailure RESET_SCOPE ip "redeem", some ⟨401, "UNAUTHORIZED", INVALID_LINK⟩)
    | some record =>
      match assertPasswordPolicy passwordMinLength password with
      | .error message => (s, some ⟨400, "INVALID_ARGS", message⟩)
      | .ok () => redeem cfg s ip token password record

/-- A request, the passing of time, or a change of the accounts. -/
inductive ResetAction where
  | reset (ip token password : String) (passwordMinLength : Option ℕ)
  | forgot (ip email : String) (delivered : Bool)
  | wait (milliseconds : ℕ)
  | usersChange (users : Users TenantRole) (sessions : List String)

def next (s : Desk) : ResetAction → Desk
  | .reset ip token password passwordMinLength =>
    (reset cfg s ip token password passwordMinLength).1
  | .forgot ip email delivered => (forgot cfg s ip email delivered).1
  | .wait milliseconds => { s with links := { s.links with now := s.links.now + milliseconds } }
  | .usersChange users sessions => { s with users := users, sessions := sessions }

/-- A request with an invalid link from another address. -/
def isForeign (ip : String) (s : Desk) : ResetAction → Bool
  | .reset ip' token _ _ =>
    ip' ≠ ip && (peekPasswordReset cfg.links s.links token).isNone
  | .forgot .. | .wait _ | .usersChange .. => false

end Requests

section Condition

/-- The counter that stands in for that of an e-mail. -/
def redeemKey : Bucket := emailKey RESET_SCOPE "redeem"

def Desk.count (s : Desk) (key : Bucket) : ℕ := (get s.fails s.links.now key).getD 0

/-- The counter is at its limit in both runs or in neither. -/
def LimitAlike (st : Desk × Desk) (key : Bucket) (limit : ℕ) : Prop :=
  st.1.count key < limit ↔ st.2.count key < limit

instance (st : Desk × Desk) (key : Bucket) (limit : ℕ) : Decidable (LimitAlike st key limit) :=
  inferInstanceAs (Decidable (_ ↔ _))

variable (cfg : Settings) (ip : String)

/-- The condition of a common request: of the counters it asks, those that foreign requests raise
are at their limits in both runs or in neither. These are the one for everybody and, for a request
from another address, that of the address. -/
def Alike (st : Desk × Desk) : ResetAction → Prop
  | .reset ip' _ _ _ =>
    LimitAlike st redeemKey MAX_PER_EMAIL ∧
      (ip' ≠ ip → LimitAlike st (ipKey RESET_SCOPE ip') MAX_PER_IP)
  | .forgot ip' email _ =>
    (emailKey RESET_SCOPE email = redeemKey → LimitAlike st redeemKey MAX_PER_EMAIL) ∧
      (ip' ≠ ip → LimitAlike st (ipKey RESET_SCOPE ip') MAX_PER_IP)
  | .wait _ | .usersChange .. => True

instance (st : Desk × Desk) : DecidablePred (Alike ip st)
  | .reset .. => inferInstanceAs (Decidable (_ ∧ (_ → _)))
  | .forgot .. => inferInstanceAs (Decidable ((_ → _) ∧ (_ → _)))
  | .wait _ | .usersChange .. => inferInstanceAs (Decidable True)

/-- A redemption is decided alike in the two runs. -/
def SameDecision (st : Desk × Desk) : ResetAction → Prop
  | .reset ip' token password passwordMinLength =>
    (reset cfg st.1 ip' token password passwordMinLength).2 =
      (reset cfg st.2 ip' token password passwordMinLength).2
  | .forgot .. | .wait _ | .usersChange .. => True

instance (st : Desk × Desk) : DecidablePred (SameDecision cfg st)
  | .reset .. => inferInstanceAs (Decidable (_ = _))
  | .forgot .. | .wait _ | .usersChange .. => inferInstanceAs (Decidable True)

end Condition

section Counters

variable {keys keys' : Keyspace Bucket ℕ} {now : ℤ} {key key' : Bucket}

theorem bump_of_ne (hne : key' ≠ key) : bump keys now key key' = keys key' := by
  simp only [bump]
  split_ifs
  · rw [expire_of_ne hne, incr_of_ne hne]
  · exact incr_of_ne hne

/-- A bump goes by what the counter was. -/
theorem bump_congr (h : keys key' = keys' key') :
    bump keys now key key' = bump keys' now key key' := by
  by_cases hkey : key' = key
  · subst hkey
    have hlookup : lookup keys now key' = lookup keys' now key' := by rw [lookup, lookup, h]
    have hincr : (incr keys now key').1 key' = (incr keys' now key').1 key' ∧
        (incr keys now key').2 = (incr keys' now key').2 := by
      rw [incr, incr, hlookup]
      cases lookup keys' now key' with
      | none => simp
      | some e => simp
    simp only [bump, hincr.2]
    split_ifs
    · have hexpire : lookup (incr keys now key').1 now key' =
          lookup (incr keys' now key').1 now key' := by rw [lookup, lookup, hincr.1]
      rw [expire, expire, hexpire]
      cases lookup (incr keys' now key').1 now key' with
      | none => exact hincr.1
      | some e => simp
    · exact hincr.1
  · rw [bump_of_ne hkey, bump_of_ne hkey, h]

theorem del_congr (doomed : List Bucket) (h : keys key' = keys' key') :
    del keys doomed key' = del keys' doomed key' := by
  rw [del, del, h]

end Counters

section Agreement

variable {cfg : Settings} {ip : String} {s t : Desk}

/-- The counters foreign requests raise. -/
def Foreign (ip : String) (key : Bucket) : Prop :=
  key = redeemKey ∨ ∃ ip', ip' ≠ ip ∧ key = ipKey RESET_SCOPE ip'

/-- The two runs have all else in common. -/
structure Agree (ip : String) (s t : Desk) : Prop where
  users : s.users = t.users
  sessions : s.sessions = t.sessions
  links : s.links = t.links
  fails : ∀ key, ¬Foreign ip key → s.fails key = t.fails key

theorem Agree.recordLoginFailure (h : Agree ip s t) (scope ip' email : String) :
    Agree ip (s.recordLoginFailure scope ip' email) (t.recordLoginFailure scope ip' email) where
  users := h.users
  sessions := h.sessions
  links := h.links
  fails key hkey := by
    simp only [Desk.recordLoginFailure, h.links]
    exact bump_congr (bump_congr (h.fails key hkey))

theorem Agree.clearLoginFailures (h : Agree ip s t) (scope ip' email : String) :
    Agree ip (s.clearLoginFailures scope ip' email) (t.clearLoginFailures scope ip' email) where
  users := h.users
  sessions := h.sessions
  links := h.links
  fails key hkey := del_congr _ (h.fails key hkey)

theorem Agree.count_eq (h : Agree ip s t) {key : Bucket} (hkey : ¬Foreign ip key) :
    s.count key = t.count key := by
  simp only [Desk.count, ExpiringKeys.get, lookup, h.fails key hkey, h.links]

theorem not_foreign_ip : ¬Foreign ip (ipKey RESET_SCOPE ip) := by
  rintro (hredeem | ⟨ip', hne, hsame⟩)
  · cases hredeem
  · exact hne (Bucket.ip.inj hsame).2.symm

theorem not_foreign_email {email : String} (hne : emailKey RESET_SCOPE email ≠ redeemKey) :
    ¬Foreign ip (emailKey RESET_SCOPE email) := by
  rintro (hredeem | ⟨ip', -, hsame⟩)
  · exact hne hredeem
  · cases hsame

/-- The throttle goes by whether its two counters are below their limits. -/
theorem loginAllowed_congr {scope ip' email : String}
    (hip : LimitAlike (s, t) (ipKey scope ip') MAX_PER_IP)
    (hemail : LimitAlike (s, t) (emailKey scope email) MAX_PER_EMAIL) :
    loginAllowed s.throttle scope ip' email = loginAllowed t.throttle scope ip' email := by
  have hip' : decide (s.count (ipKey scope ip') < MAX_PER_IP) =
      decide (t.count (ipKey scope ip') < MAX_PER_IP) := decide_eq_decide.mpr hip
  have hemail' : decide (s.count (emailKey scope email) < MAX_PER_EMAIL) =
      decide (t.count (emailKey scope email) < MAX_PER_EMAIL) := decide_eq_decide.mpr hemail
  exact congrArg₂ and hip' hemail'

theorem Agree.limitAlike_ip (h : Agree ip s t) {ip' : String}
    (halike : ip' ≠ ip → LimitAlike (s, t) (ipKey RESET_SCOPE ip') MAX_PER_IP) :
    LimitAlike (s, t) (ipKey RESET_SCOPE ip') MAX_PER_IP := by
  by_cases hip : ip' = ip
  · subst hip
    rw [LimitAlike, h.count_eq not_foreign_ip]
  · exact halike hip

theorem Agree.limitAlike_email (h : Agree ip s t) {email : String}
    (halike : emailKey RESET_SCOPE email = redeemKey →
      LimitAlike (s, t) redeemKey MAX_PER_EMAIL) :
    LimitAlike (s, t) (emailKey RESET_SCOPE email) MAX_PER_EMAIL := by
  by_cases hkey : emailKey RESET_SCOPE email = redeemKey
  · rw [hkey]
    exact halike hkey
  · rw [LimitAlike, h.count_eq (not_foreign_email hkey)]

/-- A request with an invalid link from another address raises two counters at most. -/
theorem Agree.foreign_left {a : ResetAction} (h : Agree ip s t)
    (hforeign : isForeign cfg ip s a = true) : Agree ip (next cfg s a) t := by
  cases a with
  | reset ip' token password passwordMinLength =>
    simp only [isForeign, Bool.and_eq_true, decide_eq_true_eq, Option.isNone_iff_eq_none]
      at hforeign
    obtain ⟨hne, hinvalid⟩ := hforeign
    simp only [next, reset, hinvalid]
    split_ifs
    · exact h
    · exact h
    · exact h
    · refine ⟨h.users, h.sessions, h.links, fun key hkey => ?_⟩
      have hip : key ≠ ipKey RESET_SCOPE ip' := fun heq => hkey (.inr ⟨ip', hne, heq⟩)
      have hredeem : key ≠ emailKey RESET_SCOPE "redeem" := fun heq => hkey (.inl heq)
      simp only [Desk.recordLoginFailure]
      rw [bump_of_ne hredeem, bump_of_ne hip]
      exact h.fails key hkey
  | forgot ip' email delivered => cases hforeign
  | wait milliseconds => cases hforeign
  | usersChange users sessions => cases hforeign

theorem Agree.symm (h : Agree ip s t) : Agree ip t s :=
  ⟨h.users.symm, h.sessions.symm, h.links.symm, fun key hkey => (h.fails key hkey).symm⟩

/-- A redemption past the throttle does the same to both. -/
theorem Agree.redeem (h : Agree ip s t) (ip' token password : String)
    (record : PasswordResetRecord) :
    (redeem cfg s ip' token password record).2 = (redeem cfg t ip' token password record).2 ∧
      Agree ip (redeem cfg s ip' token password record).1
        (redeem cfg t ip' token password record).1 := by
  simp only [ResetIsolation.redeem, h.links, h.users]
  split
  · exact ⟨rfl, rfl, h.sessions, rfl, h.fails⟩
  · refine ⟨rfl, Agree.clearLoginFailures (Agree.clearLoginFailures ?_ _ _ _) _ _ _⟩
    exact ⟨rfl, by rw [h.sessions], rfl, h.fails⟩

theorem Agree.reset (h : Agree ip s t) {ip' token password : String} {minimum : Option ℕ}
    (halike : Alike ip (s, t) (.reset ip' token password minimum)) :
    (reset cfg s ip' token password minimum).2 = (reset cfg t ip' token password minimum).2 ∧
      Agree ip (reset cfg s ip' token password minimum).1
        (reset cfg t ip' token password minimum).1 := by
  have hallowed : loginAllowed s.throttle RESET_SCOPE ip' "redeem" =
      loginAllowed t.throttle RESET_SCOPE ip' "redeem" :=
    loginAllowed_congr (h.limitAlike_ip halike.2) halike.1
  simp only [ResetIsolation.reset, hallowed, h.links]
  split_ifs
  · exact ⟨rfl, h⟩
  · exact ⟨rfl, h⟩
  · exact ⟨rfl, h⟩
  · split
    · exact ⟨rfl, h.recordLoginFailure _ _ _⟩
    · split
      · exact ⟨rfl, h⟩
      · exact h.redeem _ _ _ _

theorem Agree.forgot (h : Agree ip s t) {ip' email : String} {delivered : Bool}
    (halike : Alike ip (s, t) (.forgot ip' email delivered)) :
    Agree ip (forgot cfg s ip' email delivered).1 (forgot cfg t ip' email delivered).1 := by
  have hallowed : loginAllowed s.throttle RESET_SCOPE ip' email =
      loginAllowed t.throttle RESET_SCOPE ip' email :=
    loginAllowed_congr (h.limitAlike_ip halike.2) (h.limitAlike_email halike.1)
  have hrecord := h.recordLoginFailure RESET_SCOPE ip' email
  simp only [ResetIsolation.forgot, hallowed, hrecord.links, hrecord.users]
  split_ifs
  · exact h
  · exact h
  all_goals split
  · exact hrecord
  · split
    · exact ⟨rfl, hrecord.sessions, rfl, hrecord.fails⟩
    · exact ⟨rfl, hrecord.sessions, rfl, hrecord.fails⟩
  · exact hrecord
  · split
    · exact ⟨rfl, hrecord.sessions, rfl, hrecord.fails⟩
    · exact ⟨rfl, hrecord.sessions, rfl, hrecord.fails⟩

end Agreement

/-- Two runs, from one state, that differ in requests with invalid links from addresses other than
`ip`: while each common request finds the counters that these requests raise, and that it asks, at
their limits in both runs or in neither, every redemption the runs have in common gets the same
decision. -/
theorem redemptions_isolated (cfg : Settings) (ip : String) (s : Desk)
    (ps : List (Paired ResetAction))
    (hok : Guarded (pairStep (next cfg) (isForeign cfg ip)) (fun st => OnBoth (Alike ip st))
      (s, s) ps) :
    Along (pairStep (next cfg) (isForeign cfg ip)) (fun st p _ => OnBoth (SameDecision cfg st) p)
      (s, s) ps := by
  have hstart : Agree ip s s := ⟨rfl, rfl, rfl, fun _ _ => rfl⟩
  refine along_of_unwinding (R := Agree ip) (fun s t a h ha => h.foreign_left ha)
    (fun s t a h ha => (h.symm.foreign_left ha).symm) (fun s t a h halike => ?_) hstart hok
  cases a with
  | reset ip' token password passwordMinLength => exact h.reset halike
  | forgot ip' email delivered => exact ⟨trivial, h.forgot halike⟩
  | wait milliseconds => exact ⟨trivial, h.users, h.sessions, by simp only [next, h.links], h.fails⟩
  | usersChange users sessions => exact ⟨trivial, rfl, rfl, h.links, h.fails⟩

section Examples

private theorem plainToken_injective :
    Function.Injective fun n => String.ofList (List.replicate n 'x') := by
  intro m n h
  have hlength := congrArg (fun t : String => t.toList.length) h
  simpa using hlength

/-- Tokens that are their own hashes. -/
private def plainSettings : Settings where
  links :=
    { randomToken := fun n => String.ofList (List.replicate n 'x')
      hashToken := fun token => token
      distinct := plainToken_injective }
  isEmail email := '@' ∈ email.toList
  hashPassword password := password

/-- An account and a link to it. -/
private def oneLink : Desk where
  users := ⟨[⟨"u1", "acme", "ada@x", "Ada", .owner, "h", false⟩], by simp⟩
  sessions := []
  links := ⟨0, Function.update (fun _ => none) "xx" (some ⟨⟨"u1", "acme", "ada@x", 0⟩, none⟩),
    fun _ => none, 3, fun _ => none, []⟩
  fails := fun _ => none

private def noise : ResetAction := .reset "198.51.100.9" "guess" "hunter22" none

private def redemption : ResetAction := .reset "192.0.2.7" "xx" "correct horse" none

/-- Nine invalid links from another address. -/
theorem redemptions_isolated_nine :
    Along (pairStep (next plainSettings) (isForeign plainSettings "192.0.2.7"))
      (fun st p _ => OnBoth (SameDecision plainSettings st) p) (oneLink, oneLink)
      (List.replicate 9 (.left noise) ++ [.both redemption]) :=
  redemptions_isolated plainSettings "192.0.2.7" oneLink _ (by decide +kernel)

/-- Ten of them, and the owner of a valid link is refused. -/
theorem redemption_blocked :
    ¬ ∀ (s : Desk) (ps : List (Paired ResetAction)),
      Along (pairStep (next plainSettings) (isForeign plainSettings "192.0.2.7"))
        (fun st p _ => OnBoth (SameDecision plainSettings st) p) (s, s) ps := by
  intro hall
  have hrun := hall oneLink (List.replicate 10 (.left noise) ++ [.both redemption])
  revert hrun
  decide +kernel

end Examples

end HeirsOcr.ResetIsolation
