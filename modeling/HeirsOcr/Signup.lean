import HeirsOcr.ExpiringKeys
import HeirsOcr.Interleaving
import HeirsOcr.JsText

/-!
# Pending signups

A signup lives in Redis under the e-mail it claims until its code comes back. An operation
runs its Redis commands one at a time, and a check compares the code between two of them;
commands of other operations may run in between, and keys run out. Beside the keyspace the
state numbers the codes stored and the signups started, and logs what became of them.
Answers to the caller are left out.
-/
namespace HeirsOcr.Signup
open ExpiringKeys Interleaving JsText

def SIGNUP_TTL_SECONDS : ℤ := 15 * 60

def MAX_OTP_ATTEMPTS : ℕ := 5

def RESEND_COOLDOWN_SECONDS : ℤ := 60

def pendingKey (email : String) : String := "signup:pending:" ++ email

def normalizeEmail (email : String) : String :=
  String.ofList (toLowerCase (trim email.toList))

/-- Times are in milliseconds. -/
structure PendingSignup where
  email : String
  name : String
  organizationName : String
  planId : String
  passwordHash : String
  otpHash : String
  attempts : ℕ
  lastSentAt : ℤ
  createdAt : ℤ
  deriving DecidableEq, Repr

structure StartSignupInput where
  email : String
  name : String
  organizationName : String
  planId : String
  password : String
  deriving DecidableEq, Repr

/-- argon2id: a hash with its salt, and a check that throws on a malformed hash. -/
structure Argon where
  hash : (salt text : String) → String
  verify : (hashed text : String) → Except String Bool

/-- What is drawn for a new code: the code, its salt and that of the password. -/
structure Drawn where
  otp : String
  otpSalt : String
  passwordSalt : String
  deriving DecidableEq, Repr

/-- A record in Redis, with the number of its code and of the signup it belongs to. -/
structure Stored where
  pending : PendingSignup
  code : ℕ
  signup : ℕ
  deriving DecidableEq, Repr

/-- An accepted code, with how many codes had been stored by then. -/
structure Acceptance where
  key : String
  code : ℕ
  issued : ℕ
  deriving DecidableEq, Repr

/-- `codes` and `signups` have the key each code and each signup was stored under, `removed` the
signups that were deleted, and `wrong` the code of each wrong guess. -/
structure Signups where
  now : ℤ
  keys : Keyspace String Stored
  codes : List String
  signups : List String
  removed : List ℕ
  wrong : List ℕ
  accepted : List Acceptance

inductive SignupRequest where
  | startSignup (input : StartSignupInput) (drawn : Drawn)
  | checkOtp (email otp : String)
  | resendOtp (email : String)
  | discardSignup (email : String)
  deriving DecidableEq, Repr

/-- The next command of an operation: the `SET` of `startSignup`; the `DEL` of `discardSignup`;
the `GET`, the comparison, the `DEL`, the `TTL` and the `SET` of `checkOtp`; the `GET` and the
`SET` of `resendOtp`. -/
inductive SignupCall where
  | storing (pending : PendingSignup)
  | discarding (email : String)
  | checking (email otp : String)
  | comparing (key otp : String) (stored : Stored)
  | locking (key : String) (stored : Stored)
  | timing (key : String) (stored : Stored)
  | writing (key : String) (stored : Stored) (ttl : ℤ)
  | resending (email : String)
  | reissuing (key : String) (pending : PendingSignup) (signup : ℕ)
  deriving DecidableEq, Repr

section Operations

variable (argon : Argon)

/-- The record of a new signup. -/
def newSignup (now : ℤ) (input : StartSignupInput) (drawn : Drawn) : PendingSignup where
  email := normalizeEmail input.email
  name := input.name
  organizationName := input.organizationName
  planId := input.planId
  passwordHash := argon.hash drawn.passwordSalt input.password
  otpHash := argon.hash drawn.otpSalt drawn.otp
  attempts := 0
  lastSentAt := now
  createdAt := now

/-- The record of a new code for a signup. -/
def reissued (now : ℤ) (pending : PendingSignup) (drawn : Drawn) : PendingSignup :=
  { pending with otpHash := argon.hash drawn.otpSalt drawn.otp, attempts := 0, lastSentAt := now }

/-- `matches`; a malformed hash is a wrong code. -/
def otpMatches (pending : PendingSignup) (otp : String) : Bool :=
  (argon.verify pending.otpHash otp).toOption.getD false

end Operations

/-- `SET key pending EX SIGNUP_TTL_SECONDS` with a new code. -/
def storeCode (s : Signups) (key : String) (pending : PendingSignup) (signup : ℕ) : Signups :=
  { s with
    keys := setEx s.keys s.now key ⟨pending, s.codes.length, signup⟩ SIGNUP_TTL_SECONDS
    codes := s.codes ++ [key] }

/-- `DEL key`. -/
def deleteKey (s : Signups) (key : String) : Signups :=
  { s with
    keys := del s.keys [key]
    removed := s.removed ++ ((get s.keys s.now key).map Stored.signup).toList }

/-- The write-back of a wrong guess, under the time to live asked for before. -/
def writeBack (s : Signups) (key : String) (stored : Stored) (ttl : ℤ) : Signups :=
  let next := { stored with
    pending := { stored.pending with attempts := stored.pending.attempts + 1 } }
  { s with
    keys := if 0 < ttl then setEx s.keys s.now key next ttl else setKeepTtl s.keys s.now key next }

section System

variable (argon : Argon)

def startOperation (s : Signups) : SignupRequest → Signups × Option SignupCall
  | .startSignup input drawn => (s, some (.storing (newSignup argon s.now input drawn)))
  | .checkOtp email otp => (s, some (.checking email otp))
  | .resendOtp email => (s, some (.resending email))
  | .discardSignup email => (s, some (.discarding email))

def resumeOperation (s : Signups) : SignupCall → Drawn → Signups × Option SignupCall
  | .storing pending, _ =>
    let key := pendingKey pending.email
    ({ storeCode s key pending s.signups.length with signups := s.signups ++ [key] }, none)
  | .discarding email, _ => (deleteKey s (pendingKey (normalizeEmail email)), none)
  | .checking email otp, _ =>
    let key := pendingKey (normalizeEmail email)
    (s, (get s.keys s.now key).map (.comparing key otp))
  | .comparing key otp stored, _ =>
    if otpMatches argon stored.pending otp then
      ({ s with accepted := s.accepted ++ [⟨key, stored.code, s.codes.length⟩] }, none)
    else
      ({ s with wrong := s.wrong ++ [stored.code] },
        if MAX_OTP_ATTEMPTS ≤ stored.pending.attempts + 1 then some (.locking key stored)
        else some (.timing key stored))
  | .locking key _, _ => (deleteKey s key, none)
  | .timing key stored, _ => (s, some (.writing key stored (ttl s.keys s.now key)))
  | .writing key stored ttl, _ => (writeBack s key stored ttl, none)
  | .resending email, drawn =>
    let normalized := normalizeEmail email
    match get s.keys s.now (pendingKey (normalizeEmail normalized)) with
    | none => (s, none)
    | some stored =>
      if s.now - stored.pending.lastSentAt < 1000 * RESEND_COOLDOWN_SECONDS then (s, none)
      else
        (s, some (.reissuing (pendingKey normalized) (reissued argon s.now stored.pending drawn)
          stored.signup))
  | .reissuing key pending signup, _ => (storeCode s key pending signup, none)

/-- The operations over one Redis; the environment lets milliseconds pass. -/
def signups : System Signups SignupCall SignupRequest Drawn ℕ where
  start := startOperation argon
  resume := resumeOperation argon
  environment s elapsed := { s with now := s.now + elapsed }

end System

def noSignups (now : ℤ) : State Signups SignupCall := ⟨⟨now, fun _ => none, [], [], [], [], []⟩, []⟩

theorem normalizeEmail_normalizeEmail (email : String) :
    normalizeEmail (normalizeEmail email) = normalizeEmail email := by
  simp only [normalizeEmail, String.toList_ofList, toLowerCase_trim_idem]

end HeirsOcr.Signup
