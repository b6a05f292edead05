import HeirsOcr.ExpiringKeys
import HeirsOcr.Interleaving

/-!
# Sessions and the index of a user's sessions

`createSessionStore`: a session is kept under its token, and the tokens of a user in a set.
The two expire on their own clocks, and an operation writes them with separate commands,
between which other operations run theirs and time passes. Every command succeeds. The keys of
sessions and of indexes never meet, since no token has a colon in it, so each kind has a
keyspace of its own.
-/
namespace HeirsOcr.SessionStore
open ExpiringKeys Interleaving

variable {T Token : Type} [DecidableEq Token]

/-- What the store is built with: the identities of a surface, its session lifetime, and the
tokens `randomBytes` gives, no two of which are the same. -/
structure Options (T Token : Type) where
  userIdOf : T → String
  ttlSeconds : ℕ
  randomToken : ℕ → Token
  distinct : Function.Injective randomToken

structure SessionContext where
  ip : Option String
  userAgent : Option String
  deriving DecidableEq, Repr

structure StoredSession (T : Type) where
  identity : T
  createdAt : ℤ
  context : SessionContext
  deriving DecidableEq, Repr

/-- A `revokeOthers`, with the user's tokens whose `create` had returned when it started. -/
structure Revocation (Token : Type) where
  userId : String
  keepToken : Option Token
  earlier : List Token
  deriving DecidableEq, Repr

/-- Redis and its clock in milliseconds, the number of tokens drawn, and what has returned so
far: the users and tokens of `create`, and the revocations. -/
structure Store (T Token : Type) where
  now : ℤ
  sessions : Keyspace Token (StoredSession T)
  index : Keyspace String (List Token)
  drawn : ℕ
  returned : List (String × Token)
  revoked : List (Revocation Token)

inductive SessionRequest (T Token : Type) where
  | create (userId : String) (identity : T) (context : SessionContext)
  | destroy (token : Token)
  | list (userId : String)
  | revokeOthers (userId : String) (keepToken : Option Token)
  deriving DecidableEq, Repr

/-- An operation by its next command: `SADD` and `EXPIRE` of `create`, `DEL` of `destroy` with
the user the session named, the `GET`s of `list`, `DEL` of `revokeOthers`, and the `SREM` that
ends the last three. -/
inductive SessionCall (Token : Type) where
  | sadd (userId : String) (token : Token)
  | expire (userId : String) (token : Token)
  | del (token : Token) (userId : Option String)
  | readStored (userId : String) (token : Token) (rest expired : List Token)
  | delAll (doomed : List Token) (revocation : Revocation Token)
  | srem (userId : String) (tokens : List Token) (revocation : Option (Revocation Token))
  deriving DecidableEq, Repr

def indexRemove (userId : String) (tokens : List Token) : Option (SessionCall Token) :=
  if tokens = [] then none else some (.srem userId tokens none)

/-- The loop of `list` over the tokens left to read. -/
def listRest (userId : String) : List Token → List Token → Option (SessionCall Token)
  | [], expired => indexRemove userId expired
  | token :: rest, expired => some (.readStored userId token rest expired)

variable (opts : Options T Token)

def startSession (m : Store T Token) :
    SessionRequest T Token → Store T Token × Option (SessionCall Token)
  | .create userId identity context =>
    let token := opts.randomToken m.drawn
    ({ m with
        drawn := m.drawn + 1
        sessions := setEx m.sessions m.now token ⟨identity, m.now, context⟩ opts.ttlSeconds },
      some (.sadd userId token))
  | .destroy token =>
    let stored := get m.sessions m.now token
    (m, some (.del token (stored.map fun s => opts.userIdOf s.identity)))
  | .list userId => (m, listRest userId (smembers m.index m.now userId) [])
  | .revokeOthers userId keepToken =>
    let earlier := (m.returned.filter fun r => r.1 = userId).map Prod.snd
    let doomed := (smembers m.index m.now userId).filter fun t => some t ≠ keepToken
    if doomed = [] then
      ({ m with revoked := m.revoked ++ [⟨userId, keepToken, earlier⟩] }, none)
    else (m, some (.delAll doomed ⟨userId, keepToken, earlier⟩))

def resumeSession (m : Store T Token) :
    SessionCall Token → Unit → Store T Token × Option (SessionCall Token)
  | .sadd userId token, _ =>
    ({ m with index := sadd m.index m.now userId token }, some (.expire userId token))
  | .expire userId token, _ =>
    ({ m with
        index := expire m.index m.now userId opts.ttlSeconds
        returned := m.returned ++ [(userId, token)] }, none)
  | .del token userId, _ =>
    ({ m with sessions := del m.sessions [token] }, userId.bind (indexRemove · [token]))
  | .readStored userId token rest expired, _ =>
    match get m.sessions m.now token with
    | none => (m, listRest userId rest (expired ++ [token]))
    | some _ => (m, listRest userId rest expired)
  | .delAll doomed revocation, _ =>
    ({ m with sessions := del m.sessions doomed },
      some (.srem revocation.userId doomed (some revocation)))
  | .srem userId tokens revocation, _ =>
    ({ m with
        index := srem m.index m.now userId tokens
        revoked := m.revoked ++ revocation.toList }, none)

/-- Any operations of any users, command by command; an event is time passing. -/
def sessionStore : System (Store T Token) (SessionCall Token) (SessionRequest T Token) Unit ℕ where
  start := startSession opts
  resume := resumeSession opts
  environment m milliseconds := { m with now := m.now + milliseconds }

/-- No session yet. -/
def signedOut (now : ℤ) : State (Store T Token) (SessionCall Token) :=
  ⟨⟨now, fun _ => none, fun _ => none, 0, [], []⟩, []⟩

end HeirsOcr.SessionStore
