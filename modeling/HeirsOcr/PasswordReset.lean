import HeirsOcr.ExpiringKeys
import HeirsOcr.Interleaving

/-!
# Password-reset links

A link is kept in Redis under the hash of its token, and beside it a pointer for each user to the
token that is live. `startPasswordReset`, `consumePasswordReset` and `discardPasswordReset` write
the two with separate commands, between which others run theirs and time passes. Every command
succeeds. The two kinds of keys never meet, so each has a keyspace of its own.
-/
namespace HeirsOcr.PasswordReset
open ExpiringKeys Interleaving

def RESET_TTL_SECONDS : ℤ := 30 * 60

def RESET_COOLDOWN_SECONDS : ℤ := 60

/-- The tokens `randomBytes` gives, and their hashes, no two of which are the same. -/
structure Options where
  randomToken : ℕ → String
  hashToken : String → String
  distinct : Function.Injective fun n => hashToken (randomToken n)

structure PasswordResetRecord where
  userId : String
  tenantId : String
  email : String
  createdAt : ℤ
  deriving DecidableEq, Repr

structure UserPointer where
  tokenHash : String
  sentAt : ℤ
  deriving DecidableEq, Repr

/-- What `startPasswordReset` is told of a user. -/
structure ResetUser where
  id : String
  tenantId : String
  email : String
  deriving DecidableEq, Repr

/-- Redis and its clock in milliseconds, the number of tokens drawn, the token last issued to each
user and the tokens redeemed so far, by their hashes. -/
structure ResetStore where
  now : ℤ
  tokens : Keyspace String PasswordResetRecord
  pointers : Keyspace String UserPointer
  drawn : ℕ
  issued : String → Option String
  redeemed : List String

inductive ResetRequest where
  | start (user : ResetUser)
  | consume (token : String)
  | discard (token userId : String)
  deriving DecidableEq, Repr

/-- A call by its next command: `GET`, `DEL`, `SET` and `SET` of a start, with the time it was
made at; `GETDEL` and `DEL` of a redemption; the one `DEL` of a discard. -/
inductive ResetCall where
  | getPointer (user : ResetUser) (startedAt : ℤ)
  | delPrevious (user : ResetUser) (startedAt : ℤ) (previous : UserPointer)
  | setToken (user : ResetUser) (startedAt : ℤ)
  | setPointer (user : ResetUser) (startedAt : ℤ) (tokenHash : String)
  | getDel (token : String)
  | delPointer (userId : String)
  | delBoth (token userId : String)
  deriving DecidableEq, Repr

/-- The seconds until another link may be requested, when the last one is too recent. -/
def cooldown (startedAt : ℤ) (previous : UserPointer) : Option ℤ :=
  let elapsedMs := startedAt - previous.sentAt
  if elapsedMs < 1000 * RESET_COOLDOWN_SECONDS then
    some ((1000 * RESET_COOLDOWN_SECONDS - elapsedMs + 999) / 1000)
  else none

section Store

variable (opts : Options)

def firstCommand (m : ResetStore) : ResetRequest → ResetCall
  | .start user => .getPointer user m.now
  | .consume token => .getDel token
  | .discard token userId => .delBoth token userId

def resumeReset (m : ResetStore) : ResetCall → Unit → ResetStore × Option ResetCall
  | .getPointer user startedAt, _ =>
    match get m.pointers m.now user.id with
    | none => (m, some (.setToken user startedAt))
    | some previous =>
      if (cooldown startedAt previous).isSome then (m, none)
      else (m, some (.delPrevious user startedAt previous))
  | .delPrevious user startedAt previous, _ =>
    ({ m with tokens := del m.tokens [previous.tokenHash] }, some (.setToken user startedAt))
  | .setToken user startedAt, _ =>
    let tokenHash := opts.hashToken (opts.randomToken m.drawn)
    ({ m with
        tokens := setEx m.tokens m.now tokenHash ⟨user.id, user.tenantId, user.email, startedAt⟩
          RESET_TTL_SECONDS
        drawn := m.drawn + 1
        issued := Function.update m.issued user.id (some tokenHash) },
      some (.setPointer user startedAt tokenHash))
  | .setPointer user startedAt tokenHash, _ =>
    ({ m with
        pointers := setEx m.pointers m.now user.id ⟨tokenHash, startedAt⟩ RESET_TTL_SECONDS },
      none)
  | .getDel token, _ =>
    match get m.tokens m.now (opts.hashToken token) with
    | none => ({ m with tokens := del m.tokens [opts.hashToken token] }, none)
    | some record =>
      ({ m with
          tokens := del m.tokens [opts.hashToken token]
          redeemed := m.redeemed ++ [opts.hashToken token] }, some (.delPointer record.userId))
  | .delPointer userId, _ => ({ m with pointers := del m.pointers [userId] }, none)
  | .delBoth token userId, _ =>
    ({ m with
        tokens := del m.tokens [opts.hashToken token]
        pointers := del m.pointers [userId] }, none)

/-- Any operations for any users, command by command; an event is time passing. -/
def passwordResets : System ResetStore ResetCall ResetRequest Unit ℕ where
  start m request := (m, some (firstCommand m request))
  resume := resumeReset opts
  environment m milliseconds := { m with now := m.now + milliseconds }

end Store

/-- No link yet. -/
def noLinks (now : ℤ) : State ResetStore ResetCall :=
  ⟨⟨now, fun _ => none, fun _ => none, 0, fun _ => none, []⟩, []⟩

section Redeemed

variable (opts : Options)

/-- The hash of a token that has been drawn. -/
def Drawn (m : ResetStore) (tokenHash : String) : Prop :=
  ∃ n < m.drawn, opts.hashToken (opts.randomToken n) = tokenHash

/-- What is in the store has been drawn and is not spent. -/
structure SpentOnce (m : ResetStore) : Prop where
  redeemed : m.redeemed.Nodup
  drawn : ∀ tokenHash ∈ m.redeemed, Drawn opts m tokenHash
  live : ∀ tokenHash e, lookup m.tokens m.now tokenHash = some e →
    Drawn opts m tokenHash ∧ tokenHash ∉ m.redeemed

variable {opts} {m m' : ResetStore}

/-- Commands that draw and spend nothing. -/
theorem SpentOnce.shrink (h : SpentOnce opts m) (hdrawn : m'.drawn = m.drawn)
    (hredeemed : m'.redeemed = m.redeemed)
    (hlive : ∀ tokenHash e, lookup m'.tokens m'.now tokenHash = some e →
      lookup m.tokens m.now tokenHash = some e) : SpentOnce opts m' := by
  have hsame (tokenHash : String) : Drawn opts m' tokenHash ↔ Drawn opts m tokenHash := by
    rw [Drawn, Drawn, hdrawn]
  refine ⟨hredeemed ▸ h.redeemed, fun tokenHash hmem => ?_, fun tokenHash e he => ?_⟩
  · rw [hsame]
    exact h.drawn tokenHash (hredeemed ▸ hmem)
  · rw [hsame, hredeemed]
    exact h.live tokenHash e (hlive tokenHash e he)

theorem SpentOnce.resume (h : SpentOnce opts m) (c : ResetCall) :
    SpentOnce opts (resumeReset opts m c ()).1 := by
  cases c with
  | getPointer user startedAt =>
    simp only [resumeReset]
    split
    · exact h
    · split_ifs <;> exact h
  | delPrevious user startedAt previous =>
    exact h.shrink rfl rfl fun tokenHash e he => (lookup_del_eq_some.mp he).1
  | setToken user startedAt =>
    have hgrow {tokenHash : String} (hdrawn : Drawn opts m tokenHash) :
        Drawn opts (resumeReset opts m (.setToken user startedAt) ()).1 tokenHash := by
      obtain ⟨n, hn, hhash⟩ := hdrawn
      exact ⟨n, Nat.lt_succ_of_lt hn, hhash⟩
    refine ⟨h.redeemed, fun tokenHash hmem => hgrow (h.drawn tokenHash hmem), ?_⟩
    intro tokenHash e he
    simp only [resumeReset] at he
    rw [lookup_setEx (by decide)] at he
    split_ifs at he with hkey
    · refine ⟨⟨m.drawn, Nat.lt_succ_self _, hkey.symm⟩, fun hmem => ?_⟩
      obtain ⟨n, hn, hhash⟩ := h.drawn tokenHash hmem
      have hsame : n = m.drawn := opts.distinct (hhash.trans hkey)
      omega
    · obtain ⟨hdrawn, hunspent⟩ := h.live tokenHash e he
      exact ⟨hgrow hdrawn, hunspent⟩
  | setPointer user startedAt tokenHash => exact h.shrink rfl rfl fun _ _ he => he
  | getDel token =>
    simp only [resumeReset]
    split
    case h_1 => exact h.shrink rfl rfl fun tokenHash e he => (lookup_del_eq_some.mp he).1
    case h_2 record hget =>
      obtain ⟨e, he, -⟩ := get_eq_some.mp hget
      obtain ⟨hdrawn, hunspent⟩ := h.live _ e he
      refine ⟨?_, fun tokenHash hmem => ?_, fun tokenHash e' he' => ?_⟩
      · rw [← List.concat_eq_append, List.nodup_concat]
        exact ⟨hunspent, h.redeemed⟩
      · rcases List.mem_append.mp hmem with hold | hnew
        · exact h.drawn tokenHash hold
        · obtain rfl := List.mem_singleton.mp hnew
          exact hdrawn
      · obtain ⟨he', hne⟩ := lookup_del_eq_some.mp he'
        obtain ⟨hdrawn', hunspent'⟩ := h.live tokenHash e' he'
        exact ⟨hdrawn', fun hmem => (List.mem_append.mp hmem).elim hunspent' hne⟩
  | delPointer userId => exact h.shrink rfl rfl fun _ _ he => he
  | delBoth token userId =>
    exact h.shrink rfl rfl fun tokenHash e he => (lookup_del_eq_some.mp he).1

theorem SpentOnce.step {s t : State ResetStore ResetCall} {a : Action ResetRequest Unit ℕ}
    (h : SpentOnce opts s.shared) (hstep : (passwordResets opts).step s a = some t) :
    SpentOnce opts t.shared := by
  cases a with
  | start request =>
    obtain rfl := Option.some.inj hstep
    exact h
  | environment milliseconds =>
    obtain rfl := Option.some.inj hstep
    refine h.shrink rfl rfl fun tokenHash e he => lookup_anti ?_ he
    exact Int.le_add_of_nonneg_right (Int.natCast_nonneg milliseconds)
  | advance i answer =>
    obtain ⟨c, -, rfl⟩ := Option.map_eq_some_iff.mp hstep
    exact h.resume c

end Redeemed

end HeirsOcr.PasswordReset
