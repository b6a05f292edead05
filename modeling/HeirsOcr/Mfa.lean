import HeirsOcr.StepMachine
import HeirsOcr.Totp

/-!
# The second factor of one account

The MFA columns of one user row and the five operations on them. Each operation but
`disableMfa` reads the row in one statement and writes it in a later one, with nothing in
the `UPDATE` that looks at the row again, so the state keeps the calls that have read and
not yet written, and a run may write them in any order. Which factors were accepted,
which recovery codes are no longer valid and which secret was proved at enrolment are
recorded beside the row.
-/
namespace HeirsOcr.Mfa
open JsText Totp StepMachine

def RECOVERY_CODE_COUNT : ℕ := 10

def RECOVERY_ALPHABET : List Char := "ABCDEFGHJKMNPQRSTVWXYZ23456789".toList

def RECOVERY_HALF : ℕ := 5

/-- The two digests the module uses, keyed HMAC-SHA1 and SHA-256 in hex. -/
structure Digests where
  hmacSha1 : List UInt8 → List UInt8 → List UInt8
  sha256Hex : String → String

structure MfaRow where
  secret : Option String
  enabled : Bool
  lastCounter : Option ℤ
  recoveryCodes : Option (List String)
  deriving DecidableEq, Repr

def normalizeRecoveryCode (code : String) : String :=
  String.ofList (toUpperCase (code.toList.filter fun c => !(isSpace c || c == '-')))

def hashRecoveryCode (d : Digests) (code : String) : String :=
  d.sha256Hex (normalizeRecoveryCode code)

/-- One `xxxxx-xxxxx` code, from the numbers `randomInt` draws for it. -/
def generateRecoveryCode (draw : ℕ → Fin 30) : String :=
  String.ofList <| (List.range (RECOVERY_HALF * 2)).flatMap fun i =>
    (if i = RECOVERY_HALF then ['-'] else []) ++ [RECOVERY_ALPHABET.getD (draw i) 'A']

def mintRecoveryCodes (draws : ℕ → ℕ → Fin 30) : List String :=
  (List.range RECOVERY_CODE_COUNT).map fun i => generateRecoveryCode (draws i)

/-- The statement a call still has to run. A confirmation also carries the secret it
verified a code against, and a recovery the list it read. -/
inductive Write where
  | beginEnrolment (secret : String)
  | confirmEnrolment (secret : String) (counter : ℤ) (codes : List String)
  | regenerateRecoveryCodes (codes : List String)
  | totp (counter : ℤ)
  | recovery (submitted : String) (stored : List String)
  deriving DecidableEq, Repr

inductive MfaError where
  | alreadyEnabled
  | totp (e : TotpError)
  deriving DecidableEq, Repr

/-- The hashes in `mfa_recovery_codes`. -/
def codes (row : MfaRow) : List String := row.recoveryCodes.getD []

/-- `mfa_secret` where it is neither `NULL` nor empty. -/
def secret? (row : MfaRow) : Option String := row.secret.filter fun s => s ≠ ""

/-- The read half of `beginEnrolment`. -/
def readBegin (row : MfaRow) (random : List UInt8) : Except MfaError (Option Write) :=
  if row.enabled then .error .alreadyEnabled
  else .ok (some (.beginEnrolment (generateSecret random)))

/-- The read half of `confirmEnrolment`; `none` is `{ ok: false }`. -/
def readConfirm (d : Digests) (row : MfaRow) (code : String) (at' : ℤ)
    (draws : ℕ → ℕ → Fin 30) : Except MfaError (Option Write) :=
  match secret? row with
  | none => .ok none
  | some secret =>
    if row.enabled then .ok none
    else
      match verifyCode d.hmacSha1 secret code at' none with
      | .error e => .error (.totp e)
      | .ok none => .ok none
      | .ok (some counter) =>
        .ok (some (.confirmEnrolment secret counter
          ((mintRecoveryCodes draws).map (hashRecoveryCode d))))

/-- The read half of `regenerateRecoveryCodes`. -/
def readRegenerate (d : Digests) (row : MfaRow) (draws : ℕ → ℕ → Fin 30) :
    Except MfaError (Option Write) :=
  if row.enabled then
    .ok (some (.regenerateRecoveryCodes ((mintRecoveryCodes draws).map (hashRecoveryCode d))))
  else .ok none

/-- The read half of `verifyMfa`: the code as a TOTP first, then as a recovery code. -/
def readVerify (d : Digests) (row : MfaRow) (code : String) (at' : ℤ) :
    Except MfaError (Option Write) :=
  match secret? row with
  | none => .ok none
  | some secret =>
    if !row.enabled then .ok none
    else
      match verifyCode d.hmacSha1 secret code at' row.lastCounter with
      | .error e => .error (.totp e)
      | .ok (some counter) => .ok (some (.totp counter))
      | .ok none =>
        let submitted := hashRecoveryCode d code
        if submitted ∈ codes row then .ok (some (.recovery submitted (codes row)))
        else .ok none

/-- The `UPDATE` of a call. A recovery drops the first entry that matches. -/
def runWrite (row : MfaRow) : Write → MfaRow
  | .beginEnrolment secret =>
    { row with secret := some secret, enabled := false, lastCounter := none }
  | .confirmEnrolment _ counter codes =>
    { row with enabled := true, lastCounter := some counter, recoveryCodes := some codes }
  | .regenerateRecoveryCodes codes => { row with recoveryCodes := some codes }
  | .totp counter => { row with lastCounter := some counter }
  | .recovery submitted stored => { row with recoveryCodes := some (stored.erase submitted) }

/-- A factor `verifyMfa` answered for with success. -/
inductive Accepted where
  | totp (counter : ℤ)
  | recovery (hash : String)
  deriving DecidableEq, Repr

/-- The row and the calls under way, then the record of the run: factors accepted, hashes
spent or superseded, and the secret proved when the row was enabled. -/
structure Account where
  row : MfaRow
  calls : List Write
  accepted : List Accepted
  gone : List String
  proved : Option String

/-- A call writes and returns. -/
def Account.run (s : Account) (i : ℕ) (w : Write) : Account :=
  let t := { s with row := runWrite s.row w, calls := s.calls.eraseIdx i }
  match w with
  | .beginEnrolment _ => t
  | .confirmEnrolment secret _ _ =>
    { t with
      gone := codes s.row ++ s.gone
      proved := if s.row.enabled then s.proved else some secret }
  | .regenerateRecoveryCodes _ => { t with gone := codes s.row ++ s.gone }
  | .totp counter => { t with accepted := .totp counter :: s.accepted }
  | .recovery submitted _ =>
    { t with accepted := .recovery submitted :: s.accepted, gone := submitted :: s.gone }

/-- `disableMfa`, one statement. -/
def Account.disable (s : Account) : Account :=
  { s with row := ⟨none, false, none, none⟩, gone := codes s.row ++ s.gone }

/-- A call's read, the write of the `i`th call under way, or that call's loss. -/
inductive Action where
  | beginEnrolment (random : List UInt8)
  | confirmEnrolment (code : String) (at' : ℤ) (draws : ℕ → ℕ → Fin 30)
  | disableMfa
  | regenerateRecoveryCodes (draws : ℕ → ℕ → Fin 30)
  | verifyMfa (code : String) (at' : ℤ)
  | write (i : ℕ)
  | lose (i : ℕ)

/-- What the read half of an action finds to write. -/
def readRow (d : Digests) (row : MfaRow) : Action → Except MfaError (Option Write)
  | .beginEnrolment random => readBegin row random
  | .confirmEnrolment code at' draws => readConfirm d row code at' draws
  | .regenerateRecoveryCodes draws => readRegenerate d row draws
  | .verifyMfa code at' => readVerify d row code at'
  | .disableMfa | .write _ | .lose _ => .ok none

/-- A refused or failed call leaves the state as it is. -/
def step (d : Digests) (s : Account) : Action → Option Account
  | .write i =>
    match s.calls[i]? with
    | none => none
    | some w => some (s.run i w)
  | .lose i => some { s with calls := s.calls.eraseIdx i }
  | .disableMfa => some s.disable
  | a =>
    match readRow d s.row a with
    | .ok (some w) => some { s with calls := s.calls ++ [w] }
    | _ => some s

/-- Everything a step can do: run a call's write, disable, or change nothing but the calls
under way, where a new one is what the read half found. -/
theorem step_cases {d : Digests} {s t : Account} {a : Action} (h : step d s a = some t) :
    (∃ i w, a = .write i ∧ s.calls[i]? = some w ∧ t = s.run i w) ∨
    (a = .disableMfa ∧ t = s.disable) ∨
    (∀ i, a ≠ .write i) ∧ ∃ calls, t = { s with calls := calls } ∧
      ∀ w ∈ calls, w ∈ s.calls ∨ readRow d s.row a = .ok (some w) := by
  have hread : ∀ b : Action, (match readRow d s.row b with
      | .ok (some w) => some { s with calls := s.calls ++ [w] }
      | _ => some s) = some t →
      ∃ calls, t = { s with calls := calls } ∧
        ∀ w ∈ calls, w ∈ s.calls ∨ readRow d s.row b = .ok (some w) := by
    intro b hb
    split at hb
    · rename_i w hw
      refine ⟨_, (Option.some.inj hb).symm, fun v hv => ?_⟩
      rcases List.mem_append.mp hv with hv | hv
      · exact Or.inl hv
      · rw [List.mem_singleton.mp hv]
        exact Or.inr hw
    · exact ⟨s.calls, (Option.some.inj hb).symm, fun v hv => Or.inl hv⟩
  cases a with
  | write i =>
    simp only [step] at h
    cases hw : s.calls[i]? with
    | none => simp [hw] at h
    | some w =>
      simp only [hw, Option.some.injEq] at h
      exact Or.inl ⟨i, w, rfl, hw, h.symm⟩
  | lose i =>
    refine Or.inr (Or.inr ⟨nofun, _, (Option.some.inj h).symm, fun w hw => Or.inl ?_⟩)
    exact List.mem_of_mem_eraseIdx hw
  | disableMfa => exact Or.inr (Or.inl ⟨rfl, (Option.some.inj h).symm⟩)
  | beginEnrolment random => exact Or.inr (Or.inr ⟨nofun, hread (.beginEnrolment random) h⟩)
  | confirmEnrolment code at' draws =>
    exact Or.inr (Or.inr ⟨nofun, hread (.confirmEnrolment code at' draws) h⟩)
  | regenerateRecoveryCodes draws =>
    exact Or.inr (Or.inr ⟨nofun, hread (.regenerateRecoveryCodes draws) h⟩)
  | verifyMfa code at' => exact Or.inr (Or.inr ⟨nofun, hread (.verifyMfa code at') h⟩)

@[simp] theorem run_row (s : Account) (i : ℕ) (w : Write) : (s.run i w).row = runWrite s.row w := by
  cases w <;> rfl

@[simp] theorem run_calls (s : Account) (i : ℕ) (w : Write) :
    (s.run i w).calls = s.calls.eraseIdx i := by
  cases w <;> rfl

/-- What a verification that passed has found: a counter of the window above the stored
one whose code was sent, or a stored code. -/
theorem readVerify_eq_some {d : Digests} {row : MfaRow} {code : String} {at' : ℤ} {w : Write}
    (h : readVerify d row code at' = .ok (some w)) :
    (∃ c, w = .totp c ∧ ∀ l ∈ row.lastCounter, l < c) ∨
    (w = .recovery (hashRecoveryCode d code) (codes row) ∧
      hashRecoveryCode d code ∈ codes row) := by
  unfold readVerify at h
  cases hs : secret? row with
  | none => simp [hs] at h
  | some secret =>
    by_cases hen : row.enabled
    · simp only [hs, hen, Bool.not_true, Bool.false_eq_true, if_false] at h
      cases hv : verifyCode d.hmacSha1 secret code at' row.lastCounter with
      | error e => simp [hv] at h
      | ok found =>
        cases found with
        | some counter =>
          obtain rfl : Write.totp counter = w := by simpa [hv] using h
          exact Or.inl ⟨counter, rfl, (verifyCode_eq_some hv).2.1⟩
        | none =>
          simp only [hv] at h
          split_ifs at h with hmem
          · obtain rfl : Write.recovery _ _ = w := by simpa using h
            exact Or.inr ⟨rfl, hmem⟩
          · simp at h
    · simp [hs, hen] at h

/-- A secret some submitted code was verified against. -/
def Proved (d : Digests) (secret : String) : Prop :=
  ∃ code at' counter, verifyCode d.hmacSha1 secret code at' none = .ok (some counter)

theorem readConfirm_eq_some {d : Digests} {row : MfaRow} {code : String} {at' : ℤ}
    {draws : ℕ → ℕ → Fin 30} {w : Write} (h : readConfirm d row code at' draws = .ok (some w)) :
    ∃ secret counter minted, w = .confirmEnrolment secret counter minted ∧
      row.secret = some secret ∧ Proved d secret := by
  unfold readConfirm at h
  cases hs : secret? row with
  | none => simp [hs] at h
  | some secret =>
    simp only [hs] at h
    split_ifs at h with hen
    · simp at h
    · cases hv : verifyCode d.hmacSha1 secret code at' none with
      | error e => simp [hv] at h
      | ok found =>
        cases found with
        | none => simp [hv] at h
        | some counter =>
          obtain rfl : Write.confirmEnrolment _ _ _ = w := by simpa [hv] using h
          refine ⟨_, _, _, rfl, (Option.filter_eq_some_iff.mp hs).1, code, at', counter, hv⟩

/-- `"12345678901234567890"`. -/
def rfcKey : List UInt8 :=
  [0x31, 0x32, 0x33, 0x34, 0x35, 0x36, 0x37, 0x38, 0x39, 0x30, 0x31, 0x32, 0x33, 0x34, 0x35, 0x36,
    0x37, 0x38, 0x39, 0x30]

/-- `rfcKey` in base32. -/
def rfcSecret : String := "GEZDGNBVGY3TQOJQGEZDGNBVGY3TQOJQ"

/-- The digests of `rfcKey` for the first three counters, and of the recovery codes
`AAAAA-AAAAA` and `BBBBB-BBBBB`. -/
def rfcDigests : Digests where
  hmacSha1 key msg :=
    if key = rfcKey then
      match msg with
      | [0, 0, 0, 0, 0, 0, 0, 0] =>
        [0xcc, 0x93, 0xcf, 0x18, 0x50, 0x8d, 0x94, 0x93, 0x4c, 0x64,
          0xb6, 0x5d, 0x8b, 0xa7, 0x66, 0x7f, 0xb7, 0xcd, 0xe4, 0xb0]
      | [0, 0, 0, 0, 0, 0, 0, 1] =>
        [0x75, 0xa4, 0x8a, 0x19, 0xd4, 0xcb, 0xe1, 0x00, 0x64, 0x4e,
          0x8a, 0xc1, 0x39, 0x7e, 0xea, 0x74, 0x7a, 0x2d, 0x33, 0xab]
      | [0, 0, 0, 0, 0, 0, 0, 2] =>
        [0x0b, 0xac, 0xb7, 0xfa, 0x08, 0x2f, 0xef, 0x30, 0x78, 0x22,
          0x11, 0x93, 0x8b, 0xc1, 0xc5, 0xe7, 0x04, 0x16, 0xff, 0x44]
      | _ => []
    else []
  sha256Hex text :=
    if text = "AAAAAAAAAA" then
      "1d65bf29403e4fb1767522a107c827b8884d16640cf0e3b18c4c1dd107e0d49d"
    else if text = "BBBBBBBBBB" then
      "4e5d54f50370b936533dfcb2f3540a242b5df12fc0631cde1c290492f7bd9bfe"
    else ""

end HeirsOcr.Mfa
