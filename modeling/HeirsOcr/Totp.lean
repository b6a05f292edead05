import HeirsOcr.JsText

/-!
# Time-based one-time passwords

RFC 6238 as `auth/totp.ts` computes it: base32 text over 32-bit shifts, a six digit code
for a counter, and the scan of the skew window that `verifyCode` makes. HMAC-SHA1 is a
parameter. Times are milliseconds.
-/
namespace HeirsOcr.Totp
open JsText

def STEP_SECONDS : ℤ := 30

def DIGITS : ℕ := 6

def SKEW_STEPS : ℕ := 1

def BASE32_ALPHABET : List Char := "ABCDEFGHIJKLMNOPQRSTUVWXYZ234567".toList

/-- What the module throws. -/
inductive TotpError where
  | invalidBase32
  | counterOutOfRange
  deriving DecidableEq, Repr

/-- The bits not written yet, the 32-bit accumulator and the output. -/
structure Base32State (α : Type) where
  bits : ℕ
  value : BitVec 32
  out : List α

/-- `BASE32_ALPHABET[v & 31]`. -/
def base32Char (v : BitVec 32) : Char := BASE32_ALPHABET.getD (v &&& 31).toNat 'A'

/-- One byte of the loop; it leaves fewer than five bits, so the inner loop runs once or
twice. -/
def encodeByte (s : Base32State Char) (byte : UInt8) : Base32State Char :=
  let value := s.value <<< 8 ||| BitVec.ofNat 32 byte.toNat
  let bits := s.bits + 8
  let out := s.out ++ [base32Char (value >>> (bits - 5))]
  if bits - 5 ≥ 5 then ⟨bits - 10, value, out ++ [base32Char (value >>> (bits - 10))]⟩
  else ⟨bits - 5, value, out⟩

def base32Encode (buf : List UInt8) : List Char :=
  let s := buf.foldl encodeByte ⟨0, 0, []⟩
  if s.bits > 0 then s.out ++ [base32Char (s.value <<< (5 - s.bits))] else s.out

def decodeChar (s : Base32State UInt8) (char : Char) : Except TotpError (Base32State UInt8) :=
  match BASE32_ALPHABET.idxOf? char with
  | none => .error .invalidBase32
  | some idx =>
    let value := s.value <<< 5 ||| BitVec.ofNat 32 idx
    let bits := s.bits + 5
    if bits ≥ 8 then
      .ok ⟨bits - 8, value, s.out ++ [UInt8.ofNat (value >>> (bits - 8) &&& 255).toNat]⟩
    else .ok ⟨bits, value, s.out⟩

def base32Decode (input : List Char) : Except TotpError (List UInt8) :=
  let clean := toUpperCase (input.filter fun c => !(isSpace c || c == '='))
  (clean.foldlM decodeChar ⟨0, 0, []⟩).map Base32State.out

/-- A secret from twenty random bytes. -/
def generateSecret (random : List UInt8) : String := String.ofList (base32Encode random)

def counterFor (at' : ℤ) : ℤ := at' / (1000 * STEP_SECONDS)

/-- `writeUInt32BE`. -/
def uint32BE (v : ℕ) : List UInt8 :=
  [UInt8.ofNat (v / 2 ^ 24), UInt8.ofNat (v / 2 ^ 16), UInt8.ofNat (v / 2 ^ 8), UInt8.ofNat v]

/-- The eight bytes of a counter; a high half outside 32 bits makes the write throw. -/
def counterBytes (counter : ℤ) : Except TotpError (List UInt8) :=
  let high := counter / 2 ^ 32
  if 0 ≤ high ∧ high < 2 ^ 32 then
    .ok (uint32BE high.toNat ++ uint32BE (counter % 2 ^ 32).toNat)
  else .error .counterOutOfRange

/-- The signed number that is taken from a digest of a length, byte by byte as they are read. -/
def binaryOf {μ : Type → Type} [Monad μ] (read : ℕ → μ UInt8) (length : ℕ) : μ (BitVec 32) := do
  let byte := fun i => (fun b => BitVec.ofNat 32 b.toNat) <$> read i
  let last ← byte (length - 1)
  let offset := (last &&& 0x0f).toNat
  let first ← byte offset
  let second ← byte (offset + 1)
  let third ← byte (offset + 2)
  let fourth ← byte (offset + 3)
  return (first &&& 0x7f) <<< 24 ||| second <<< 16 ||| third <<< 8 ||| fourth

def truncateBinary (digest : List UInt8) : BitVec 32 :=
  Id.run (binaryOf (fun i => pure (digest.getD i 0)) digest.length)

/-- Dynamic truncation of a digest to six digits. -/
def truncate (digest : List UInt8) : List Char :=
  padStart DIGITS '0' (Nat.toDigits 10 ((truncateBinary digest).toNat % 10 ^ DIGITS))

/-- The places of a digest that `truncate` reads, one after the other. -/
def truncateReads (digest : List UInt8) : List ℕ :=
  let logged : StateM (List ℕ) (BitVec 32) :=
    binaryOf (fun i => do
      modify (· ++ [i])
      return digest.getD i 0) digest.length
  (logged.run []).2

variable (hmacSha1 : List UInt8 → List UInt8 → List UInt8)

def codeForCounter (secret : String) (counter : ℤ) : Except TotpError (List Char) := do
  let buf ← counterBytes counter
  let key ← base32Decode secret.toList
  .ok (truncate (hmacSha1 key buf))

/-- The scan over the counters of the window, oldest first. -/
def scan (secret : String) (trimmed : List Char) (notBefore : Option ℤ) :
    List ℤ → Except TotpError (Option ℤ)
  | [] => .ok none
  | counter :: rest =>
    if notBefore.any fun n => counter ≤ n then scan secret trimmed notBefore rest
    else
      match codeForCounter hmacSha1 secret counter with
      | .error e => .error e
      | .ok code => if code = trimmed then .ok (some counter)
        else scan secret trimmed notBefore rest

/-- The counters `verifyCode` tries at a time. -/
def window (at' : ℤ) : List ℤ :=
  (List.range (2 * SKEW_STEPS + 1)).map fun i : ℕ => counterFor at' - SKEW_STEPS + i

/-- The counter a submitted code matches, or `none`. -/
def verifyCode (secret : String) (code : String) (at' : ℤ) (notBefore : Option ℤ) :
    Except TotpError (Option ℤ) :=
  let trimmed := code.toList.filter fun c => !isSpace c
  if trimmed.length = DIGITS ∧ trimmed.all isDigit then
    scan hmacSha1 secret trimmed notBefore (window at')
  else .ok none

variable {hmacSha1}

/-- A match comes from the list, above the last counter, and its code is the one sent. -/
theorem scan_eq_some {secret : String} {trimmed : List Char} {notBefore : Option ℤ}
    {counters : List ℤ} {c : ℤ}
    (h : scan hmacSha1 secret trimmed notBefore counters = .ok (some c)) :
    c ∈ counters ∧ (∀ n ∈ notBefore, n < c) ∧
      codeForCounter hmacSha1 secret c = .ok trimmed := by
  induction counters with
  | nil => cases h
  | cons counter rest ih =>
    rw [scan] at h
    split_ifs at h with hskip
    · obtain ⟨hmem, hlast, hcode⟩ := ih h
      exact ⟨List.mem_cons_of_mem _ hmem, hlast, hcode⟩
    · cases hc : codeForCounter hmacSha1 secret counter with
      | error e => simp [hc] at h
      | ok code =>
        simp only [hc] at h
        split_ifs at h with heq
        · obtain rfl : counter = c := by simpa using h
          refine ⟨List.mem_cons_self .., fun n hn => ?_, by rw [hc, heq]⟩
          obtain rfl := Option.mem_def.mp hn
          simpa using hskip
        · obtain ⟨hmem, hlast, hcode⟩ := ih h
          exact ⟨List.mem_cons_of_mem _ hmem, hlast, hcode⟩

/-- An accepted code is the code of a counter within the skew window and above the last
one consumed. -/
theorem verifyCode_eq_some {secret code : String} {at' : ℤ} {notBefore : Option ℤ} {c : ℤ}
    (h : verifyCode hmacSha1 secret code at' notBefore = .ok (some c)) :
    c ∈ window at' ∧ (∀ n ∈ notBefore, n < c) ∧
      codeForCounter hmacSha1 secret c = .ok (code.toList.filter fun c => !isSpace c) := by
  simp only [verifyCode] at h
  split_ifs at h with hform
  · exact scan_eq_some h
  · cases h

end HeirsOcr.Totp
