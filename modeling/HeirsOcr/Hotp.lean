import HeirsOcr.DecimalText
import HeirsOcr.Totp
import Mathlib.Data.List.GetD
import Mathlib.Order.Bounds.Basic

/-!
# One-time passwords of RFC 4226

The password of a counter over unbounded numbers: the digest of the counter's eight bytes, four of
its bytes from an offset that the last one gives, and their last six digits. The program computes
it with signed numbers of 32 bits, and it tries the counters of a window in turn.
-/
namespace HeirsOcr.Totp
open JsText DecimalText AddressText

/-- The number of a row of bytes. -/
def bigEndian (bytes : List UInt8) : ℕ := bytes.foldl (fun n b => n * 256 + b.toNat) 0

def hotpOffset (digest : List UInt8) : ℕ := (digest.getLastD 0).toNat % 16

def hotpValue (digest : List UInt8) : ℕ :=
  bigEndian ((digest.drop (hotpOffset digest)).take 4) % 2 ^ 31

/-- The password of six digits. -/
def hotp (digest : List UInt8) : List Char := decText 6 (hotpValue digest % 10 ^ 6)

section Truncation

variable {a b c d : UInt8}

/-- Four bytes put together by shifts; the first loses its sign. -/
def joinBytes (a b c d : UInt8) : BitVec 32 :=
  (BitVec.ofNat 32 a.toNat &&& 0x7f) <<< 24 ||| BitVec.ofNat 32 b.toNat <<< 16 |||
    BitVec.ofNat 32 c.toNat <<< 8 ||| BitVec.ofNat 32 d.toNat

theorem toNat_shiftLeft_byte {n k : ℕ} (h : n < 256) (hk : k ≤ 24) :
    (BitVec.ofNat 32 n <<< k).toNat = n <<< k := by
  have hpow : 2 ^ k ≤ 2 ^ 24 := Nat.pow_le_pow_right (by norm_num) hk
  have hlt : n * 2 ^ k < 2 ^ 32 := by nlinarith
  have hsmall : n < 2 ^ 32 := by omega
  rw [BitVec.toNat_shiftLeft, BitVec.toNat_ofNat, Nat.mod_eq_of_lt hsmall, Nat.shiftLeft_eq,
    Nat.mod_eq_of_lt hlt]

/-- A byte put behind a number. -/
theorem shiftLeft_or_byte (n k : ℕ) {m : ℕ} (h : m < 256) :
    n <<< (k + 8) ||| m <<< k = (n * 256 + m) <<< k := by
  have hlt : m <<< k < 2 ^ (k + 8) := by
    rw [Nat.shiftLeft_eq, pow_add, Nat.mul_comm]
    exact Nat.mul_lt_mul_of_pos_left (by omega) (Nat.two_pow_pos k)
  rw [← Nat.shiftLeft_add_eq_or_of_lt hlt, Nat.shiftLeft_eq, Nat.shiftLeft_eq, Nat.shiftLeft_eq,
    pow_add]
  ring

theorem toNat_joinBytes (a b c d : UInt8) :
    (joinBytes a b c d).toNat = bigEndian [a, b, c, d] % 2 ^ 31 := by
  have ha : (BitVec.ofNat 32 a.toNat &&& 0x7f) = BitVec.ofNat 32 (a.toNat % 128) := by
    apply BitVec.eq_of_toNat_eq
    have hsmall : a.toNat < 2 ^ 32 := lt_trans a.toNat_lt (by norm_num)
    have hmask : (0x7f : BitVec 32).toNat = 2 ^ 7 - 1 := rfl
    rw [BitVec.toNat_and, BitVec.toNat_ofNat, BitVec.toNat_ofNat, Nat.mod_eq_of_lt hsmall, hmask,
      Nat.and_two_pow_sub_one_eq_mod, Nat.mod_eq_of_lt (lt_of_le_of_lt (Nat.mod_le _ _) hsmall)]
  have hmod : a.toNat % 128 < 256 := (Nat.mod_lt _ (by norm_num)).trans (by norm_num)
  have hb := b.toNat_lt
  have hc := c.toNat_lt
  have hd := d.toNat_lt
  have hlast : BitVec.ofNat 32 d.toNat = BitVec.ofNat 32 d.toNat <<< 0 :=
    (BitVec.shiftLeft_zero _).symm
  rw [joinBytes, ha, hlast, BitVec.toNat_or, BitVec.toNat_or, BitVec.toNat_or,
    toNat_shiftLeft_byte hmod le_rfl, toNat_shiftLeft_byte hb (by norm_num),
    toNat_shiftLeft_byte hc (by norm_num), toNat_shiftLeft_byte hd (by norm_num),
    shiftLeft_or_byte _ 16 hb, shiftLeft_or_byte _ 8 hc, shiftLeft_or_byte _ 0 hd,
    Nat.shiftLeft_zero]
  have hvalue : bigEndian [a, b, c, d] =
      ((a.toNat * 256 + b.toNat) * 256 + c.toNat) * 256 + d.toNat := by
    simp [bigEndian]
  rw [hvalue]
  omega

/-- The signed number the program sees. -/
theorem toInt_joinBytes (a b c d : UInt8) :
    (joinBytes a b c d).toInt = (bigEndian [a, b, c, d] % 2 ^ 31 : ℕ) := by
  have hnat := toNat_joinBytes a b c d
  have hlt : bigEndian [a, b, c, d] % 2 ^ 31 < 2 ^ 31 := Nat.mod_lt _ (by norm_num)
  rw [BitVec.toInt_eq_toNat_of_lt (by omega), hnat]

theorem take_four_drop {digest : List UInt8} {o : ℕ} (h : o + 4 ≤ digest.length) :
    (digest.drop o).take 4 = [digest.getD o 0, digest.getD (o + 1) 0, digest.getD (o + 2) 0,
      digest.getD (o + 3) 0] := by
  have hget : ∀ i < digest.length, digest.drop i = digest.getD i 0 :: digest.drop (i + 1) := by
    intro i hi
    rw [List.getD_eq_getElem _ _ hi]
    exact List.drop_eq_getElem_cons hi
  rw [hget o (by omega), hget (o + 1) (by omega), hget (o + 2) (by omega), hget (o + 3) (by omega)]
  rfl

theorem truncate_offset (digest : List UInt8) :
    (BitVec.ofNat 32 (digest.getD (digest.length - 1) 0).toNat &&& 0x0f).toNat =
      hotpOffset digest := by
  have hlast : digest.getD (digest.length - 1) 0 = digest.getLastD 0 := by
    rw [List.getLastD_eq_getLast?, List.getLast?_eq_getElem?, List.getD_eq_getElem?_getD]
  have hsmall : (digest.getLastD 0).toNat < 2 ^ 32 :=
    lt_trans (digest.getLastD 0).toNat_lt (by norm_num)
  have hmask : (0x0f : BitVec 32).toNat = 2 ^ 4 - 1 := rfl
  rw [hlast, BitVec.toNat_and, BitVec.toNat_ofNat, Nat.mod_eq_of_lt hsmall, hmask,
    Nat.and_two_pow_sub_one_eq_mod]
  rfl

/-- The last byte is read, and four bytes from the place it names. -/
theorem truncateReads_eq (digest : List UInt8) : truncateReads digest =
    (digest.length - 1) :: (List.range 4).map (hotpOffset digest + ·) := by
  rw [← truncate_offset]
  rfl

theorem truncateReads_lt {digest : List UInt8} (h : digest.length = 20) :
    ∀ i ∈ truncateReads digest, i < digest.length := by
  have hoffset : hotpOffset digest < 16 := Nat.mod_lt _ (by norm_num)
  intro i hi
  simp only [truncateReads_eq, List.mem_cons, List.mem_map, List.mem_range] at hi
  rcases hi with rfl | ⟨k, hk, rfl⟩
  · omega
  · omega

theorem truncateBinary_eq (digest : List UInt8) : truncateBinary digest =
    joinBytes (digest.getD (hotpOffset digest) 0) (digest.getD (hotpOffset digest + 1) 0)
      (digest.getD (hotpOffset digest + 2) 0) (digest.getD (hotpOffset digest + 3) 0) := by
  rw [← truncate_offset]
  rfl

theorem truncateBinary_toInt {digest : List UInt8} (h : digest.length = 20) :
    (truncateBinary digest).toInt = hotpValue digest := by
  have hoffset : hotpOffset digest < 16 := Nat.mod_lt _ (by norm_num)
  rw [truncateBinary_eq, toInt_joinBytes, hotpValue, take_four_drop (by omega)]

theorem truncate_eq {digest : List UInt8} (h : digest.length = 20) :
    truncate digest = hotp digest := by
  have hoffset : hotpOffset digest < 16 := Nat.mod_lt _ (by norm_num)
  have hvalue : (truncateBinary digest).toNat = hotpValue digest := by
    rw [truncateBinary_eq, toNat_joinBytes, hotpValue, take_four_drop (by omega)]
  rw [truncate, hvalue, hotp]
  exact padStart_toDigits (by decide) (Nat.mod_lt _ (by norm_num))

end Truncation

theorem counterBytes_eq {c : ℕ} (h : c < 2 ^ 53) : ∃ message : List UInt8,
    message.length = 8 ∧ bigEndian message = c ∧ counterBytes c = .ok message := by
  refine ⟨uint32BE (c / 2 ^ 32) ++ uint32BE (c % 2 ^ 32), rfl, ?_, ?_⟩
  · simp only [bigEndian, uint32BE, List.cons_append, List.nil_append, List.foldl_cons,
      List.foldl_nil, UInt8.toNat_ofNat']
    omega
  · have hhigh : ((c : ℤ) / 2 ^ 32).toNat = c / 2 ^ 32 := by omega
    have hlow : ((c : ℤ) % 2 ^ 32).toNat = c % 2 ^ 32 := by omega
    rw [counterBytes, if_pos (by omega), hhigh, hlow]

variable {hmacSha1 : List UInt8 → List UInt8 → List UInt8} {secret : String} {key : List UInt8}

/-- The code of a counter is the password of its eight bytes. -/
theorem codeForCounter_eq (hdigest : ∀ key message, (hmacSha1 key message).length = 20)
    (hsecret : base32Decode secret.toList = .ok key) {c : ℕ} (h : c < 2 ^ 53) :
    ∃ message : List UInt8, message.length = 8 ∧ bigEndian message = c ∧
      codeForCounter hmacSha1 secret c = .ok (hotp (hmacSha1 key message)) := by
  obtain ⟨message, hlength, hvalue, hbytes⟩ := counterBytes_eq h
  refine ⟨message, hlength, hvalue, ?_⟩
  rw [codeForCounter, hbytes, hsecret, ← truncate_eq (hdigest key message)]
  rfl

/-- A counter within a step of now and above the last one used. -/
def Candidate (at' : ℤ) (notBefore : Option ℤ) (c : ℤ) : Prop :=
  |c - counterFor at'| ≤ 1 ∧ ∀ n ∈ notBefore, n < c

/-- The code as it was sent, without spaces. -/
def sent (code : String) : List Char := code.toList.filter fun c => !isSpace c

theorem mem_window {at' c : ℤ} : c ∈ window at' ↔ |c - counterFor at'| ≤ 1 := by
  have hwindow : window at' = [counterFor at' - 1, counterFor at', counterFor at' + 1] := by
    simp [window, SKEW_STEPS, List.range_succ]
    omega
  rw [hwindow, abs_le]
  simp only [List.mem_cons, List.not_mem_nil, or_false]
  omega

/-- A counter whose code is the one sent. -/
def Accepted (hmacSha1 : List UInt8 → List UInt8 → List UInt8) (secret : String)
    (trimmed : List Char) (notBefore : Option ℤ) (c : ℤ) : Prop :=
  (∀ n ∈ notBefore, n < c) ∧ codeForCounter hmacSha1 secret c = .ok trimmed

/-- A scan finds the least accepted counter, as long as the counters it tries have codes. -/
theorem scan_spec (trimmed : List Char) {notBefore : Option ℤ} {counters : List ℤ}
    (hsorted : counters.Pairwise (· < ·))
    (hcodes : ∀ c ∈ counters, (∀ n ∈ notBefore, n < c) →
      ∃ code, codeForCounter hmacSha1 secret c = .ok code) :
    (∃ c, scan hmacSha1 secret trimmed notBefore counters = .ok (some c) ∧
        IsLeast {c | c ∈ counters ∧ Accepted hmacSha1 secret trimmed notBefore c} c) ∨
      (scan hmacSha1 secret trimmed notBefore counters = .ok none ∧
        ∀ c ∈ counters, ¬ Accepted hmacSha1 secret trimmed notBefore c) := by
  induction counters with
  | nil => exact .inr ⟨rfl, by simp⟩
  | cons counter rest ih =>
    obtain ⟨hlt, hsorted⟩ := List.pairwise_cons.mp hsorted
    have hrest := ih hsorted fun c hc => hcodes c (List.mem_cons_of_mem _ hc)
    -- a counter that is not accepted leaves the decision to the rest
    have hpassed : ¬ Accepted hmacSha1 secret trimmed notBefore counter →
        scan hmacSha1 secret trimmed notBefore (counter :: rest) =
          scan hmacSha1 secret trimmed notBefore rest →
        (∃ c, scan hmacSha1 secret trimmed notBefore (counter :: rest) = .ok (some c) ∧
            IsLeast {c | c ∈ counter :: rest ∧ Accepted hmacSha1 secret trimmed notBefore c} c) ∨
          (scan hmacSha1 secret trimmed notBefore (counter :: rest) = .ok none ∧
            ∀ c ∈ counter :: rest, ¬ Accepted hmacSha1 secret trimmed notBefore c) := by
      intro hnot hscan
      rw [hscan]
      rcases hrest with ⟨c, hc, ⟨hmem, haccepted⟩, hleast⟩ | ⟨hnone, hall⟩
      · refine .inl ⟨c, hc, ⟨List.mem_cons_of_mem _ hmem, haccepted⟩, ?_⟩
        rintro b ⟨hb, hb'⟩
        rcases List.mem_cons.mp hb with rfl | hb
        · exact absurd hb' hnot
        · exact hleast ⟨hb, hb'⟩
      · exact .inr ⟨hnone, List.forall_mem_cons.mpr ⟨hnot, hall⟩⟩
    by_cases habove : ∀ n ∈ notBefore, n < counter
    · have hskip : ¬ (notBefore.any fun n => counter ≤ n) = true := by
        cases notBefore with
        | none => simp
        | some n => simpa using habove n rfl
      obtain ⟨code, hcode⟩ := hcodes counter List.mem_cons_self habove
      have hscan : scan hmacSha1 secret trimmed notBefore (counter :: rest) =
          if code = trimmed then .ok (some counter)
          else scan hmacSha1 secret trimmed notBefore rest := by
        rw [scan, if_neg hskip, hcode]
      by_cases heq : code = trimmed
      · rw [if_pos heq] at hscan
        refine .inl ⟨counter, hscan, ⟨List.mem_cons_self, habove, by rw [hcode, heq]⟩, ?_⟩
        rintro b ⟨hb, -⟩
        rcases List.mem_cons.mp hb with rfl | hb
        · exact le_rfl
        · exact (hlt b hb).le
      · rw [if_neg heq] at hscan
        refine hpassed (fun h => heq ?_) hscan
        have hsame := hcode.symm.trans h.2
        exact Except.ok.inj hsame
    · have hskip : (notBefore.any fun n => counter ≤ n) = true := by
        cases notBefore with
        | none => simp at habove
        | some n => simpa using habove
      exact hpassed (fun h => habove h.1) (by rw [scan, if_pos hskip])

theorem pairwise_window (at' : ℤ) : (window at').Pairwise (· < ·) := by
  rw [window, List.pairwise_map]
  exact List.pairwise_lt_range.imp fun hlt => by omega

/-- A code is accepted as that of the least candidate that has it, and refused if none has. -/
structure AcceptsLeast (hmacSha1 : List UInt8 → List UInt8 → List UInt8) (secret code : String)
    (at' : ℤ) (notBefore : Option ℤ) : Prop where
  accepted : ∀ c, verifyCode hmacSha1 secret code at' notBefore = .ok (some c) ↔
    IsLeast {c | Candidate at' notBefore c ∧
      codeForCounter hmacSha1 secret c = .ok (sent code)} c
  refused : verifyCode hmacSha1 secret code at' notBefore = .ok none ↔
    ∀ c, Candidate at' notBefore c → codeForCounter hmacSha1 secret c ≠ .ok (sent code)

/-- A password has six digits. -/
theorem isDigit_hotp (digest : List UInt8) :
    (hotp digest).length = DIGITS ∧ (hotp digest).all isDigit = true :=
  ⟨length_decText _ _, List.all_eq_true.mpr (isDigit_decText _ _)⟩

section Verify

variable {code : String} {at' : ℤ} {notBefore : Option ℤ}

/-- What a code is compared with is a password. -/
theorem candidate_code (hdigest : ∀ key message, (hmacSha1 key message).length = 20)
    (hsecret : base32Decode secret.toList = .ok key)
    (hrange : ∀ c, Candidate at' notBefore c → 0 ≤ c ∧ c < 2 ^ 53) {c : ℤ}
    (hc : Candidate at' notBefore c) :
    ∃ digest : List UInt8, codeForCounter hmacSha1 secret c = .ok (hotp digest) := by
  obtain ⟨hnonneg, hlt⟩ := hrange c hc
  obtain ⟨n, rfl⟩ := Int.eq_ofNat_of_zero_le hnonneg
  obtain ⟨message, -, -, hmessage⟩ := codeForCounter_eq hdigest hsecret (by omega : n < 2 ^ 53)
  exact ⟨_, hmessage⟩

theorem candidate_iff (c : ℤ) :
    (c ∈ window at' ∧ Accepted hmacSha1 secret (sent code) notBefore c) ↔
      Candidate at' notBefore c ∧ codeForCounter hmacSha1 secret c = .ok (sent code) := by
  simp only [mem_window, Accepted, Candidate, and_assoc]

theorem verifyCode_cases (hdigest : ∀ key message, (hmacSha1 key message).length = 20)
    (hsecret : base32Decode secret.toList = .ok key)
    (hrange : ∀ c, Candidate at' notBefore c → 0 ≤ c ∧ c < 2 ^ 53) :
    (∃ c, verifyCode hmacSha1 secret code at' notBefore = .ok (some c) ∧
        IsLeast {c | Candidate at' notBefore c ∧
          codeForCounter hmacSha1 secret c = .ok (sent code)} c) ∨
      (verifyCode hmacSha1 secret code at' notBefore = .ok none ∧
        ∀ c, Candidate at' notBefore c →
          codeForCounter hmacSha1 secret c ≠ .ok (sent code)) := by
  by_cases hform : (sent code).length = DIGITS ∧ (sent code).all isDigit
  · have hverify : verifyCode hmacSha1 secret code at' notBefore =
        scan hmacSha1 secret (sent code) notBefore (window at') := if_pos hform
    have hcodes : ∀ c ∈ window at', (∀ n ∈ notBefore, n < c) →
        ∃ code, codeForCounter hmacSha1 secret c = .ok code := by
      intro c hc habove
      obtain ⟨digest, hcode⟩ := candidate_code hdigest hsecret hrange ⟨mem_window.mp hc, habove⟩
      exact ⟨_, hcode⟩
    rw [hverify]
    rcases scan_spec (sent code) (pairwise_window at') hcodes with
      ⟨c, hc, hleast⟩ | ⟨hnone, hall⟩
    · simp only [candidate_iff] at hleast
      exact .inl ⟨c, hc, hleast⟩
    · exact .inr ⟨hnone, fun c hc heq => hall c (mem_window.mpr hc.1) ⟨hc.2, heq⟩⟩
  · refine .inr ⟨if_neg hform, fun c hc heq => hform ?_⟩
    obtain ⟨digest, hcode⟩ := candidate_code hdigest hsecret hrange hc
    have hsame : hotp digest = sent code := Except.ok.inj (hcode.symm.trans heq)
    rw [← hsame]
    exact isDigit_hotp digest

theorem acceptsLeast_of_range (hdigest : ∀ key message, (hmacSha1 key message).length = 20)
    (hsecret : base32Decode secret.toList = .ok key)
    (hrange : ∀ c, Candidate at' notBefore c → 0 ≤ c ∧ c < 2 ^ 53) :
    AcceptsLeast hmacSha1 secret code at' notBefore := by
  rcases @verifyCode_cases _ _ _ code _ _ hdigest hsecret hrange with
    ⟨found, hfound, hleast⟩ | ⟨hnone, hall⟩
  · constructor
    · intro c
      rw [hfound]
      constructor
      · intro h
        obtain rfl : found = c := Option.some_inj.mp (Except.ok.inj h)
        exact hleast
      · intro h
        rw [h.unique hleast]
    · rw [hfound]
      constructor
      · intro h
        cases h
      · intro h
        exact absurd hleast.1.2 (h found hleast.1.1)
  · constructor
    · intro c
      rw [hnone]
      constructor
      · intro h
        cases h
      · intro h
        exact absurd h.1.2 (hall c h.1.1)
    · exact ⟨fun _ => hall, fun _ => hnone⟩

end Verify

/-- The code of every counter is the password of its eight bytes, whose digest is read inside and
in numbers that keep their sign, and a submitted code is accepted as that of the least counter in
the window, above the last one used, that has it. -/
theorem totp_is_hotp (hdigest : ∀ key message, (hmacSha1 key message).length = 20)
    (hsecret : base32Decode secret.toList = .ok key) :
    (∀ c : ℕ, c ≤ 2 ^ 53 - 1 → ∃ message : List UInt8, message.length = 8 ∧
      bigEndian message = c ∧
      codeForCounter hmacSha1 secret c = .ok (hotp (hmacSha1 key message)) ∧
      (truncateBinary (hmacSha1 key message)).toInt = hotpValue (hmacSha1 key message) ∧
      ∀ i ∈ truncateReads (hmacSha1 key message), i < (hmacSha1 key message).length) ∧
    ∀ (code : String) (at' : ℤ) (notBefore : Option ℤ),
      (∀ c, Candidate at' notBefore c → 0 ≤ c ∧ c ≤ 2 ^ 53 - 1) →
        AcceptsLeast hmacSha1 secret code at' notBefore := by
  constructor
  · intro c hc
    obtain ⟨message, hlength, hvalue, hcode⟩ :=
      codeForCounter_eq hdigest hsecret (by omega : c < 2 ^ 53)
    exact ⟨message, hlength, hvalue, hcode, truncateBinary_toInt (hdigest key message),
      truncateReads_lt (hdigest key message)⟩
  · intro code at' notBefore hrange
    exact acceptsLeast_of_range hdigest hsecret fun c hc => by
      have hc := hrange c hc
      omega

def testSecret : String := "GEZDGNBVGY3TQOJQGEZDGNBVGY3TQOJQ"

/-- The digests of the counters 0 to 2 for the test secret of RFC 4226. -/
def testMac (_key message : List UInt8) : List UInt8 :=
  match bigEndian message with
  | 0 => [0xcc, 0x93, 0xcf, 0x18, 0x50, 0x8d, 0x94, 0x93, 0x4c, 0x64, 0xb6, 0x5d, 0x8b, 0xa7, 0x66,
    0x7f, 0xb7, 0xcd, 0xe4, 0xb0]
  | 1 => [0x75, 0xa4, 0x8a, 0x19, 0xd4, 0xcb, 0xe1, 0x00, 0x64, 0x4e, 0x8a, 0xc1, 0x39, 0x7e, 0xea,
    0x74, 0x7a, 0x2d, 0x33, 0xab]
  | 2 => [0x0b, 0xac, 0xb7, 0xfa, 0x08, 0x2f, 0xef, 0x30, 0x78, 0x22, 0x11, 0x93, 0x8b, 0xc1, 0xc5,
    0xe7, 0x04, 0x16, 0xff, 0x44]
  | _ => List.replicate 20 0

/-- A minute after the epoch. -/
theorem totp_is_hotp_minute : AcceptsLeast testMac testSecret "287 082" 59000 none ∧
    codeForCounter testMac testSecret 1 = .ok "287082".toList := by
  have hlength : ∀ key message, (testMac key message).length = 20 := by
    intro key message
    rw [testMac]
    split <;> rfl
  have hsecret : base32Decode testSecret.toList =
      .ok [0x31, 0x32, 0x33, 0x34, 0x35, 0x36, 0x37, 0x38, 0x39, 0x30, 0x31, 0x32, 0x33, 0x34, 0x35,
        0x36, 0x37, 0x38, 0x39, 0x30] := by decide +kernel
  refine ⟨(totp_is_hotp hlength hsecret).2 _ _ _ ?_, by decide +kernel⟩
  rintro c ⟨hc, -⟩
  have hnow : counterFor 59000 = 1 := by decide
  rw [hnow, abs_le] at hc
  omega

end HeirsOcr.Totp
