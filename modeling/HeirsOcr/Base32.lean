import HeirsOcr.BitRows
import HeirsOcr.Totp
import HeirsOcr.UnicodeTables
import Mathlib.Data.Bool.AllAny

/-!
# Base32 there and back

The encoder and the decoder regroup one row of bits, the first from eights to fives and the second
back. Neither masks its accumulator: of its 32 bits only the lowest have a meaning, as many as are
not written yet.
-/
namespace HeirsOcr.Totp
open JsText BitRows

def digitBits (c : Char) : ℕ → Bool := ((BASE32_ALPHABET.idxOf? c).getD 0).testBit

def byteBits (b : UInt8) : ℕ → Bool := b.toNat.testBit

/-- The bits an encoder has taken in. -/
def taken (s : Base32State Char) : List Bool :=
  rows 5 digitBits s.out ++ row s.bits s.value.getLsbD

/-- The bits a decoder has read. -/
def digested (s : Base32State UInt8) : List Bool :=
  rows 8 byteBits s.out ++ row s.bits s.value.getLsbD

theorem alphabet_getD : ∀ n < 32, BASE32_ALPHABET.idxOf? (BASE32_ALPHABET.getD n 'A') = some n ∧
    BASE32_ALPHABET.getD n 'A' ∈ BASE32_ALPHABET := by
  decide +kernel

theorem toNat_and_31_lt (v : BitVec 32) : (v &&& 31).toNat < 32 := by
  rw [BitVec.toNat_and]
  exact Nat.lt_of_le_of_lt Nat.and_le_right (by decide)

theorem base32Char_mem (v : BitVec 32) : base32Char v ∈ BASE32_ALPHABET :=
  (alphabet_getD _ (toNat_and_31_lt v)).2

theorem digitBits_base32Char (v : BitVec 32) :
    ∀ i < 5, digitBits (base32Char v) i = v.getLsbD i := by
  intro i hi
  have hidx := (alphabet_getD _ (toNat_and_31_lt v)).1
  have hmask : (31 : BitVec 32).getLsbD i = true := by
    interval_cases i <;> rfl
  rw [digitBits, base32Char, hidx, Option.getD_some, BitVec.testBit_toNat, BitVec.getLsbD_and,
    hmask, Bool.and_true]

/-- A written digit takes its bits off the row. -/
theorem row_base32Char (v : BitVec 32) (n : ℕ) :
    row 5 (digitBits (base32Char (v >>> n))) ++ row n v.getLsbD = row (5 + n) v.getLsbD := by
  have hdigit : row 5 (digitBits (base32Char (v >>> n))) = row 5 fun i => v.getLsbD (n + i) :=
    row_congr fun i hi => (digitBits_base32Char _ i hi).trans (BitVec.getLsbD_ushiftRight v n i)
  rw [hdigit, row_add]

theorem byteBits_ofNat (v : BitVec 32) :
    ∀ i < 8, byteBits (UInt8.ofNat (v &&& 255).toNat) i = v.getLsbD i := by
  intro i hi
  have hlt : (v &&& 255).toNat < 256 := by
    rw [BitVec.toNat_and]
    exact Nat.lt_of_le_of_lt Nat.and_le_right (by decide)
  have hmask : (255 : BitVec 32).getLsbD i = true := by
    interval_cases i <;> rfl
  rw [byteBits, UInt8.toNat_ofNat', Nat.mod_eq_of_lt hlt, BitVec.testBit_toNat, BitVec.getLsbD_and,
    hmask, Bool.and_true]

/-- A byte that is put out takes its bits off the row. -/
theorem row_byte (v : BitVec 32) (n : ℕ) :
    row 8 (byteBits (UInt8.ofNat (v >>> n &&& 255).toNat)) ++ row n v.getLsbD =
      row (8 + n) v.getLsbD := by
  have hbyte : row 8 (byteBits (UInt8.ofNat (v >>> n &&& 255).toNat)) =
      row 8 fun i => v.getLsbD (n + i) :=
    row_congr fun i hi => (byteBits_ofNat _ i hi).trans (BitVec.getLsbD_ushiftRight v n i)
  rw [hbyte, row_add]

/-- A number shifted in goes behind the row, whatever the bits above the row are. -/
theorem row_shiftIn (v : BitVec 32) {n width d : ℕ} (hd : d < 2 ^ width) (h : n + width ≤ 32) :
    row (n + width) (v <<< width ||| BitVec.ofNat 32 d).getLsbD =
      row n v.getLsbD ++ row width d.testBit := by
  rw [row_add]
  congr 1
  · apply row_congr
    intro i hi
    have hhigh : d.testBit (width + i) = false :=
      Nat.testBit_lt_two_pow (hd.trans_le (Nat.pow_le_pow_right (by norm_num) (by omega)))
    have hlt : width + i < 32 := by omega
    have hge : ¬ width + i < width := by omega
    simp only [BitVec.getLsbD_or, BitVec.getLsbD_shiftLeft, BitVec.getLsbD_ofNat, hhigh, hlt, hge,
      decide_true, decide_false, Bool.not_false, Bool.true_and, Bool.and_false, Bool.or_false,
      Nat.add_sub_cancel_left]
  · apply row_congr
    intro i hi
    have hlt : i < 32 := by omega
    simp only [BitVec.getLsbD_or, BitVec.getLsbD_shiftLeft, BitVec.getLsbD_ofNat, hi, hlt,
      decide_true, Bool.not_true, Bool.true_and, Bool.and_false, Bool.false_and, Bool.false_or]

theorem encodeByte_spec {s : Base32State Char} (h : s.bits < 5) (byte : UInt8) :
    (encodeByte s byte).bits < 5 ∧
      taken (encodeByte s byte) = taken s ++ row 8 (byteBits byte) := by
  have hin : row (s.bits + 8) (s.value <<< 8 ||| BitVec.ofNat 32 byte.toNat).getLsbD =
      row s.bits s.value.getLsbD ++ row 8 (byteBits byte) :=
    row_shiftIn s.value byte.toNat_lt (by omega)
  rw [taken, taken, List.append_assoc, ← hin, encodeByte]
  set value := s.value <<< 8 ||| BitVec.ofNat 32 byte.toNat
  have hfirst : row 5 (digitBits (base32Char (value >>> (s.bits + 8 - 5)))) ++
      row (s.bits + 8 - 5) value.getLsbD = row (s.bits + 8) value.getLsbD := by
    rw [row_base32Char]
    congr 1
    omega
  split_ifs with htwice
  · have hsecond : row 5 (digitBits (base32Char (value >>> (s.bits + 8 - 10)))) ++
        row (s.bits + 8 - 10) value.getLsbD = row (s.bits + 8 - 5) value.getLsbD := by
      rw [row_base32Char]
      congr 1
      omega
    refine ⟨by dsimp only; omega, ?_⟩
    rw [rows_append, rows_append, rows_singleton, rows_singleton, List.append_assoc,
      List.append_assoc, hsecond, hfirst]
  · refine ⟨by dsimp only; omega, ?_⟩
    rw [rows_append, rows_singleton, List.append_assoc, hfirst]

theorem foldl_encodeByte {s : Base32State Char} (h : s.bits < 5) (buf : List UInt8) :
    (buf.foldl encodeByte s).bits < 5 ∧
      taken (buf.foldl encodeByte s) = taken s ++ rows 8 byteBits buf := by
  induction buf generalizing s with
  | nil => exact ⟨h, (List.append_nil _).symm⟩
  | cons byte buf ih =>
    obtain ⟨hbits, htaken⟩ := encodeByte_spec h byte
    obtain ⟨hbits', htaken'⟩ := ih hbits
    refine ⟨hbits', ?_⟩
    rw [List.foldl_cons, htaken', htaken, rows_cons, List.append_assoc]

/-- An encoded text is the row of its bytes, and fewer zeros than a digit. -/
theorem rows_base32Encode (buf : List UInt8) : ∃ pad : List Bool, pad.length < 5 ∧
    rows 5 digitBits (base32Encode buf) = rows 8 byteBits buf ++ pad := by
  obtain ⟨hbits, htaken⟩ := foldl_encodeByte (s := ⟨0, 0, []⟩) (by decide) buf
  rw [base32Encode]
  set s := buf.foldl encodeByte ⟨0, 0, []⟩
  have hrow : rows 5 digitBits s.out ++ row s.bits s.value.getLsbD = rows 8 byteBits buf := htaken
  split_ifs with hrest
  · have hlast : row 5 (digitBits (base32Char (s.value <<< (5 - s.bits)))) =
        row s.bits s.value.getLsbD ++ row (5 - s.bits) (Nat.testBit 0) := by
      have hin := row_shiftIn (d := 0) s.value (Nat.two_pow_pos (5 - s.bits))
        (by omega : s.bits + (5 - s.bits) ≤ 32)
      rw [BitVec.or_zero, Nat.add_sub_of_le hbits.le] at hin
      rw [← hin, row_congr (digitBits_base32Char _)]
    refine ⟨row (5 - s.bits) (Nat.testBit 0), by rw [length_row]; omega, ?_⟩
    rw [rows_append, rows_singleton, hlast, ← List.append_assoc, hrow]
  · have hzero : s.bits = 0 := by omega
    refine ⟨[], by decide, ?_⟩
    rw [← hrow, hzero, row_zero, List.append_nil, List.append_nil]

theorem encodeByte_mem {s : Base32State Char} (h : ∀ c ∈ s.out, c ∈ BASE32_ALPHABET)
    (byte : UInt8) : ∀ c ∈ (encodeByte s byte).out, c ∈ BASE32_ALPHABET := by
  intro c hc
  rw [encodeByte] at hc
  split_ifs at hc
  · simp only [List.mem_append, List.mem_singleton] at hc
    rcases hc with (hc | rfl) | rfl
    · exact h c hc
    · exact base32Char_mem _
    · exact base32Char_mem _
  · simp only [List.mem_append, List.mem_singleton] at hc
    rcases hc with hc | rfl
    · exact h c hc
    · exact base32Char_mem _

/-- An encoded text is of the alphabet. -/
theorem mem_base32Encode (buf : List UInt8) : ∀ c ∈ base32Encode buf, c ∈ BASE32_ALPHABET := by
  have hfold : ∀ s : Base32State Char, (∀ c ∈ s.out, c ∈ BASE32_ALPHABET) →
      ∀ c ∈ (buf.foldl encodeByte s).out, c ∈ BASE32_ALPHABET := by
    induction buf with
    | nil => exact fun s h => h
    | cons byte buf ih => exact fun s h => ih _ (encodeByte_mem h byte)
  have hout := hfold ⟨0, 0, []⟩ (by simp)
  intro c hc
  rw [base32Encode] at hc
  split_ifs at hc
  · rcases List.mem_append.mp hc with hc | hc
    · exact hout c hc
    · obtain rfl := List.mem_singleton.mp hc
      exact base32Char_mem _
  · exact hout c hc

theorem idxOf?_of_mem {c : Char} (hc : c ∈ BASE32_ALPHABET) :
    ∃ n, BASE32_ALPHABET.idxOf? c = some n ∧ n < 2 ^ 5 := by
  have hall : ∀ d ∈ BASE32_ALPHABET, (BASE32_ALPHABET.idxOf? d).any (· < 2 ^ 5) :=
    List.all_iff_forall_prop.mp (by decide +kernel)
  obtain ⟨n, hn, hlt⟩ := (Option.any_eq_true _ _).mp (hall c hc)
  exact ⟨n, hn, of_decide_eq_true hlt⟩

theorem decodeChar_spec {s : Base32State UInt8} {c : Char} (hc : c ∈ BASE32_ALPHABET)
    (h : s.bits < 8) : ∃ s', decodeChar s c = .ok s' ∧ s'.bits < 8 ∧
      digested s' = digested s ++ row 5 (digitBits c) := by
  obtain ⟨idx, hidx, hlt⟩ := idxOf?_of_mem hc
  have hdigit : digitBits c = idx.testBit := by rw [digitBits, hidx, Option.getD_some]
  have hin := row_shiftIn s.value hlt (by omega : s.bits + 5 ≤ 32)
  rw [decodeChar, hidx, digested, List.append_assoc, hdigit, ← hin]
  dsimp only
  set value := s.value <<< 5 ||| BitVec.ofNat 32 idx
  split_ifs with hfull
  · have hbyte : row 8 (byteBits (UInt8.ofNat (value >>> (s.bits + 5 - 8) &&& 255).toNat)) ++
        row (s.bits + 5 - 8) value.getLsbD = row (s.bits + 5) value.getLsbD := by
      rw [row_byte]
      congr 1
      omega
    refine ⟨_, rfl, by dsimp only; omega, ?_⟩
    rw [digested, rows_append, rows_singleton, List.append_assoc, hbyte]
  · exact ⟨_, rfl, by dsimp only; omega, rfl⟩

theorem foldlM_decodeChar {cs : List Char} (hcs : ∀ c ∈ cs, c ∈ BASE32_ALPHABET)
    {s : Base32State UInt8} (h : s.bits < 8) : ∃ s', cs.foldlM decodeChar s = .ok s' ∧
      s'.bits < 8 ∧ digested s' = digested s ++ rows 5 digitBits cs := by
  induction cs generalizing s with
  | nil => exact ⟨s, rfl, h, (List.append_nil _).symm⟩
  | cons c cs ih =>
    obtain ⟨t, hstep, hbits, hread⟩ := decodeChar_spec (hcs c List.mem_cons_self) h
    obtain ⟨s', hrun, hbits', hread'⟩ := ih (fun d hd => hcs d (List.mem_cons_of_mem c hd)) hbits
    refine ⟨s', ?_, hbits', ?_⟩
    · rw [List.foldlM_cons, hstep]
      exact hrun
    · rw [hread', hread, rows_cons, List.append_assoc]

/-- Digits that are read leave only digits of the alphabet behind them. -/
theorem mem_of_foldlM_decodeChar {cs : List Char} {s s' : Base32State UInt8}
    (h : cs.foldlM decodeChar s = .ok s') : ∀ c ∈ cs, c ∈ BASE32_ALPHABET := by
  induction cs generalizing s with
  | nil => simp
  | cons c cs ih =>
    rw [List.foldlM_cons] at h
    cases hstep : decodeChar s c with
    | error e =>
      rw [hstep] at h
      cases h
    | ok t =>
      rw [hstep] at h
      have hc : c ∈ BASE32_ALPHABET := by
        by_contra hnot
        rw [decodeChar, List.idxOf?_eq_none_iff.mpr hnot] at hstep
        cases hstep
      exact List.forall_mem_cons.mpr ⟨hc, ih h⟩

/-- What a character leaves when spaces and padding are gone. -/
def cleanChar (c : Char) : List Char := if isSpace c || c == '=' then [] else upperChar c

def clean (text : List Char) : List Char := text.flatMap cleanChar

theorem base32Decode_eq (text : List Char) :
    base32Decode text = ((clean text).foldlM decodeChar ⟨0, 0, []⟩).map Base32State.out := by
  have hclean : toUpperCase (text.filter fun c => !(isSpace c || c == '=')) = clean text := by
    induction text with
    | nil => rfl
    | cons c text ih =>
      rw [clean, List.flatMap_cons, cleanChar, List.filter_cons]
      cases isSpace c || c == '=' with
      | true => exact ih
      | false => exact congrArg (upperChar c ++ ·) ih
  rw [base32Decode, hclean]

/-- A text typed in again: letters may be small, and spaces and padding may be added anywhere. -/
inductive Retyped : List Char → List Char → Prop
  | nil : Retyped [] []
  | keep (c : Char) {text typed : List Char} : Retyped text typed → Retyped (c :: text) (c :: typed)
  | lower (c : Char) {text typed : List Char} :
    Retyped text typed → Retyped (c :: text) (lowerChar c ++ typed)
  | add (c : Char) {text typed : List Char} (h : isSpace c ∨ c = '=') :
    Retyped text typed → Retyped text (c :: typed)

theorem retyped_toLowerCase (text : List Char) : Retyped text (toLowerCase text) := by
  induction text with
  | nil => exact .nil
  | cons c text ih => exact .lower c ih

theorem cleanChar_of_dropped {c : Char} (h : isSpace c ∨ c = '=') : cleanChar c = [] := by
  have hdropped : (isSpace c || c == '=') = true := by simpa using h
  rw [cleanChar, if_pos hdropped]

/-- A small letter is cleaned to what its capital is, if that is of the alphabet. -/
theorem clean_lowerChar {c : Char} (h : ∀ d ∈ cleanChar c, d ∈ BASE32_ALPHABET) :
    clean (lowerChar c) = cleanChar c := by
  by_cases hcapital : 0x41 ≤ c.toNat ∧ c.toNat ≤ 0x5a
  · exact forall_char_range (fun c => clean (lowerChar c) = cleanChar c) (by decide +kernel) c
      hcapital.1 hcapital.2
  · have hother : ¬(decide (0x41 ≤ c.toNat) && decide (c.toNat ≤ 0x5a)) = true := by
      simpa using hcapital
    rw [lowerChar, if_neg hother]
    split
    · rename_i hdotted
      obtain rfl : c = Char.ofNat 0x130 := by rw [← hdotted, Char.ofNat_toNat]
      exact absurd (h (Char.ofNat 0x130) (by decide)) (by decide)
    · rename_i hkelvin
      obtain rfl : c = Char.ofNat 0x212a := by rw [← hkelvin, Char.ofNat_toNat]
      exact absurd (h (Char.ofNat 0x212a) (by decide)) (by decide)
    · exact List.flatMap_singleton _ _

theorem clean_of_retyped {text typed : List Char} (hretyped : Retyped text typed)
    (h : ∀ c ∈ clean text, c ∈ BASE32_ALPHABET) : clean typed = clean text := by
  induction hretyped with
  | nil => rfl
  | keep c hrest ih =>
    rw [clean, List.flatMap_cons] at h
    exact congrArg (cleanChar c ++ ·) (ih fun d hd => h d (List.mem_append_right _ hd))
  | lower c hrest ih =>
    rw [clean, List.flatMap_cons] at h
    rw [clean, List.flatMap_append]
    exact congrArg₂ (· ++ ·) (clean_lowerChar fun d hd => h d (List.mem_append_left _ hd))
      (ih fun d hd => h d (List.mem_append_right _ hd))
  | add c hdropped hrest ih =>
    rw [clean, List.flatMap_cons, cleanChar_of_dropped hdropped]
    exact ih h

/-- Decoding does not see spaces and padding. -/
theorem base32Decode_filter (text : List Char) :
    base32Decode (text.filter fun c => !(isSpace c || c == '=')) = base32Decode text := by
  simp only [base32Decode, List.filter_filter, Bool.and_self]

/-- A text that decodes, decodes to the same bytes when it is typed in again. -/
theorem base32Decode_retyped {text typed : List Char} {bytes : List UInt8}
    (h : base32Decode text = .ok bytes) (hretyped : Retyped text typed) :
    base32Decode typed = .ok bytes := by
  have hmem : ∀ c ∈ clean text, c ∈ BASE32_ALPHABET := by
    rw [base32Decode_eq] at h
    cases hrun : (clean text).foldlM decodeChar ⟨0, 0, []⟩ with
    | error e =>
      rw [hrun] at h
      cases h
    | ok s => exact mem_of_foldlM_decodeChar hrun
  rw [base32Decode_eq, clean_of_retyped hretyped hmem, ← base32Decode_eq, h]

theorem base32Decode_base32Encode (buf : List UInt8) :
    base32Decode (base32Encode buf) = .ok buf := by
  have hclean : clean (base32Encode buf) = base32Encode buf := by
    have hfixed : ∀ c ∈ BASE32_ALPHABET, cleanChar c = [c] :=
      List.all_iff_forall_prop.mp (by decide +kernel)
    exact (List.flatMap_congr fun c hc => hfixed c (mem_base32Encode buf c hc)).trans
      (List.flatMap_singleton' _)
  obtain ⟨s, hrun, hbits, hread⟩ := foldlM_decodeChar (mem_base32Encode buf)
    (s := ⟨0, 0, []⟩) (by decide)
  obtain ⟨pad, hpad, hrow⟩ := rows_base32Encode buf
  have hsame : rows 8 byteBits s.out ++ row s.bits s.value.getLsbD = rows 8 byteBits buf ++ pad :=
    hread.trans hrow
  have hinj : ∀ a b : UInt8, (∀ i < 8, byteBits a i = byteBits b i) → a = b := by
    intro a b hab
    apply UInt8.toNat_inj.mp
    apply Nat.eq_of_testBit_eq
    intro i
    by_cases hi : i < 8
    · exact hab i hi
    · have hpow : 2 ^ 8 ≤ 2 ^ i := Nat.pow_le_pow_right (by norm_num) (Nat.not_lt.mp hi)
      rw [Nat.testBit_lt_two_pow (a.toNat_lt.trans_le hpow),
        Nat.testBit_lt_two_pow (b.toNat_lt.trans_le hpow)]
  have hout : s.out = buf :=
    eq_of_rows_append hinj (by rw [length_row]; exact hbits) (by omega) hsame
  rw [base32Decode_eq, hclean, hrun, ← hout]
  rfl

/-- Bytes are read back from their text, also when it is typed in again, and whatever decodes is
decoded alike when it is typed in again. -/
theorem base32_round_trip :
    (∀ buf : List UInt8, base32Decode (base32Encode buf) = .ok buf) ∧
      (∀ (buf : List UInt8) (typed : List Char), Retyped (base32Encode buf) typed →
        base32Decode typed = .ok buf) ∧
      (∀ (text typed : List Char) (bytes : List UInt8), base32Decode text = .ok bytes →
        Retyped text typed → base32Decode typed = .ok bytes) ∧
      ∀ text : List Char,
        base32Decode (text.filter fun c => !(isSpace c || c == '=')) = base32Decode text :=
  ⟨base32Decode_base32Encode,
    fun buf _ hretyped => base32Decode_retyped (base32Decode_base32Encode buf) hretyped,
    fun _ _ _ h hretyped => base32Decode_retyped h hretyped, base32Decode_filter⟩

theorem base32_round_trip_foo : base32Encode [0x66, 0x6f, 0x6f] = "MZXW6".toList ∧
    base32Decode "mzxw6".toList = .ok [0x66, 0x6f, 0x6f] := by
  have hencode : base32Encode [0x66, 0x6f, 0x6f] = "MZXW6".toList := by decide +kernel
  refine ⟨hencode, base32_round_trip.2.1 [0x66, 0x6f, 0x6f] _ ?_⟩
  rw [hencode]
  exact retyped_toLowerCase "MZXW6".toList

end HeirsOcr.Totp
