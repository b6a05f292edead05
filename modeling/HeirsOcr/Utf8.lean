import Mathlib.Data.List.Basic
import Mathlib.Order.Basic

/-!
# UTF-8 over lists of bytes

A strict decoder, which takes the shortest sequence of bytes that encodes a character and fails
where there is none, and where a valid text may be cut: exactly before a byte that does not
continue a character.
-/
namespace HeirsOcr.Utf8

def encode (text : List Char) : List UInt8 := text.flatMap String.utf8EncodeChar

def isContinuation (b : UInt8) : Bool := decide (0x80 ≤ b.toNat) && decide (b.toNat < 0xc0)

/-- The bits of a continuation byte. -/
def payload (b : UInt8) : ℕ := b.toNat % 64

/-- The character of a number, if the bytes are its encoding. -/
def charOf (value : ℕ) (bytes : List UInt8) : Option Char :=
  if String.utf8EncodeChar (Char.ofNat value) = bytes then some (Char.ofNat value) else none

/-- The character that a sequence of bytes encodes. -/
def charOfBytes : List UInt8 → Option Char
  | [a] => charOf a.toNat [a]
  | [a, b] => charOf (a.toNat % 32 * 64 + payload b) [a, b]
  | [a, b, c] => charOf (a.toNat % 16 * 4096 + payload b * 64 + payload c) [a, b, c]
  | [a, b, c, d] =>
    charOf (a.toNat % 8 * 262144 + payload b * 4096 + payload c * 64 + payload d) [a, b, c, d]
  | _ => none

/-- Decodes with `pending` read of a character that is not complete. -/
def decodeFrom (pending : List UInt8) : List UInt8 → Option (List Char)
  | [] => if pending = [] then some [] else none
  | b :: rest =>
    match charOfBytes (pending ++ [b]) with
    | some c => (decodeFrom [] rest).map (c :: ·)
    | none => if pending.length < 3 then decodeFrom (pending ++ [b]) rest else none

/-- The text whose encoding the bytes are, `none` if they are not valid. -/
def decode (bytes : List UInt8) : Option (List Char) := decodeFrom [] bytes

@[simp] theorem decode_nil : decode [] = some [] := rfl

@[simp] theorem encode_nil : encode [] = [] := rfl

@[simp] theorem encode_cons (c : Char) (text : List Char) :
    encode (c :: text) = String.utf8EncodeChar c ++ encode text := List.flatMap_cons

@[simp] theorem encode_append (text text' : List Char) :
    encode (text ++ text') = encode text ++ encode text' := List.flatMap_append

theorem toNat_lt (c : Char) : c.toNat < 0x110000 := by
  have hvalid : c.toNat < 0xd800 ∨ 0xdfff < c.toNat ∧ c.toNat < 0x110000 := c.valid
  omega

theorem encode_one {c : Char} (h : c.toNat < 0x80) :
    String.utf8EncodeChar c = [UInt8.ofNat c.toNat] := by
  have hval : c.val.toNat = c.toNat := rfl
  rw [String.utf8EncodeChar]
  simp only [hval]
  rw [if_pos (by omega)]

theorem encode_two {c : Char} (hlow : 0x80 ≤ c.toNat) (hhigh : c.toNat < 0x800) :
    String.utf8EncodeChar c =
      [UInt8.ofNat (c.toNat / 64 % 0x20 + 0xc0), UInt8.ofNat (c.toNat % 0x40 + 0x80)] := by
  have hval : c.val.toNat = c.toNat := rfl
  rw [String.utf8EncodeChar]
  simp only [hval]
  rw [if_neg (by omega), if_pos (by omega)]

theorem encode_three {c : Char} (hlow : 0x800 ≤ c.toNat) (hhigh : c.toNat < 0x10000) :
    String.utf8EncodeChar c =
      [UInt8.ofNat (c.toNat / 4096 % 0x10 + 0xe0), UInt8.ofNat (c.toNat / 64 % 0x40 + 0x80),
        UInt8.ofNat (c.toNat % 0x40 + 0x80)] := by
  have hval : c.val.toNat = c.toNat := rfl
  rw [String.utf8EncodeChar]
  simp only [hval]
  rw [if_neg (by omega), if_neg (by omega), if_pos (by omega)]

theorem encode_four {c : Char} (hlow : 0x10000 ≤ c.toNat) :
    String.utf8EncodeChar c =
      [UInt8.ofNat (c.toNat / 262144 % 0x8 + 0xf0), UInt8.ofNat (c.toNat / 4096 % 0x40 + 0x80),
        UInt8.ofNat (c.toNat / 64 % 0x40 + 0x80), UInt8.ofNat (c.toNat % 0x40 + 0x80)] := by
  have hval : c.val.toNat = c.toNat := rfl
  rw [String.utf8EncodeChar]
  simp only [hval]
  rw [if_neg (by omega), if_neg (by omega), if_neg (by omega)]

/-- The four lengths of an encoding. -/
theorem toNat_cases (c : Char) : c.toNat < 0x80 ∨ (0x80 ≤ c.toNat ∧ c.toNat < 0x800) ∨
    (0x800 ≤ c.toNat ∧ c.toNat < 0x10000) ∨ 0x10000 ≤ c.toNat := by
  omega

@[simp] theorem toNat_ofNat_of_lt {n : ℕ} (h : n < 256) : (UInt8.ofNat n).toNat = n := by
  rw [UInt8.toNat_ofNat', Nat.mod_eq_of_lt h]

theorem toNat_continuation (n : ℕ) :
    (UInt8.ofNat (n % 0x40 + 0x80)).toNat = n % 0x40 + 0x80 := toNat_ofNat_of_lt (by omega)

/-- A first byte, which does not continue a character, and then bytes that do. -/
theorem utf8EncodeChar_eq_cons (c : Char) : ∃ first rest,
    String.utf8EncodeChar c = first :: rest ∧ isContinuation first = false ∧
      ∀ b ∈ rest, isContinuation b = true := by
  have hlt := toNat_lt c
  have htail : ∀ n, isContinuation (UInt8.ofNat (n % 0x40 + 0x80)) = true := by
    intro n
    rw [isContinuation, toNat_continuation]
    simp only [Bool.and_eq_true, decide_eq_true_eq]
    omega
  have hfirst : ∀ n < 256, n < 0x80 ∨ 0xc0 ≤ n → isContinuation (UInt8.ofNat n) = false := by
    intro n hn hrange
    rw [isContinuation, toNat_ofNat_of_lt hn]
    simp only [Bool.and_eq_false_iff, decide_eq_false_iff_not]
    omega
  rcases toNat_cases c with h | ⟨hlow, hhigh⟩ | ⟨hlow, hhigh⟩ | hlow
  · exact ⟨_, _, encode_one h, hfirst _ (by omega) (by omega), by simp⟩
  · refine ⟨_, _, encode_two hlow hhigh, hfirst _ (by omega) (by omega), ?_⟩
    simp only [List.forall_mem_cons, htail, true_and]
    exact List.forall_mem_nil _
  · refine ⟨_, _, encode_three hlow hhigh, hfirst _ (by omega) (by omega), ?_⟩
    simp only [List.forall_mem_cons, htail, true_and]
    exact List.forall_mem_nil _
  · refine ⟨_, _, encode_four hlow, hfirst _ (by omega) (by omega), ?_⟩
    simp only [List.forall_mem_cons, htail, true_and]
    exact List.forall_mem_nil _

/-- A byte of the ASCII range is a character of the text. -/
theorem exists_of_mem_encode {text : List Char} {b : UInt8} (hb : b ∈ encode text)
    (hascii : b.toNat < 0x80) : ∃ c ∈ text, c.toNat = b.toNat := by
  obtain ⟨c, hc, hmem⟩ := List.mem_flatMap.mp hb
  have hlt := toNat_lt c
  refine ⟨c, hc, ?_⟩
  rcases toNat_cases c with h | ⟨hlow, hhigh⟩ | ⟨hlow, hhigh⟩ | hlow
  · rw [encode_one h, List.mem_singleton] at hmem
    rw [hmem, toNat_ofNat_of_lt (by omega)]
  -- the bytes of a longer sequence are above the range
  · rw [encode_two hlow hhigh] at hmem
    simp only [List.mem_cons, List.not_mem_nil, or_false] at hmem
    rcases hmem with rfl | rfl <;> rw [toNat_ofNat_of_lt (by omega)] at hascii <;> omega
  · rw [encode_three hlow hhigh] at hmem
    simp only [List.mem_cons, List.not_mem_nil, or_false] at hmem
    rcases hmem with rfl | rfl | rfl <;> rw [toNat_ofNat_of_lt (by omega)] at hascii <;> omega
  · rw [encode_four hlow] at hmem
    simp only [List.mem_cons, List.not_mem_nil, or_false] at hmem
    rcases hmem with rfl | rfl | rfl | rfl <;> rw [toNat_ofNat_of_lt (by omega)] at hascii <;>
      omega

theorem encode_of_charOf {value : ℕ} {bytes : List UInt8} {c : Char}
    (h : charOf value bytes = some c) : String.utf8EncodeChar c = bytes := by
  rw [charOf] at h
  split_ifs at h with hbytes
  rw [← Option.some.inj h]
  exact hbytes

theorem charOf_self {value : ℕ} {c : Char} {bytes : List UInt8} (hvalue : value = c.toNat)
    (hbytes : String.utf8EncodeChar c = bytes) : charOf value bytes = some c := by
  rw [charOf, hvalue, Char.ofNat_toNat, if_pos hbytes]

theorem toNat_ofNat_le (n : ℕ) : (Char.ofNat n).toNat ≤ n := by
  by_cases h : n.isValidChar
  · have hvalue : (Char.ofNat n).toNat = n := by
      rw [Char.ofNat, dif_pos h]
      rfl
    exact Nat.le_of_eq hvalue
  · rw [Char.ofNat, dif_neg h]
    exact Nat.zero_le n

/-- The numbers of a short sequence do not have a long one's first byte. -/
theorem charOf_eq_none {value : ℕ} {a : UInt8} {rest : List UInt8}
    (h : (rest = [] ∧ 0x80 ≤ a.toNat) ∨ (value < 0x800 ∧ 0xe0 ≤ a.toNat) ∨
      (value < 0x10000 ∧ 0xf0 ≤ a.toNat)) : charOf value (a :: rest) = none := by
  rw [charOf, if_neg]
  intro hbytes
  have hle := toNat_ofNat_le value
  rcases toNat_cases (Char.ofNat value) with hc | ⟨hlow, hhigh⟩ | ⟨hlow, hhigh⟩ | hlow
  · rw [encode_one hc, List.cons.injEq] at hbytes
    have hfirst := congrArg UInt8.toNat hbytes.1
    rw [toNat_ofNat_of_lt (by omega)] at hfirst
    omega
  · rw [encode_two hlow hhigh, List.cons.injEq] at hbytes
    have hfirst := congrArg UInt8.toNat hbytes.1
    rw [toNat_ofNat_of_lt (by omega)] at hfirst
    rcases h with ⟨hnil, -⟩ | h | h
    · exact absurd (hbytes.2.trans hnil) (List.cons_ne_nil _ _)
    all_goals omega
  · rw [encode_three hlow hhigh, List.cons.injEq] at hbytes
    have hfirst := congrArg UInt8.toNat hbytes.1
    rw [toNat_ofNat_of_lt (by omega)] at hfirst
    rcases h with ⟨hnil, -⟩ | h | h
    · exact absurd (hbytes.2.trans hnil) (List.cons_ne_nil _ _)
    all_goals omega
  · rw [encode_four hlow, List.cons.injEq] at hbytes
    rcases h with ⟨hnil, -⟩ | h | h
    · exact absurd (hbytes.2.trans hnil) (List.cons_ne_nil _ _)
    all_goals omega

section Step

variable {pending rest : List UInt8} {b : UInt8} {c : Char}

theorem decodeFrom_complete (h : charOfBytes (pending ++ [b]) = some c) :
    decodeFrom pending (b :: rest) = (decode rest).map (c :: ·) := by
  rw [decodeFrom, h]
  rfl

theorem decodeFrom_pending (h : charOfBytes (pending ++ [b]) = none)
    (hlength : pending.length < 3) :
    decodeFrom pending (b :: rest) = decodeFrom (pending ++ [b]) rest := by
  rw [decodeFrom, h]
  exact if_pos hlength

end Step

/-- The encoding of a character is decoded as that character, whatever comes behind it. -/
theorem decode_utf8EncodeChar_append (c : Char) (rest : List UInt8) :
    decode (String.utf8EncodeChar c ++ rest) = (decode rest).map (c :: ·) := by
  have hlt := toNat_lt c
  rcases toNat_cases c with h | ⟨hlow, hhigh⟩ | ⟨hlow, hhigh⟩ | hlow
  · have henc := encode_one h
    rw [henc]
    exact decodeFrom_complete (charOf_self (toNat_ofNat_of_lt (by omega)) henc)
  · have henc := encode_two hlow hhigh
    have hfirst : (UInt8.ofNat (c.toNat / 64 % 0x20 + 0xc0)).toNat = c.toNat / 64 % 0x20 + 0xc0 :=
      toNat_ofNat_of_lt (by omega)
    have hlast := toNat_continuation c.toNat
    rw [henc]
    generalize UInt8.ofNat (c.toNat / 64 % 0x20 + 0xc0) = x at *
    generalize UInt8.ofNat (c.toNat % 0x40 + 0x80) = y at *
    have hone : charOfBytes [x] = none := charOf_eq_none (Or.inl ⟨rfl, by omega⟩)
    have htwo : charOfBytes [x, y] = some c := by
      refine charOf_self ?_ henc
      rw [payload, hfirst, hlast]
      omega
    rw [decode, List.cons_append, decodeFrom_pending hone (by decide)]
    exact decodeFrom_complete htwo
  · have henc := encode_three hlow hhigh
    have hfirst : (UInt8.ofNat (c.toNat / 4096 % 0x10 + 0xe0)).toNat =
        c.toNat / 4096 % 0x10 + 0xe0 := toNat_ofNat_of_lt (by omega)
    have hmiddle := toNat_continuation (c.toNat / 64)
    have hlast := toNat_continuation c.toNat
    rw [henc]
    generalize UInt8.ofNat (c.toNat / 4096 % 0x10 + 0xe0) = x at *
    generalize UInt8.ofNat (c.toNat / 64 % 0x40 + 0x80) = y at *
    generalize UInt8.ofNat (c.toNat % 0x40 + 0x80) = z at *
    have hone : charOfBytes [x] = none := charOf_eq_none (Or.inl ⟨rfl, by omega⟩)
    have htwo : charOfBytes [x, y] = none := by
      apply charOf_eq_none
      rw [payload]
      omega
    have hthree : charOfBytes [x, y, z] = some c := by
      refine charOf_self ?_ henc
      rw [payload, payload, hfirst, hmiddle, hlast]
      omega
    rw [decode, List.cons_append, decodeFrom_pending hone (by decide), List.cons_append,
      decodeFrom_pending htwo (by simp)]
    exact decodeFrom_complete hthree
  · have henc := encode_four hlow
    have hfirst : (UInt8.ofNat (c.toNat / 262144 % 0x8 + 0xf0)).toNat =
        c.toNat / 262144 % 0x8 + 0xf0 := toNat_ofNat_of_lt (by omega)
    have hsecond := toNat_continuation (c.toNat / 4096)
    have hthird := toNat_continuation (c.toNat / 64)
    have hlast := toNat_continuation c.toNat
    rw [henc]
    generalize UInt8.ofNat (c.toNat / 262144 % 0x8 + 0xf0) = x at *
    generalize UInt8.ofNat (c.toNat / 4096 % 0x40 + 0x80) = y at *
    generalize UInt8.ofNat (c.toNat / 64 % 0x40 + 0x80) = z at *
    generalize UInt8.ofNat (c.toNat % 0x40 + 0x80) = w at *
    have hone : charOfBytes [x] = none := charOf_eq_none (Or.inl ⟨rfl, by omega⟩)
    have htwo : charOfBytes [x, y] = none := by
      apply charOf_eq_none
      rw [payload]
      omega
    have hthree : charOfBytes [x, y, z] = none := by
      apply charOf_eq_none
      rw [payload, payload]
      omega
    have hfour : charOfBytes [x, y, z, w] = some c := by
      refine charOf_self ?_ henc
      rw [payload, payload, payload, hfirst, hsecond, hthird, hlast]
      omega
    rw [decode, List.cons_append, decodeFrom_pending hone (by decide), List.cons_append,
      decodeFrom_pending htwo (by simp), List.cons_append, decodeFrom_pending hthree (by simp)]
    exact decodeFrom_complete hfour

theorem decode_encode_append (text : List Char) (rest : List UInt8) :
    decode (encode text ++ rest) = (decode rest).map (text ++ ·) := by
  induction text with
  | nil => simp
  | cons c text ih =>
    rw [encode_cons, List.append_assoc, decode_utf8EncodeChar_append, ih, Option.map_map]
    rfl

@[simp] theorem decode_encode (text : List Char) : decode (encode text) = some text := by
  have h := decode_encode_append text []
  rw [List.append_nil, decode_nil, Option.map_some, List.append_nil] at h
  exact h

theorem encode_of_charOfBytes {bytes : List UInt8} {c : Char} (h : charOfBytes bytes = some c) :
    String.utf8EncodeChar c = bytes := by
  rw [charOfBytes.eq_def] at h
  split at h
  all_goals first | exact encode_of_charOf h | cases h

/-- What is decoded encodes to the bytes pending and the bytes read. -/
theorem encode_of_decodeFrom {bytes pending : List UInt8} {text : List Char}
    (h : decodeFrom pending bytes = some text) : encode text = pending ++ bytes := by
  induction bytes generalizing pending text with
  | nil =>
    rw [decodeFrom] at h
    split_ifs at h with hpending
    rw [← Option.some.inj h, hpending]
    rfl
  | cons b rest ih =>
    have hassoc : pending ++ b :: rest = pending ++ [b] ++ rest := by simp
    rw [hassoc]
    cases hchar : charOfBytes (pending ++ [b]) with
    | some c =>
      rw [decodeFrom_complete hchar] at h
      obtain ⟨tail, htail, rfl⟩ := Option.map_eq_some_iff.mp h
      rw [encode_cons, encode_of_charOfBytes hchar, ih htail, List.nil_append]
    | none =>
      rw [decodeFrom, hchar] at h
      dsimp only at h
      split_ifs at h with hlength
      exact ih h

theorem encode_of_decode {bytes : List UInt8} {text : List Char} (h : decode bytes = some text) :
    encode text = bytes := encode_of_decodeFrom h

/-- The first `n` bytes of a valid text are valid if and only if they are all, or the byte behind
them does not continue a character. -/
theorem isSome_decode_take_iff (text : List Char) (n : ℕ) :
    (decode ((encode text).take n)).isSome = true ↔
      (encode text).length ≤ n ∨ ∃ b, (encode text)[n]? = some b ∧ isContinuation b = false := by
  constructor
  · intro hvalid
    obtain ⟨front, hfront⟩ := Option.isSome_iff_exists.mp hvalid
    by_cases hlength : (encode text).length ≤ n
    · exact Or.inl hlength
    · right
      -- the rest of the bytes decodes as well, and begins with a first byte
      have hwhole := decode_encode_append front ((encode text).drop n)
      rw [encode_of_decode hfront, List.take_append_drop, decode_encode] at hwhole
      obtain ⟨back, hback, -⟩ := Option.map_eq_some_iff.mp hwhole.symm
      have hdrop := encode_of_decode hback
      cases back with
      | nil =>
        rw [encode_nil, eq_comm, List.drop_eq_nil_iff] at hdrop
        exact absurd hdrop hlength
      | cons c back =>
        obtain ⟨first, rest, hchar, hfirst, -⟩ := utf8EncodeChar_eq_cons c
        rw [encode_cons, hchar, List.cons_append] at hdrop
        refine ⟨first, ?_, hfirst⟩
        rw [← List.head?_drop, ← hdrop, List.head?_cons]
  · intro hcut
    induction text generalizing n with
    | nil => simp
    | cons c text ih =>
      obtain ⟨first, rest, hchar, -, hrest⟩ := utf8EncodeChar_eq_cons c
      rw [encode_cons, hchar, List.length_append, List.cons_append] at hcut
      rw [encode_cons]
      cases n with
      | zero => rfl
      | succ n =>
        by_cases hinside : n < rest.length
        · -- the cut is inside the first character
          rcases hcut with hlength | ⟨b, hb, hfirst⟩
          · rw [List.length_cons] at hlength
            omega
          · rw [List.getElem?_cons_succ, List.getElem?_append_left hinside] at hb
            rw [hrest b (List.mem_of_getElem? hb)] at hfirst
            cases hfirst
        · obtain ⟨k, rfl⟩ := Nat.exists_eq_add_of_le (Nat.le_of_not_lt hinside)
          have htake : (String.utf8EncodeChar c ++ encode text).take (rest.length + k + 1) =
              String.utf8EncodeChar c ++ (encode text).take k := by
            have hlength : (String.utf8EncodeChar c).length = rest.length + 1 := by
              rw [hchar, List.length_cons]
            have hsum : rest.length + k + 1 = (String.utf8EncodeChar c).length + k := by omega
            rw [hsum, List.take_length_add_append]
          rw [htake, decode_utf8EncodeChar_append, Option.isSome_map]
          apply ih
          rcases hcut with hlength | ⟨b, hb, hfirst⟩
          · left
            rw [List.length_cons] at hlength
            omega
          · right
            rw [List.getElem?_cons_succ, List.getElem?_append_right (Nat.le_add_right _ _),
              Nat.add_sub_cancel_left] at hb
            exact ⟨b, hb, hfirst⟩

end HeirsOcr.Utf8
