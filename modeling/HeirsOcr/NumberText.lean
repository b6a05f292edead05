import HeirsOcr.DecimalText
import HeirsOcr.Doubles

/-!
# Numbers of JavaScript and their texts

`Number(text)` and `String(number)`. A number is written with as few digits as tell it from its
neighbours, so what is written is read back as the number it was.
-/
namespace HeirsOcr.NumberText
open AddressText DecimalText Doubles JsText

/-- A number; the two zeros are one. -/
inductive Num where
  | nan
  | infinity (negative : Bool)
  | finite (x : Double)
  deriving DecidableEq

/-- The number an exact result is rounded to. -/
def Num.ofRat (q : ℚ) : Num :=
  match toDouble q with
  | some x => .finite x
  | none => .infinity (decide (q < 0))

@[simp] theorem Num.ofRat_val (x : Double) : Num.ofRat x.val = .finite x := by
  rw [Num.ofRat, toDouble_val]

/-- The number of a row of digits. -/
def wholeValue (digits : List Char) : Option ℕ :=
  if digits ≠ [] ∧ digits.all isDigit = true then some (decValue digits) else none

/-- What stands behind the digits: nothing, or an exponent. -/
def exponentValue : List Char → Option ℤ
  | [] => some 0
  | c :: rest =>
    if c = 'e' ∨ c = 'E' then
      match rest with
      | '+' :: digits => (wholeValue digits).map fun n => (n : ℤ)
      | '-' :: digits => (wholeValue digits).map fun n => -(n : ℤ)
      | digits => (wholeValue digits).map fun n => (n : ℤ)
    else none

/-- The digits behind a point, and what follows them. -/
def splitFraction : List Char → List Char × List Char
  | '.' :: rest => (rest.takeWhile isDigit, rest.dropWhile isDigit)
  | rest => ([], rest)

/-- An unsigned decimal literal. -/
def decimalValue (cs : List Char) : Option ℚ :=
  let whole := cs.takeWhile isDigit
  let (fraction, rest) := splitFraction (cs.dropWhile isDigit)
  if whole = [] ∧ fraction = [] then none
  else
    (exponentValue rest).map fun e =>
      (decValue (whole ++ fraction) : ℚ) * 10 ^ (e - (fraction.length : ℤ))

/-- The value of a digit in a base up to 16. -/
def radixDigit (radix : ℕ) (c : Char) : Option ℕ :=
  let n := c.toNat
  let value :=
    if 0x30 ≤ n ∧ n ≤ 0x39 then n - 0x30
    else if 0x41 ≤ n ∧ n ≤ 0x46 then n - 0x37
    else if 0x61 ≤ n ∧ n ≤ 0x66 then n - 0x57
    else 16
  if value < radix then some value else none

def radixValue (radix : ℕ) (digits : List Char) : Option ℕ :=
  if digits = [] then none
  else digits.foldlM (fun n c => (radixDigit radix c).map (radix * n + ·)) 0

/-- `0x`, `0o` and `0b`. -/
def radixOf (c : Char) : Option ℕ :=
  if c = 'x' ∨ c = 'X' then some 16
  else if c = 'o' ∨ c = 'O' then some 8
  else if c = 'b' ∨ c = 'B' then some 2
  else none

def INFINITY : List Char := "Infinity".toList

/-- A literal behind its sign. -/
def signedNumber (negative : Bool) (cs : List Char) : Num :=
  if cs = INFINITY then .infinity negative
  else
    match decimalValue cs with
    | some value => .ofRat (if negative then -value else value)
    | none => .nan

/-- `Number(text)`. -/
def toNumber (text : List Char) : Num :=
  match trim text with
  | [] => .ofRat 0
  | [c] => signedNumber false [c]
  | c :: d :: rest =>
    match if c = '0' then radixOf d else none with
    | some radix =>
      match radixValue radix rest with
      | some n => .ofRat n
      | none => .nan
    | none =>
      if c = '-' then signedNumber true (d :: rest)
      else if c = '+' then signedNumber false (d :: rest)
      else signedNumber false (c :: d :: rest)

/-- The signed value of digits at a place. -/
def placed (x : ℚ) (s : ℕ) (p : ℤ) : ℚ := (if x < 0 then -1 else 1) * (s * 10 ^ p)

/-- The place of the last of `k` digits. -/
def placeOf (x : ℚ) (k : ℕ) : ℤ := Int.log 10 |x| + 1 - k

/-- The two whole numbers about a number of `k` digits, the nearer first. -/
def digitsAbout (x : ℚ) (k : ℕ) : List ℕ :=
  let scaled := |x| / 10 ^ placeOf x k
  let low := ⌊scaled⌋.toNat
  if roundHalfEven scaled = ⌊scaled⌋ then [low, low + 1] else [low + 1, low]

/-- Digits of a given number of places that are read back, if there are any. -/
def candidate (x : Double) (k : ℕ) : Option (ℕ × ℤ) :=
  ((digitsAbout x.val k).find? fun s =>
    decide (toDouble (placed x.val s (placeOf x.val k)) = some x)).map fun s =>
      if s = 10 ^ k then (1, placeOf x.val k + k) else (s, placeOf x.val k)

/-- No double needs more digits. -/
def MAX_DIGITS : ℕ := 1400

/-- The fewest digits that are read back, and the place of the last. -/
def shortest (x : Double) : ℕ × ℤ :=
  ((List.range MAX_DIGITS).findSome? fun k => candidate x (k + 1)).getD (0, 0)

/-- The layout of digits of which `n` stand before the point. -/
def layout (digits : List Char) (n : ℤ) : List Char :=
  if digits.length ≤ n ∧ n ≤ 21 then digits ++ List.replicate (n.toNat - digits.length) '0'
  else if 0 < n ∧ n ≤ 21 then digits.take n.toNat ++ '.' :: digits.drop n.toNat
  else if -6 < n ∧ n ≤ 0 then '0' :: '.' :: (List.replicate n.natAbs '0' ++ digits)
  else
    let mantissa := match digits with
      | d :: e :: rest => d :: '.' :: e :: rest
      | few => few
    mantissa ++ 'e' :: (if 0 ≤ n - 1 then '+' else '-') :: Nat.toDigits 10 (n - 1).natAbs

/-- The text of a positive number. -/
def unsignedText (x : Double) : List Char :=
  let (s, p) := shortest x
  let digits := Nat.toDigits 10 s
  layout digits (p + digits.length)

/-- `String(number)`. -/
def Num.toText : Num → List Char
  | .nan => "NaN".toList
  | .infinity negative => if negative then '-' :: INFINITY else INFINITY
  | .finite x =>
    if x.val = 0 then ['0'] else if x.val < 0 then '-' :: unsignedText x else unsignedText x

end HeirsOcr.NumberText
