import HeirsOcr.AddressText

/-!
# The sign-in allowlist

An allowlist entry is an address or a CIDR range, read from text into bytes and compared
with the caller's address bit by bit. An IPv4 address compares equal in either spelling,
and an entry that does not parse matches nothing. The settings a list is kept in are
validated again when they are read.
-/
namespace HeirsOcr.IpAllowlist
open JsText AddressText

/-- `/^\d{1,3}$/`. -/
def isShortNumber (t : List Char) : Bool := 1 ≤ t.length && t.length ≤ 3 && t.all isDigit

def parseIpv4 (value : List Char) : Option (List ℕ) :=
  let parts := value.splitOn '.'
  if parts.length ≠ 4 then none
  else if parts.all fun part => isShortNumber part && decValue part ≤ 255 then
    some (parts.map decValue)
  else none

/-- `/\d{1,3}(?:\.\d{1,3}){3}/` on a whole text. -/
def isQuad (t : List Char) : Bool :=
  let parts := t.splitOn '.'
  parts.length = 4 && parts.all isShortNumber

def isF (c : Char) : Bool := c == 'f' || c == 'F'

/-- The group of `/^::(?:ffff:)?(\d{1,3}(?:\.\d{1,3}){3})$/i`. -/
def mapped (address : List Char) : Option (List Char) :=
  match address with
  | ':' :: ':' :: rest =>
    let quad :=
      match rest with
      | a :: b :: c :: d :: ':' :: quad => if isF a && isF b && isF c && isF d then quad else rest
      | _ => rest
    if isQuad quad then some quad else none
  | _ => none

/-- `address.split("::")`. -/
def splitCompressed : List Char → List (List Char)
  | ':' :: ':' :: cs => [] :: splitCompressed cs
  | c :: cs =>
    match splitCompressed cs with
    | [] => [[c]]
    | half :: halves => (c :: half) :: halves
  | [] => [[]]

/-- The bytes of colon-separated groups. -/
def toGroups (part : List Char) : Option (List ℕ) :=
  if part = [] then some []
  else if (part.splitOn ':').all isGroup then
    some ((part.splitOn ':').flatMap fun chunk => [hexValue chunk / 256, hexValue chunk % 256])
  else none

def parseIp (value : List Char) : Option (List ℕ) :=
  let address := trim value
  if address = [] then none
  else if ':' ∉ address then parseIpv4 address
  else
    match mapped address with
    | some quad => parseIpv4 quad
    | none =>
      match splitCompressed address with
      | [whole] => (toGroups whole).filter fun head => head.length = 16
      | [left, right] =>
        match toGroups left, toGroups right with
        | some head, some tail =>
          if head.length + tail.length ≤ 16 then
            some (head ++ List.replicate (16 - head.length - tail.length) 0 ++ tail)
          else none
        | _, _ => none
      | _ => none

/-- The byte whose first `remaining` bits are set. -/
def prefixMask (remaining : ℕ) : ℕ := (0xff <<< (8 - remaining)) &&& 0xff

/-- Whether the first `bits` bits of two addresses agree. -/
def prefixMatches (a b : List ℕ) (bits : ℕ) : Bool :=
  let wholeBytes := bits / 8
  let remaining := bits % 8
  ((List.range wholeBytes).all fun i => a.getD i 0 = b.getD i 0) &&
    (remaining = 0 || a.getD wholeBytes 0 &&& prefixMask remaining =
      b.getD wholeBytes 0 &&& prefixMask remaining)

def matchesEntry (ip entry : List Char) : Bool :=
  match parseIp ip with
  | none => false
  | some address =>
    let parts := (trim entry).splitOn '/'
    match parseIp (parts.headD []) with
    | none => false
    | some network =>
      if network.length ≠ address.length then false
      else
        let maxBits := network.length * 8
        match parts[1]? with
        | none => prefixMatches address network maxBits
        | some rawBits =>
          isShortNumber rawBits && decValue rawBits ≤ maxBits &&
            prefixMatches address network (decValue rawBits)

/-- Whether a request from `ip` is permitted; an empty list permits everything. -/
def isIpAllowed (ip : Option String) (allowlist : List String) : Bool :=
  let entries := (allowlist.map fun e => trim e.toList).filter (· ≠ [])
  if entries = [] then true
  else
    match ip with
    | none => false
    | some ip => ip ≠ "" && entries.any (matchesEntry ip.toList)

/-- An entry the settings accept: its own network is in it. -/
def ipAllowlistEntry (value : String) : Bool :=
  value ≠ "" && matchesEntry ((value.toList.splitOn '/').headD []) value.toList

/-- Bit `i` of an address, from the left. -/
def bitOf (address : List ℕ) (i : ℕ) : Bool := (address.getD (i / 8) 0).testBit (7 - i % 8)

theorem testBit_prefixMask {remaining j : ℕ} (hr : remaining ≤ 8) (hj : j < 8) :
    (prefixMask remaining).testBit (7 - j) = decide (j < remaining) := by
  interval_cases remaining <;> interval_cases j <;> decide

theorem testBit_of_byte {x i : ℕ} (hx : x < 256) (hi : 8 ≤ i) : x.testBit i = false := by
  refine Nat.testBit_lt_two_pow (hx.trans_le ?_)
  calc 256 = 2 ^ 8 := rfl
    _ ≤ 2 ^ i := Nat.pow_le_pow_right (by decide) hi

/-- Two bytes are equal when their eight bits are. -/
theorem byte_eq_iff {x y : ℕ} (hx : x < 256) (hy : y < 256) :
    x = y ↔ ∀ j < 8, x.testBit (7 - j) = y.testBit (7 - j) := by
  refine ⟨fun h j _ => by rw [h], fun h => Nat.eq_of_testBit_eq fun i => ?_⟩
  by_cases hi : i < 8
  · have hj := h (7 - i) (by omega)
    rwa [show 7 - (7 - i) = i by omega] at hj
  · rw [testBit_of_byte hx (by omega), testBit_of_byte hy (by omega)]

/-- Masked bytes are equal when the bits the mask keeps are. -/
theorem masked_eq_iff {x y remaining : ℕ} (hx : x < 256) (hy : y < 256) (hr : remaining ≤ 8) :
    x &&& prefixMask remaining = y &&& prefixMask remaining ↔
      ∀ j < remaining, x.testBit (7 - j) = y.testBit (7 - j) := by
  rw [byte_eq_iff (Nat.and_le_left.trans_lt hx) (Nat.and_le_left.trans_lt hy)]
  constructor
  · intro h j hj
    have hbit := h j (by omega)
    rw [Nat.testBit_and, Nat.testBit_and, testBit_prefixMask hr (by omega)] at hbit
    simpa [hj] using hbit
  · intro h j hj
    rw [Nat.testBit_and, Nat.testBit_and, testBit_prefixMask hr hj]
    by_cases hkept : j < remaining
    · rw [h j hkept]
    · simp [hkept]

/-- `prefixMatches` compares exactly the bits it says. -/
theorem prefixMatches_iff {a b : List ℕ} (ha : ∀ x ∈ a, x < 256) (hb : ∀ x ∈ b, x < 256)
    (bits : ℕ) : prefixMatches a b bits ↔ ∀ i < bits, bitOf a i = bitOf b i := by
  have hbyte : ∀ {l : List ℕ}, (∀ x ∈ l, x < 256) → ∀ i, l.getD i 0 < 256 := by
    intro l hl i
    rw [List.getD_eq_getElem?_getD]
    cases hi : l[i]? with
    | none => decide
    | some x => exact hl x (List.mem_of_getElem? hi)
  have hwhole : (∀ k < bits / 8, a.getD k 0 = b.getD k 0) ↔
      ∀ k < bits / 8, ∀ j < 8, bitOf a (8 * k + j) = bitOf b (8 * k + j) := by
    refine forall_congr' fun k => forall_congr' fun _ => ?_
    rw [byte_eq_iff (hbyte ha k) (hbyte hb k)]
    refine forall_congr' fun j => forall_congr' fun hj => ?_
    rw [bitOf, bitOf, show (8 * k + j) / 8 = k by omega, show (8 * k + j) % 8 = j by omega]
  have hrest : (bits % 8 = 0 ∨ a.getD (bits / 8) 0 &&& prefixMask (bits % 8) =
        b.getD (bits / 8) 0 &&& prefixMask (bits % 8)) ↔
      ∀ j < bits % 8, bitOf a (8 * (bits / 8) + j) = bitOf b (8 * (bits / 8) + j) := by
    rw [masked_eq_iff (hbyte ha _) (hbyte hb _) (by omega)]
    constructor
    · intro h j hj
      have hbit := (h.resolve_left (by omega)) j hj
      rwa [bitOf, bitOf, show (8 * (bits / 8) + j) / 8 = bits / 8 by omega,
        show (8 * (bits / 8) + j) % 8 = j by omega]
    · intro h
      refine Or.inr fun j hj => ?_
      have hbit := h j hj
      rwa [bitOf, bitOf, show (8 * (bits / 8) + j) / 8 = bits / 8 by omega,
        show (8 * (bits / 8) + j) % 8 = j by omega] at hbit
  simp only [prefixMatches, Bool.and_eq_true, Bool.or_eq_true, List.all_eq_true, List.mem_range,
    decide_eq_true_eq]
  rw [hwhole, hrest]
  constructor
  · rintro ⟨hbytes, hbits⟩ i hi
    by_cases hk : i / 8 < bits / 8
    · have hbit := hbytes (i / 8) hk (i % 8) (by omega)
      rwa [show 8 * (i / 8) + i % 8 = i by omega] at hbit
    · have hbit := hbits (i % 8) (by omega)
      rwa [show 8 * (bits / 8) + i % 8 = i by omega] at hbit
  · intro h
    exact ⟨fun k hk j hj => h _ (by omega), fun j hj => h _ (by omega)⟩

end HeirsOcr.IpAllowlist
