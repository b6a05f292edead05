import HeirsOcr.DocumentKeys
import HeirsOcr.NumberRoundTrip

/-!
# Signatures of webhook requests

The signed text is `${timestamp}.${body}` and the header has the timestamp next to the MAC. The
texts of two numbers and two bodies could run into one another at the point; a body that is a JSON
object starts with a character that no number has, so a MAC stands for one timestamp and one body.
-/
namespace HeirsOcr.WebhookSigning
open Doubles JsText NumberText

/-- What a receiver allows when it names no tolerance, in seconds. -/
def TOLERANCE : Double := .ofInt 300 (by norm_num)

/-- The text under the MAC. -/
def signedText (timestampSeconds : Double) (body : List Char) : List Char :=
  (Num.finite timestampSeconds).toText ++ '.' :: body

variable (mac : List Char → List Char → List Char)

/-- `mac` is the HMAC-SHA256 of a text under a secret, in hex digits. -/
def signPayload (body secret : List Char) (timestampSeconds : Double) : List Char :=
  't' :: '=' :: (Num.finite timestampSeconds).toText ++
    ',' :: 'v' :: '1' :: '=' :: mac secret (signedText timestampSeconds body)

/-- One piece of the header: a name and a value. -/
def headerPiece (piece : List Char) : List Char × List Char :=
  let fields := piece.splitOn '='
  (trim (fields.headD []), trim (fields.getD 1 []))

/-- The value of a name; of several pieces with one name the last counts. -/
def headerPart (header name : List Char) : Option (List Char) :=
  (((header.splitOn ',').map headerPiece).reverse.find? fun piece => piece.1 = name).map Prod.snd

/-- `Math.abs(now - timestamp) > tolerance`, the difference a double. -/
def tooFar (now timestamp tolerance : Double) : Bool :=
  match toDouble (now.val - timestamp.val) with
  | some difference => tolerance.val < |difference.val|
  | none => true

def verifySignature (body header secret : List Char) (tolerance now : Double) : Bool :=
  match (headerPart header ['t']).map toNumber, headerPart header ['v', '1'] with
  | some (.finite timestamp), some provided =>
    if provided = [] then false
    else if tooFar now timestamp tolerance then false
    else
      let expected := mac secret (signedText timestamp body)
      decide (Utf8.encode expected = Utf8.encode provided)
  | _, _ => false

/-- A lower-case hex digit. -/
def isHexDigit (c : Char) : Bool := isDigit c || ['a', 'b', 'c', 'd', 'e', 'f'].contains c

theorem isSpace_of_isHexDigit {c : Char} (h : isHexDigit c = true) : isSpace c = false := by
  simp only [isHexDigit, Bool.or_eq_true, List.contains_iff_mem] at h
  rcases h with h | h
  · exact isSpace_of_isNumberChar (isNumberChar_of_isDigit h)
  · have htable : ∀ c ∈ ['a', 'b', 'c', 'd', 'e', 'f'], isSpace c = false :=
      List.all_iff_forall_prop.mp (by decide)
    exact htable c h

/-- A MAC in hex digits. -/
def IsHex (digest : List Char) : Prop := digest ≠ [] ∧ ∀ c ∈ digest, isHexDigit c = true

theorem trimmed_of_forall {cs : List Char} (h : ∀ c ∈ cs, isSpace c = false) : Trimmed cs :=
  ⟨fun c hc => h c (List.mem_of_head? hc), fun c hc => h c (List.mem_of_getLast? hc)⟩

theorem headerPiece_of_free {name value : List Char} (hname : Trimmed name)
    (hvalue : Trimmed value) (hfree : '=' ∉ name) (hfree' : '=' ∉ value) :
    headerPiece (name ++ '=' :: value) = (name, value) := by
  have hjoin : name ++ '=' :: value = ['='].intercalate [name, value] := by
    simp [List.intercalate]
  have hfields : (name ++ '=' :: value).splitOn '=' = [name, value] := by
    rw [hjoin]
    apply List.splitOn_intercalate
    · intro field hfield
      rcases List.mem_pair.mp hfield with rfl | rfl
      · exact hfree
      · exact hfree'
    · simp
  unfold headerPiece
  rw [hfields]
  show (trim name, trim value) = _
  rw [trim_of_trimmed hname, trim_of_trimmed hvalue]

/-- A header of a timestamp and a MAC has these two parts. -/
theorem headerParts_of_pieces {text digest : List Char} (htext : ∀ c ∈ text, isNumberChar c = true)
    (hdigest : ∀ c ∈ digest, isHexDigit c = true) :
    headerPart ('t' :: '=' :: text ++ ',' :: 'v' :: '1' :: '=' :: digest) ['t'] = some text ∧
      headerPart ('t' :: '=' :: text ++ ',' :: 'v' :: '1' :: '=' :: digest) ['v', '1'] =
        some digest := by
  have hnumber : ∀ c, isNumberChar c = false → c ∉ text := by
    intro c hc hmem
    rw [htext c hmem] at hc
    cases hc
  have hhex : ∀ c, isHexDigit c = false → c ∉ digest := by
    intro c hc hmem
    rw [hdigest c hmem] at hc
    cases hc
  have hjoin : 't' :: '=' :: text ++ ',' :: 'v' :: '1' :: '=' :: digest =
      [','].intercalate [['t'] ++ '=' :: text, ['v', '1'] ++ '=' :: digest] := by
    simp [List.intercalate]
  have hpieces : ('t' :: '=' :: text ++ ',' :: 'v' :: '1' :: '=' :: digest).splitOn ',' =
      [['t'] ++ '=' :: text, ['v', '1'] ++ '=' :: digest] := by
    rw [hjoin]
    apply List.splitOn_intercalate
    · intro piece hpiece
      rcases List.mem_pair.mp hpiece with rfl | rfl
      · simpa using hnumber ',' (by decide)
      · simpa using hhex ',' (by decide)
    · simp
  have ht : headerPiece (['t'] ++ '=' :: text) = (['t'], text) := by
    apply headerPiece_of_free
    · apply trimmed_of_forall
      simpa using (by decide : isSpace 't' = false)
    · exact trimmed_of_isNumberChar htext
    · decide
    · exact hnumber '=' (by decide)
  have hv : headerPiece (['v', '1'] ++ '=' :: digest) = (['v', '1'], digest) := by
    apply headerPiece_of_free
    · apply trimmed_of_forall
      simpa using (⟨by decide, by decide⟩ : isSpace 'v' = false ∧ isSpace '1' = false)
    · exact trimmed_of_forall fun c hc => isSpace_of_isHexDigit (hdigest c hc)
    · decide
    · exact hhex '=' (by decide)
  unfold headerPart
  rw [hpieces, List.map_cons, List.map_cons, List.map_nil, ht, hv]
  exact ⟨rfl, rfl⟩

variable {mac : List Char → List Char → List Char}

/-- The header that goes out verifies with the secret it was signed with for as long as the
timestamp is within the tolerance. -/
theorem verify_sign {body secret : List Char} (timestamp tolerance now : Double)
    (hhex : IsHex (mac secret (signedText timestamp body))) :
    verifySignature mac body (signPayload mac body secret timestamp) secret tolerance now =
      !tooFar now timestamp tolerance := by
  obtain ⟨ht, hv⟩ := headerParts_of_pieces (isNumberChar_toText timestamp) hhex.2
  unfold verifySignature signPayload
  rw [ht, hv, Option.map_some, toNumber_toText]
  dsimp only
  rw [if_neg hhex.1]
  cases tooFar now timestamp tolerance <;> simp

/-- With whole seconds, as they are sent. -/
theorem tooFar_ofInt {now timestamp : ℤ} {tolerance : ℕ} (hnow : |now| < 2 ^ 52)
    (htimestamp : |timestamp| < 2 ^ 52) (htolerance : |(tolerance : ℤ)| < 2 ^ 53) :
    tooFar (.ofInt now (by omega)) (.ofInt timestamp (by omega)) (.ofInt tolerance htolerance) =
      decide ((tolerance : ℤ) < |now - timestamp|) := by
  have hdifference : |now - timestamp| < 2 ^ 53 := by
    have habs := abs_sub now timestamp
    omega
  have hround : toDouble ((now : ℚ) - timestamp) = some (.ofInt (now - timestamp) hdifference) := by
    have hval := toDouble_val (Double.ofInt (now - timestamp) hdifference)
    simpa [Double.ofInt] using hval
  unfold tooFar
  show (match toDouble ((now : ℚ) - timestamp) with
    | some difference => decide (((tolerance : ℤ) : ℚ) < |difference.val|)
    | none => true) = _
  rw [hround]
  show decide (((tolerance : ℤ) : ℚ) < |((now - timestamp : ℤ) : ℚ)|) = _
  norm_cast

/-- A request that was signed at one second is accepted at another just when they are no further
apart than the tolerance. -/
theorem verify_sign_seconds {body secret : List Char} {now timestamp : ℤ} {tolerance : ℕ}
    (hnow : |now| < 2 ^ 52) (htimestamp : |timestamp| < 2 ^ 52)
    (htolerance : |(tolerance : ℤ)| < 2 ^ 53)
    (hhex : IsHex (mac secret (signedText (.ofInt timestamp (by omega)) body))) :
    verifySignature mac body (signPayload mac body secret (.ofInt timestamp (by omega))) secret
        (.ofInt tolerance htolerance) (.ofInt now (by omega)) =
      decide (|now - timestamp| ≤ tolerance) := by
  rw [verify_sign _ _ _ hhex, tooFar_ofInt hnow htimestamp htolerance]
  by_cases hfar : (tolerance : ℤ) < |now - timestamp|
  · simp [hfar]
  · simp [hfar, not_lt.mp hfar]

section Example

def exampleBody : List Char := "\x7b\"event\":\"document.processed\"\x7d".toList

def exampleSecret : List Char := "whsec_test".toList

def exampleDigest : List Char :=
  "6b2259ac6702728677c828c808d5124fe6cfb92187f88fbd2a6b0560a894a825".toList

theorem sentSecond_lt : |(1700000000 : ℤ)| < 2 ^ 52 := by norm_num

theorem soonSecond_lt : |(1700000100 : ℤ)| < 2 ^ 52 := by norm_num

theorem lateSecond_lt : |(1700000301 : ℤ)| < 2 ^ 52 := by norm_num

theorem fiveMinutes_lt : |((300 : ℕ) : ℤ)| < 2 ^ 53 := by norm_num

/-- The second at which the body is signed. -/
def sentSecond : Double := .ofInt 1700000000 (sentSecond_lt.trans (by decide))

def soonSecond : Double := .ofInt 1700000100 (soonSecond_lt.trans (by decide))

def lateSecond : Double := .ofInt 1700000301 (lateSecond_lt.trans (by decide))

def fiveMinutes : Double := .ofInt (300 : ℕ) fiveMinutes_lt

/-- What HMAC-SHA256 gives for the body at one second; any other digest will do elsewhere. -/
def exampleMac (secret message : List Char) : List Char :=
  if secret = exampleSecret ∧ message = signedText sentSecond exampleBody then exampleDigest
  else ['0']

theorem exampleMac_signed :
    exampleMac exampleSecret (signedText sentSecond exampleBody) = exampleDigest :=
  if_pos ⟨rfl, rfl⟩

theorem isHex_exampleDigest : IsHex exampleDigest :=
  ⟨by decide, List.all_iff_forall_prop.mp (by decide +kernel)⟩

theorem verify_sign_seconds_late :
    verifySignature exampleMac exampleBody
        (signPayload exampleMac exampleBody exampleSecret sentSecond) exampleSecret fiveMinutes
        lateSecond =
      decide (|(1700000301 : ℤ) - 1700000000| ≤ (300 : ℕ)) :=
  verify_sign_seconds lateSecond_lt sentSecond_lt fiveMinutes_lt
    (exampleMac_signed ▸ isHex_exampleDigest)

end Example

/-- The texts under the MAC of JSON objects tell timestamps and bodies apart. -/
theorem signedText_injective {timestamp timestamp' : Double} {body body' : List Char}
    (hbody : body.head? = some '{') (hbody' : body'.head? = some '{')
    (h : signedText timestamp body = signedText timestamp' body') :
    timestamp = timestamp' ∧ body = body' := by
  have hcut : ∀ {x : Double} {b : List Char}, b.head? = some '{' →
      (signedText x b).takeWhile (· ≠ '{') = (Num.finite x).toText ++ ['.'] ∧
        (signedText x b).dropWhile (· ≠ '{') = b := by
    intro x b hb
    obtain ⟨rest, rfl⟩ := List.head?_eq_some_iff.mp hb
    have hfront : ∀ c ∈ (Num.finite x).toText ++ ['.'], decide (c ≠ '{') = true := by
      intro c hc
      rcases List.mem_append.mp hc with hc | hc
      · rw [decide_eq_true_eq]
        rintro rfl
        exact absurd (isNumberChar_toText x _ hc) (by decide)
      · obtain rfl := List.mem_singleton.mp hc
        decide
    have hsplit : signedText x ('{' :: rest) = ((Num.finite x).toText ++ ['.']) ++ '{' :: rest := by
      simp [signedText]
    rw [hsplit]
    constructor
    · rw [List.takeWhile_append_of_pos hfront]
      simp
    · rw [List.dropWhile_append_of_pos hfront]
      simp
  obtain ⟨htake, hdrop⟩ := hcut (x := timestamp) hbody
  obtain ⟨htake', hdrop'⟩ := hcut (x := timestamp') hbody'
  rw [h] at htake hdrop
  constructor
  · have htext := List.append_cancel_right (htake.symm.trans htake')
    have hread := congrArg toNumber htext
    rw [toNumber_toText, toNumber_toText] at hread
    exact Num.finite.inj hread
  · exact hdrop.symm.trans hdrop'

/-- A receiver that takes a header whose MAC was made for another delivery, of any time and body,
has that very time and body before it, and the time is within its tolerance. -/
theorem verify_binds {body body' header secret : List Char} {timestamp' tolerance now : Double}
    (hbody : body.head? = some '{') (hbody' : body'.head? = some '{')
    (hmade : headerPart header ['v', '1'] = some (mac secret (signedText timestamp' body')))
    (hcollision : ∀ timestamp : Double, mac secret (signedText timestamp body) =
      mac secret (signedText timestamp' body') →
        signedText timestamp body = signedText timestamp' body')
    (hverified : verifySignature mac body header secret tolerance now = true) :
    body = body' ∧ tooFar now timestamp' tolerance = false := by
  unfold verifySignature at hverified
  rw [hmade] at hverified
  split at hverified
  · rename_i timestamp provided htimestamp hprovided
    obtain rfl := Option.some.inj hprovided
    split_ifs at hverified with hempty hfar
    have hequal := DocumentKeys.encode_injective (of_decide_eq_true hverified)
    obtain ⟨rfl, rfl⟩ := signedText_injective hbody hbody' (hcollision timestamp hequal)
    exact ⟨rfl, by simpa using hfar⟩
  · cases hverified

theorem verify_binds_signed :
    exampleBody = exampleBody ∧ tooFar soonSecond sentSecond TOLERANCE = false :=
  @verify_binds exampleMac exampleBody exampleBody
    (signPayload exampleMac exampleBody exampleSecret sentSecond) exampleSecret sentSecond TOLERANCE
    soonSecond rfl rfl
    (by
      have hhex := isHex_exampleDigest
      rw [← exampleMac_signed] at hhex
      exact (headerParts_of_pieces (isNumberChar_toText _) hhex.2).2)
    (fun timestamp h => by
      by_contra hne
      rw [exampleMac_signed, exampleMac, if_neg fun hboth => hne hboth.2] at h
      revert h
      decide)
    (by
      have hhex := isHex_exampleDigest
      rw [← exampleMac_signed] at hhex
      exact (@verify_sign_seconds exampleMac exampleBody exampleSecret 1700000100 1700000000 300
        soonSecond_lt sentSecond_lt fiveMinutes_lt hhex).trans (by decide))

end HeirsOcr.WebhookSigning
