import HeirsOcr.ProviderRouter
import HeirsOcr.Utf8
import Mathlib.Data.Bool.AllAny

/-!
# What an upload is

The type of an upload is read from its bytes. What has no signature is text if the first 4096
bytes look like it, and these must decode strictly, wherever the last character ends.
-/
namespace HeirsOcr.Sniffing
open Providers Utf8

structure SniffResult where
  mime : String
  mimeGroup : MimeGroup
  ext : String
  deriving DecidableEq, Repr

/-- What `file-type` reports of a buffer with a signature. -/
structure FileTypeResult where
  ext : String
  mime : String
  deriving DecidableEq, Repr

def DOCX_MIME : String :=
  "application/vnd.openxmlformats-officedocument.wordprocessingml.document"

def toMimeGroup (mime : String) : Option MimeGroup :=
  if mime = "application/pdf" then some .pdf
  else if "image/".toList.isPrefixOf mime.toList then some .image
  else if mime = DOCX_MIME then some .docx
  else if mime = "text/plain" ∨ mime = "text/markdown" then some .text
  else none

def TEXT_SAMPLE_BYTES : ℕ := 4096

def MAX_CONTROL_RATIO : ℚ := 1 / 10

/-- A control byte other than tab, line feed, carriage return and form feed. -/
def isControl (byte : UInt8) : Bool :=
  byte < 0x20 && byte != 0x09 && byte != 0x0a && byte != 0x0d && byte != 0x0c

def isProbablyText (buffer : Buffer) : Bool :=
  if buffer.length = 0 then false
  else
    let sample := buffer.take TEXT_SAMPLE_BYTES
    if sample.contains 0 then false
    else if (decode sample).isNone then false
    else decide ((sample.countP isControl : ℚ) / sample.length ≤ MAX_CONTROL_RATIO)

def plainText : SniffResult := ⟨"text/plain", .text, "txt"⟩

def sniff (fromBuffer : Buffer → Option FileTypeResult) (buffer : Buffer) : Option SniffResult :=
  match fromBuffer buffer with
  | some detected =>
    let mime := if detected.ext = "docx" then DOCX_MIME else detected.mime
    (toMimeGroup mime).map fun mimeGroup => ⟨mime, mimeGroup, detected.ext⟩
  | none => if isProbablyText buffer then some plainText else none

/-- The control characters a text may hold. -/
def PRINTABLE_CONTROLS : List Char := ['\t', '\n', '\r', Char.ofNat 0x0c]

section Text

variable {text : List Char}

theorem isControl_of_mem_encode
    (hcontrols : ∀ c ∈ text, c.toNat < 0x20 → c ∈ PRINTABLE_CONTROLS) {b : UInt8}
    (hb : b ∈ encode text) : isControl b = false := by
  by_cases hlow : b.toNat < 0x20
  · obtain ⟨c, hc, hvalue⟩ := exists_of_mem_encode hb (by omega)
    have hbyte : b = UInt8.ofNat c.toNat := by
      rw [hvalue, UInt8.ofNat_toNat]
    have hprintable : PRINTABLE_CONTROLS.all (fun c => !isControl (UInt8.ofNat c.toNat)) := by
      decide
    have hkept := List.all_eq_true.mp hprintable c (hcontrols c hc (by omega))
    rw [hbyte]
    simpa using hkept
  · have hprint : ¬ b < 0x20 := by
      rw [UInt8.lt_iff_toNat_lt]
      exact hlow
    simp [isControl, hprint]

/-- Of a text, only the decoding of the sample can fail. -/
theorem isProbablyText_encode (hne : text ≠ [])
    (hcontrols : ∀ c ∈ text, c.toNat < 0x20 → c ∈ PRINTABLE_CONTROLS) :
    isProbablyText (encode text) = (decode ((encode text).take TEXT_SAMPLE_BYTES)).isSome := by
  have hlength : (encode text).length ≠ 0 := by
    cases text with
    | nil => exact absurd rfl hne
    | cons c text =>
      obtain ⟨first, rest, hchar, -⟩ := utf8EncodeChar_eq_cons c
      rw [encode_cons, hchar, List.cons_append, List.length_cons]
      omega
  have hclear : ∀ b ∈ (encode text).take TEXT_SAMPLE_BYTES, isControl b = false :=
    fun b hb => isControl_of_mem_encode hcontrols (List.mem_of_mem_take hb)
  have hnull : ((encode text).take TEXT_SAMPLE_BYTES).contains 0 = false := by
    rw [List.contains_eq_mem, decide_eq_false_iff_not]
    intro hzero
    exact absurd (hclear 0 hzero) (by decide)
  have hcount : ((encode text).take TEXT_SAMPLE_BYTES).countP isControl = 0 := by
    rw [List.countP_eq_zero]
    intro b hb
    rw [hclear b hb]
    exact Bool.false_ne_true
  rw [isProbablyText, if_neg hlength]
  simp only [hnull, hcount, Bool.false_eq_true, if_false]
  cases decode ((encode text).take TEXT_SAMPLE_BYTES) with
  | none => rfl
  | some sample =>
    unfold MAX_CONTROL_RATIO
    simp

/-- A text without a signature is accepted as text if and only if it fits the sample or a
character begins behind the sample. -/
theorem text_accepted_iff {fromBuffer : Buffer → Option FileTypeResult} (hne : text ≠ [])
    (hcontrols : ∀ c ∈ text, c.toNat < 0x20 → c ∈ PRINTABLE_CONTROLS)
    (hmiss : fromBuffer (encode text) = none) :
    sniff fromBuffer (encode text) = some plainText ↔
      (encode text).length ≤ TEXT_SAMPLE_BYTES ∨
        ∃ b, (encode text)[TEXT_SAMPLE_BYTES]? = some b ∧ isContinuation b = false := by
  rw [← isSome_decode_take_iff, ← isProbablyText_encode hne hcontrols, sniff, hmiss]
  cases isProbablyText (encode text) <;> simp

end Text

theorem text_accepted_greeting :
    sniff (fun _ => none) (encode ['C', 'i', 'a', 'o', '\n']) = some plainText :=
  (text_accepted_iff (by decide) (List.all_iff_forall_prop.mp (by decide)) rfl).mpr
    (Or.inl (by decide))

/-- A text of 4095 letters and an accented one: the sample ends in the middle of it. -/
def accented : List Char := List.replicate 4095 'a' ++ [Char.ofNat 0xe9]

theorem accented_rejected : accented ≠ [] ∧
    (∀ c ∈ accented, c.toNat < 0x20 → c ∈ PRINTABLE_CONTROLS) ∧
    sniff (fun _ => none) (encode accented) = none := by
  have hcontrols : ∀ c ∈ accented, c.toNat < 0x20 → c ∈ PRINTABLE_CONTROLS := by
    intro c hc hlow
    rw [accented, List.mem_append, List.mem_replicate, List.mem_singleton] at hc
    rcases hc with ⟨-, rfl⟩ | rfl
    · exact absurd hlow (by decide)
    · exact absurd hlow (by decide)
  have hbytes : encode accented = List.replicate 4095 0x61 ++ [0xc3, 0xa9] := by
    have hletters : ∀ n, encode (List.replicate n 'a') = List.replicate n 0x61 := by
      intro n
      induction n with
      | zero => rfl
      | succ n ih =>
        rw [List.replicate_succ, encode_cons, ih]
        rfl
    rw [accented, encode_append, hletters]
    rfl
  have hcut : (decode ((encode accented).take TEXT_SAMPLE_BYTES)).isSome = false := by
    rw [Bool.eq_false_iff, Ne, isSome_decode_take_iff, hbytes]
    rintro (hlength | ⟨b, hb, hfirst⟩)
    · rw [List.length_append, List.length_replicate] at hlength
      exact absurd hlength (by decide)
    · rw [List.getElem?_append_right (by rw [List.length_replicate]; decide),
        List.length_replicate] at hb
      obtain rfl := Option.some.inj hb
      exact absurd hfirst (by decide)
  have hne : accented ≠ [] := List.append_ne_nil_of_right_ne_nil _ (List.cons_ne_nil _ _)
  refine ⟨hne, hcontrols, ?_⟩
  rw [sniff, isProbablyText_encode hne hcontrols, hcut]
  rfl

end HeirsOcr.Sniffing
