import HeirsOcr.CookieHeader
import HeirsOcr.IsoDates

/-!
# Keys of archived documents

The key of a document in the bucket: the tenant's prefix, the day, a random segment and the name
of the file. The id of the tenant is percent-encoded. The name is whatever an uploader sent,
UTF-16 units that need not be text, and is cut down to its last segment and to a short list of
characters.
-/
namespace HeirsOcr.DocumentKeys
open CookieHeader Utf8 IsoDates Authenticity

/-- The characters `encodeURIComponent` leaves alone. -/
def isUnreserved (c : Char) : Bool := c.isAlphanum || "-_.!~*'()".toList.contains c

def hexDigit (n : ℕ) : Char := "0123456789ABCDEF".toList.getD n '0'

def percentByte (b : UInt8) : List Char := ['%', hexDigit (b.toNat / 16), hexDigit (b.toNat % 16)]

def encodeChar (c : Char) : List Char :=
  if isUnreserved c then [c] else (String.utf8EncodeChar c).flatMap percentByte

def encodeURIComponent (text : List Char) : List Char := text.flatMap encodeChar

/-- The bytes an unescaped piece stands for. -/
def pieceBytes : Char ⊕ UInt8 → List UInt8
  | .inl c => String.utf8EncodeChar c
  | .inr b => [b]

theorem hexDigit_cases : ∀ n < 16, hexValue (hexDigit n) = some n ∧ hexDigit n ≠ '/' := by
  decide +kernel

/-- An escaped byte is read back. -/
theorem escapedByte_hexDigit (b : UInt8) :
    escapedByte (hexDigit (b.toNat / 16)) (hexDigit (b.toNat % 16)) = some b := by
  have hb : b.toNat < 256 := b.toNat_lt
  have hhigh := (hexDigit_cases (b.toNat / 16) (by omega)).1
  have hlow := (hexDigit_cases (b.toNat % 16) (Nat.mod_lt _ (by norm_num))).1
  have hvalue : b.toNat / 16 * 16 + b.toNat % 16 = b.toNat := Nat.div_add_mod' _ _
  rw [escapedByte, hhigh, hlow, Option.bind_some, Option.map_some, hvalue, UInt8.ofNat_toNat]

theorem unescape_percentByte (b : UInt8) (rest : List Char) :
    unescape (percentByte b ++ rest) = (unescape rest).map (Sum.inr b :: ·) := by
  have hcons : percentByte b ++ rest =
      '%' :: hexDigit (b.toNat / 16) :: hexDigit (b.toNat % 16) :: rest := rfl
  rw [hcons, unescape, if_pos rfl, escapedByte_hexDigit, Option.bind_some]

theorem unescape_percentBytes (bytes : List UInt8) (rest : List Char) :
    unescape (bytes.flatMap percentByte ++ rest) =
      (unescape rest).map (bytes.map Sum.inr ++ ·) := by
  induction bytes with
  | nil => simp
  | cons b bytes ih =>
    rw [List.flatMap_cons, List.append_assoc, unescape_percentByte, ih, Option.map_map]
    rfl

/-- The pieces of an encoded character. -/
def pieces (c : Char) : List (Char ⊕ UInt8) :=
  if isUnreserved c then [.inl c] else (String.utf8EncodeChar c).map .inr

theorem unescape_encodeChar (c : Char) (rest : List Char) :
    unescape (encodeChar c ++ rest) = (unescape rest).map (pieces c ++ ·) := by
  rw [encodeChar, pieces]
  split_ifs with h
  · have hne : c ≠ '%' := by
      rintro rfl
      revert h
      decide
    rw [List.singleton_append]
    conv_lhs => unfold unescape
    rw [if_neg hne]
    rfl
  · exact unescape_percentBytes _ _

theorem flatMap_pieceBytes (c : Char) :
    (pieces c).flatMap pieceBytes = String.utf8EncodeChar c := by
  rw [pieces]
  split_ifs
  · simp [pieceBytes]
  · rw [List.flatMap_map]
    exact List.flatMap_singleton' _

/-- An encoded text is pieces that stand for its bytes. -/
theorem unescape_encodeURIComponent (text : List Char) :
    ∃ found, unescape (encodeURIComponent text) = some found ∧
      found.flatMap pieceBytes = encode text := by
  induction text with
  | nil => exact ⟨[], rfl, rfl⟩
  | cons c text ih =>
    obtain ⟨found, hfound, hbytes⟩ := ih
    have hcons : encodeURIComponent (c :: text) = encodeChar c ++ encodeURIComponent text :=
      List.flatMap_cons
    refine ⟨pieces c ++ found, ?_, ?_⟩
    · rw [hcons, unescape_encodeChar, hfound, Option.map_some]
    · rw [List.flatMap_append, flatMap_pieceBytes, hbytes, encode_cons]

theorem encode_injective : Function.Injective encode := by
  intro text text' h
  have hdecode := congrArg decode h
  rw [decode_encode, decode_encode] at hdecode
  exact Option.some_inj.mp hdecode

theorem encodeURIComponent_injective : Function.Injective encodeURIComponent := by
  intro text text' h
  obtain ⟨found, hfound, hbytes⟩ := unescape_encodeURIComponent text
  obtain ⟨found', hfound', hbytes'⟩ := unescape_encodeURIComponent text'
  rw [h, hfound'] at hfound
  obtain rfl := Option.some_inj.mp hfound
  exact encode_injective (hbytes.symm.trans hbytes')

theorem slash_notMem_encodeURIComponent (text : List Char) : '/' ∉ encodeURIComponent text := by
  intro hmem
  obtain ⟨c, -, hc⟩ := List.mem_flatMap.mp hmem
  rw [encodeChar] at hc
  split_ifs at hc with h
  · obtain rfl := List.mem_singleton.mp hc
    revert h
    decide
  · obtain ⟨b, -, hb⟩ := List.mem_flatMap.mp hc
    have hlt : b.toNat < 256 := b.toNat_lt
    have hhigh := (hexDigit_cases (b.toNat / 16) (by omega)).2
    have hlow := (hexDigit_cases (b.toNat % 16) (Nat.mod_lt _ (by norm_num))).2
    simp only [percentByte, List.mem_cons, List.not_mem_nil, or_false] at hb
    rcases hb with hb | hb | hb
    · exact absurd hb (by decide)
    · exact hhigh hb.symm
    · exact hlow hb.symm

/-- `[/\\]` -/
def isSeparator (u : UInt16) : Bool := u == 0x2f || u == 0x5c

/-- `[\w.\-]` -/
def isAllowed (u : UInt16) : Bool :=
  (0x30 ≤ u && u ≤ 0x39) || (0x41 ≤ u && u ≤ 0x5a) || (0x61 ≤ u && u ≤ 0x7a) || u == 0x5f ||
    u == 0x2e || u == 0x2d

def keepUnit (u : UInt16) : Char := if isAllowed u then Char.ofNat u.toNat else '_'

def sanitizeFileName (name : List UInt16) : List Char :=
  let base := (name.splitOnP isSeparator).getLastD []
  let cleaned := (base.map keepUnit).dropWhile (· == '.')
  let cut := cleaned.take 120
  if cut = [] then "document".toList else cut

/-- `documents/<encoded id>/` -/
def tenantPrefix (tenantId : List Char) : List Char :=
  "documents/".toList ++ encodeURIComponent tenantId ++ ['/']

/-- `randomUUID` is what the caller's system drew. -/
def documentKey (now : Time) (randomUUID : List Char) (tenantId : List Char)
    (fileName : List UInt16) : List Char :=
  let day := (toISOString now.ms).toList.take 10
  tenantPrefix tenantId ++ day ++ '/' :: randomUUID ++ '/' :: sanitizeFileName fileName

/-- A segment that names a file and nothing else. -/
structure IsFileName (file : List Char) : Prop where
  ne_nil : file ≠ []
  slash : '/' ∉ file
  backslash : '\\' ∉ file
  dot : file.head? ≠ some '.'
  length : file.length ≤ 120

/-- No unit is kept as a separator. -/
theorem keepUnit_ne (u : UInt16) : keepUnit u ≠ '/' ∧ keepUnit u ≠ '\\' := by
  rw [keepUnit]
  split_ifs with h
  · have hlt : u.toNat < 128 := by
      simp only [isAllowed, Bool.or_eq_true, Bool.and_eq_true, decide_eq_true_eq, beq_iff_eq,
        UInt16.le_iff_toNat_le, ← UInt16.toNat_inj] at h
      simp at h
      omega
    have htable : ∀ n < 128, isAllowed (UInt16.ofNat n) = true →
        Char.ofNat n ≠ '/' ∧ Char.ofNat n ≠ '\\' := by decide +kernel
    exact htable u.toNat hlt (by rw [UInt16.ofNat_toNat]; exact h)
  · decide

theorem isFileName_sanitizeFileName (name : List UInt16) : IsFileName (sanitizeFileName name) := by
  rw [sanitizeFileName]
  set base := (name.splitOnP isSeparator).getLastD []
  set cleaned := (base.map keepUnit).dropWhile (· == '.') with hcleaned
  split_ifs with hcut
  · exact ⟨by decide, by decide, by decide, by decide, by decide⟩
  · have hkept : ∀ c ∈ cleaned.take 120, c ≠ '/' ∧ c ≠ '\\' := by
      intro c hc
      obtain ⟨u, -, rfl⟩ :=
        List.mem_map.mp ((List.dropWhile_sublist _).subset (List.mem_of_mem_take hc))
      exact keepUnit_ne u
    refine ⟨hcut, fun h => (hkept _ h).1 rfl, fun h => (hkept _ h).2 rfl, ?_, ?_⟩
    · rw [List.head?_take, if_neg (by norm_num), hcleaned]
      intro hdot
      have hhead := List.head?_dropWhile_not (· == '.') (base.map keepUnit)
      rw [hdot] at hhead
      simp at hhead
    · exact List.length_take_le _ _

/-- Segments with their slashes are prefixes of one another only if they are equal. -/
theorem segment_eq {root segment segment' : List Char} (hslash : '/' ∉ segment')
    (h : root ++ segment ++ ['/'] <+: root ++ segment' ++ ['/']) : segment = segment' := by
  rw [List.append_assoc, List.append_assoc, List.prefix_append_right_inj] at h
  obtain ⟨rest, hrest⟩ := h
  rw [List.append_assoc, List.singleton_append] at hrest
  have hsplit := (List.append_cons_inj_of_notMem hslash List.not_mem_nil).mp hrest.symm
  exact hsplit.1.symm

/-- Prefixes of two tenants are prefixes of one another for one tenant only. -/
theorem eq_of_tenantPrefix {tenantId tenantId' : List Char}
    (h : tenantPrefix tenantId <+: tenantPrefix tenantId') : tenantId = tenantId' :=
  encodeURIComponent_injective (segment_eq (slash_notMem_encodeURIComponent tenantId') h)

theorem tenantPrefix_prefix_documentKey (now : Time) (randomUUID tenantId : List Char)
    (fileName : List UInt16) :
    tenantPrefix tenantId <+: documentKey now randomUUID tenantId fileName := by
  simp only [documentKey, List.append_assoc]
  exact List.prefix_append _ _

/-- A key lies under the prefix of its own tenant, and the prefix of another one is no prefix of
this, nor of the key; behind its last slash the key has the name of a file. -/
structure KeyIsolated (tenantId other key : List Char) : Prop where
  own : tenantPrefix tenantId <+: key
  apart : ¬ tenantPrefix tenantId <+: tenantPrefix other ∧
    ¬ tenantPrefix other <+: tenantPrefix tenantId
  foreign : ¬ tenantPrefix other <+: key
  file : ∃ directory file, key = directory ++ '/' :: file ∧ IsFileName file

/-- The keys of a tenant are isolated from those of every other one. -/
theorem keys_isolate_tenants {tenantId other : List Char} (h : tenantId ≠ other) (now : Time)
    (randomUUID : List Char) (fileName : List UInt16) :
    KeyIsolated tenantId other (documentKey now randomUUID tenantId fileName) := by
  have hown := tenantPrefix_prefix_documentKey now randomUUID tenantId fileName
  refine ⟨hown, ⟨fun hp => h (eq_of_tenantPrefix hp), fun hp => h (eq_of_tenantPrefix hp).symm⟩,
    ?_, _, _, rfl, isFileName_sanitizeFileName fileName⟩
  intro hother
  rcases List.prefix_or_prefix_of_prefix hown hother with hp | hp
  · exact h (eq_of_tenantPrefix hp)
  · exact h (eq_of_tenantPrefix hp).symm

theorem keys_isolate_slash : KeyIsolated "a/b".toList "a".toList
    (documentKey ⟨0, by decide⟩ "u".toList "a/b".toList [0x2e, 0x2e, 0x2f, 0x61]) :=
  keys_isolate_tenants (by decide) _ _ _

end HeirsOcr.DocumentKeys
