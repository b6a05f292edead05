import HeirsOcr.UrlGuard

/-!
# One address, many spellings

The guard's verdict on an IPv6 text is compared across all the text forms of one address.
A text begins with the first group or with the double colon, and the guard's expressions
see only that beginning. So the verdict depends on the address alone exactly when the
first group is written in four digits by everyone, or no way to write it matches.
-/
namespace HeirsOcr.UrlGuard
open JsText AddressText

/-- A character that may stand in an IPv6 text. -/
def textChars : List Char := hexChars ++ [':', '.']

/-- The small form of a character that has one. -/
def low (c : Char) : Char := (lowerChar c).headD c

theorem lowerChar_of_textChar : ∀ c ∈ textChars, lowerChar c = [low c] :=
  forall_mem_of_all (by decide)

theorem textChar_ne_bracket : ∀ c ∈ textChars, low c ≠ '[' ∧ low c ≠ ']' :=
  forall_mem_of_all (by decide)

theorem low_eq_colon : ∀ c ∈ textChars, low c = ':' → c = ':' :=
  forall_mem_of_all (by decide)

/-- A hexadecimal digit's small form tells its value. -/
theorem low_eq_iff : ∀ c ∈ hexChars,
    (low c = 'f' ↔ hexDigit c = 15) ∧ (low c = 'e' ↔ hexDigit c = 14) ∧
    (low c = 'd' ↔ hexDigit c = 13) ∧ (low c = 'c' ↔ hexDigit c = 12) ∧
    (low c = 'b' ↔ hexDigit c = 11) ∧ (low c = 'a' ↔ hexDigit c = 10) ∧
    (low c = '9' ↔ hexDigit c = 9) ∧ (low c = '8' ↔ hexDigit c = 8) ∧
    (low c = '1' ↔ hexDigit c = 1) :=
  forall_mem_of_all (by decide)

theorem textChar_of_hexDigit {c : Char} (hc : isHexDigit c) : c ∈ textChars :=
  List.mem_append_left _ (List.contains_iff_mem.mp hc)

theorem isHexDigit_of_isDigit {c : Char} (hc : isDigit c) : isHexDigit c := by
  simp only [isDigit, Bool.and_eq_true, decide_eq_true_eq] at hc
  obtain ⟨hlow, hhigh⟩ := hc
  have hof : c = Char.ofNat c.toNat := (Char.ofNat_toNat c).symm
  generalize c.toNat = n at hlow hhigh hof
  subst hof
  interval_cases n <;> decide

theorem textChar_of_groups {fs : List (List Char)} {gs : List ℕ} (h : Groups fs gs) :
    ∀ f ∈ fs, ∀ c ∈ f, c ∈ textChars := by
  induction h with
  | nil => simp
  | quad hquad =>
    intro f hf c hc
    obtain rfl := List.mem_singleton.mp hf
    rcases (parseV4_chars hquad).1 c hc with hdigit | rfl
    · exact textChar_of_hexDigit (isHexDigit_of_isDigit hdigit)
    · decide
  | cons hgroup _ ih =>
    intro f hf c hc
    rcases List.mem_cons.mp hf with rfl | hf
    · exact textChar_of_hexDigit ((isGroup_iff.mp hgroup).2.2 c hc)
    · exact ih f hf c hc

theorem textChar_of_spells {t : List Char} {gs : List ℕ} (h : Spells t gs) :
    ∀ c ∈ t, c ∈ textChars := by
  intro c hc
  cases h with
  | full hgroups _ =>
    rcases mem_join hc with rfl | ⟨f, hf, hcf⟩
    · decide
    · exact textChar_of_groups hgroups f hf c hcf
  | compressed hleft hgroups _ =>
    rcases List.mem_append.mp hc with hc | hc
    · rcases mem_join hc with rfl | ⟨f, hf, hcf⟩
      · decide
      · exact textChar_of_hexDigit ((isGroup_iff.mp (hleft f hf)).2.2 c hcf)
    · simp only [List.mem_cons] at hc
      rcases hc with rfl | rfl | hc
      · decide
      · decide
      · rcases mem_join hc with rfl | ⟨f, hf, hcf⟩
        · decide
        · exact textChar_of_groups hgroups f hf c hcf

/-- On an IPv6 text the guard only lowers the letters. -/
theorem normalized_of_spells {t : List Char} {gs : List ℕ} (h : Spells t gs) :
    stripBrackets (toLowerCase t) = t.map low := by
  have hchars := textChar_of_spells h
  have hlower : toLowerCase t = t.map low := by
    rw [toLowerCase, ← List.flatMap_singleton' (t.map low), List.flatMap_map]
    exact List.flatMap_congr fun c hc => lowerChar_of_textChar c (hchars c hc)
  have hhead : (t.map low).head? ≠ some '[' := by
    intro hbracket
    obtain ⟨c, hc, hlow⟩ := List.mem_map.mp (List.mem_of_head? hbracket)
    exact (textChar_ne_bracket c (hchars c hc)).1 hlow
  have hlast : (t.map low).getLast? ≠ some ']' := by
    intro hbracket
    obtain ⟨c, hc, hlow⟩ := List.mem_map.mp (List.mem_of_getLast? hbracket)
    exact (textChar_ne_bracket c (hchars c hc)).2 hlow
  simp only [hlower, stripBrackets, if_neg hhead, if_neg hlast]

/-- A text form begins with the first group, or with the double colon. -/
theorem spells_cases {t : List Char} {gs : List ℕ} (h : Spells t gs) :
    (∃ f rest gs', t = f ++ ':' :: rest ∧ isGroup f ∧ gs = hexValue f :: gs') ∨
      ∃ fs gs', t = ':' :: ':' :: join fs ∧ Groups fs gs' ∧ gs'.length ≤ 7 ∧
        gs = List.replicate (8 - gs'.length) 0 ++ gs' := by
  cases h with
  | full hgroups hlen =>
    obtain ⟨f, f', fs, gs', rfl, hf, rfl⟩ := hgroups.exists_cons (by omega)
    exact Or.inl ⟨f, _, gs', join_cons_cons f f' fs, hf, rfl⟩
  | @compressed left fs gs' hleft hgroups hlen =>
    cases left with
    | nil =>
      rw [List.length_nil, zero_add] at hlen
      exact Or.inr ⟨fs, gs', rfl, hgroups, hlen, by simp⟩
    | cons f left =>
      have hf := hleft f List.mem_cons_self
      cases left with
      | nil => exact Or.inl ⟨f, ':' :: join fs, _, by simp, hf, by simp; rfl⟩
      | cons f' left =>
        exact Or.inl ⟨f, join (f' :: left) ++ ':' :: ':' :: join fs, _,
          by simp [join_cons_cons], hf, by simp; rfl⟩

/-- The values of a first group of `n` digits that an expression matches. -/
def GroupMatched (n g : ℕ) : Prop :=
  (n = 2 ∧ (g = 0xfc ∨ g = 0xfd ∨ g = 0xff)) ∨
  (n = 3 ∧ (0xfc0 ≤ g ∧ g ≤ 0xfdf ∨ 0xfe8 ≤ g ∧ g ≤ 0xfeb ∨ 0xff0 ≤ g ∧ g ≤ 0xfff)) ∨
  (n = 4 ∧ (0xfc00 ≤ g ∧ g ≤ 0xfdff ∨ 0xfe80 ≤ g ∧ g ≤ 0xfebf ∨ 0xff00 ≤ g))

/-- The expressions see the first group's digits and the colon after them. -/
theorem matches_group_iff {f : List Char} (hf : isGroup f) (rest : List Char) :
    (matchesUniqueLocal (f.map low ++ ':' :: rest) ∨ matchesLinkLocal (f.map low ++ ':' :: rest) ∨
      matchesMulticast (f.map low ++ ':' :: rest)) ↔ GroupMatched f.length (hexValue f) := by
  obtain ⟨hlen, hlen', hhex⟩ := isGroup_iff.mp hf
  have hlow := fun c hc => forall_hexDigit low_eq_iff c (hhex c hc)
  have hlt := fun c hc => hexDigit_lt c (hhex c hc)
  match f with
  | [x] => simp [matchesUniqueLocal, matchesLinkLocal, matchesMulticast, GroupMatched]
  | [x, y] =>
    simp only [List.forall_mem_cons] at hlt
    simp [matchesUniqueLocal, matchesLinkLocal, matchesMulticast, GroupMatched, hexValue, hlow]
    omega
  | [x, y, z] =>
    simp only [List.forall_mem_cons] at hlt
    simp [matchesUniqueLocal, matchesLinkLocal, matchesMulticast, GroupMatched, hexValue, hlow]
    omega
  | [x, y, z, w] =>
    simp only [List.forall_mem_cons] at hlt
    simp [matchesUniqueLocal, matchesLinkLocal, matchesMulticast, GroupMatched, hexValue, hlow]
    omega

theorem isBlockedAddress_of_spells {t : List Char} {gs : List ℕ} (h : Spells t gs) :
    isBlockedAddress t = isBlockedV6 t := by
  simp [isBlockedAddress, isIP_of_parseV6 (parseV6_eq_some_iff.mpr h)]

/-- On a text that begins with a group the verdict is that of the group's digits. -/
theorem blocked_group_iff {f rest : List Char} {gs : List ℕ} (h : Spells (f ++ ':' :: rest) gs)
    (hf : isGroup f) : isBlockedAddress (f ++ ':' :: rest) ↔
      GroupMatched f.length (hexValue f) := by
  have hlow : (f ++ ':' :: rest).map low = f.map low ++ ':' :: rest.map low := by
    simp [show low ':' = ':' by decide]
  obtain ⟨x, xs, rfl⟩ := List.exists_cons_of_ne_nil (group_ne hf).1
  have hx : low x ≠ ':' := by
    have hhex := (isGroup_iff.mp hf).2.2 x List.mem_cons_self
    intro hcolon
    have hxc := low_eq_colon x (textChar_of_hexDigit hhex) hcolon
    exact (group_ne hf).2.1 (hxc ▸ List.mem_cons_self)
  have hmapped : mapped ((x :: xs).map low ++ ':' :: rest.map low) = none := by
    simp [mapped, hx]
  have hnot : ¬((x :: xs).map low ++ ':' :: rest.map low = [':', ':'] ∨
      (x :: xs).map low ++ ':' :: rest.map low = [':', ':', '1']) := by
    simp [hx]
  rw [isBlockedAddress_of_spells h, ← matches_group_iff hf (rest.map low)]
  simp only [isBlockedV6, normalized_of_spells h, hlow, hmapped, if_neg hnot]
  cases matchesUniqueLocal ((x :: xs).map low ++ ':' :: rest.map low) <;>
    cases matchesLinkLocal ((x :: xs).map low ++ ':' :: rest.map low) <;> simp

/-- The verdict on a text that begins with the double colon. -/
theorem blocked_colon_iff {r : List Char} {gs : List ℕ} (h : Spells (':' :: ':' :: r) gs) :
    isBlockedAddress (':' :: ':' :: r) ↔
      (∃ quad, mapped (':' :: ':' :: r.map low) = some quad ∧ isBlockedV4 quad) ∨
      r.map low = [] ∨ r.map low = ['1'] := by
  have hlow : (':' :: ':' :: r).map low = ':' :: ':' :: r.map low := by
    simp [show low ':' = ':' by decide]
  rw [isBlockedAddress_of_spells h]
  simp only [isBlockedV6, normalized_of_spells h, hlow]
  generalize r.map low = ip
  cases hmapped : mapped (':' :: ':' :: ip) with
  | some quad =>
    have hshort : ¬(ip = [] ∨ ip = ['1']) := by
      have hnone : mapped [':', ':'] = none ∧ mapped [':', ':', '1'] = none := by decide
      rintro (rfl | rfl)
      · simp [hnone.1] at hmapped
      · simp [hnone.2] at hmapped
    simp [hshort]
  | none =>
    by_cases hshort : ip = [] ∨ ip = ['1']
    · simp [hshort]
    · simp [hshort, matchesUniqueLocal, matchesLinkLocal, matchesMulticast]

theorem mapped_eq_some {r quad : List Char} (h : mapped (':' :: ':' :: r) = some quad) :
    isDottedDigits quad ∧ (r = quad ∨ r = 'f' :: 'f' :: 'f' :: 'f' :: ':' :: quad) := by
  simp only [mapped] at h
  split at h
  · rename_i heq
    simp only [List.cons.injEq, true_and] at heq
    subst heq
    split_ifs at h with hdotted
    obtain rfl := Option.some.inj h
    exact ⟨hdotted, Or.inr rfl⟩
  · rename_i heq
    simp only [List.cons.injEq, true_and] at heq
    subst heq
    split_ifs at h with hdotted
    obtain rfl := Option.some.inj h
    exact ⟨hdotted, Or.inl rfl⟩
  · cases h

theorem low_ne_dot : ∀ c ∈ hexChars, low c ≠ '.' :=
  forall_mem_of_all (by decide)

theorem low_of_decDigit : ∀ c ∈ hexChars, isDigit c → low c = c :=
  forall_mem_of_all (by decide)

/-- An IPv4 address has no letters to lower. -/
theorem map_low_of_parseV4 {t : List Char} {octets : List ℕ} (h : parseV4 t = some octets) :
    t.map low = t := by
  have hsame : ∀ c ∈ t, low c = id c := by
    intro c hc
    rcases (parseV4_chars h).1 c hc with hdigit | rfl
    · exact low_of_decDigit c (List.contains_iff_mem.mp (isHexDigit_of_isDigit hdigit)) hdigit
    · decide
  rw [List.map_congr_left hsame, List.map_id]

theorem isDottedDigits_chars {t : List Char} (h : isDottedDigits t) : '.' ∈ t ∧ ':' ∉ t := by
  simp only [isDottedDigits, Bool.and_eq_true, List.all_eq_true, decide_eq_true_eq] at h
  obtain ⟨hlen, hparts⟩ := h
  constructor
  · by_contra hdot
    rw [List.splitOn_eq_singleton hdot] at hlen
    simp at hlen
  · intro hcolon
    obtain ⟨o, ho, hmem⟩ := mem_splitOn_of_mem hcolon (by decide : ':' ≠ '.')
    exact absurd ((hparts o ho).2 ':' hmem) (by decide)

/-- Groups that read as an IPv4 address are one. -/
theorem groups_of_dottedDigits {fs : List (List Char)} {gs : List ℕ} {quad : List Char}
    (h : Groups fs gs) (hdotted : isDottedDigits quad) (hlow : (join fs).map low = quad) :
    ∃ octets, parseV4 quad = some octets ∧ gs = quadGroups octets := by
  obtain ⟨hdot, hcolon⟩ := isDottedDigits_chars hdotted
  cases h with
  | nil =>
    subst hlow
    simp at hdot
  | @quad f octets hquad =>
    rw [join_singleton, map_low_of_parseV4 hquad] at hlow
    exact ⟨octets, hlow ▸ hquad, rfl⟩
  | @cons f fs gs hf hrest =>
    cases fs with
    | nil =>
      rw [join_singleton] at hlow
      subst hlow
      obtain ⟨c, hc, hlowc⟩ := List.mem_map.mp hdot
      exact absurd hlowc (forall_hexDigit low_ne_dot c ((isGroup_iff.mp hf).2.2 c hc))
    | cons f' fs =>
      rw [join_cons_cons] at hlow
      subst hlow
      exact absurd (List.mem_map.mpr ⟨':', by simp, by decide⟩) hcolon

/-- Lowering keeps a first group apart from what follows its colon. -/
theorem low_group_append {f a r q : List Char} (hf : isGroup f) (ha : ':' ∉ a)
    (h : f.map low ++ ':' :: r = a ++ ':' :: q) : f.map low = a ∧ r = q := by
  have hcolon : ':' ∉ f.map low := by
    intro hmem
    obtain ⟨c, hc, hlowc⟩ := List.mem_map.mp hmem
    have hcc := low_eq_colon c (textChar_of_hexDigit ((isGroup_iff.mp hf).2.2 c hc)) hlowc
    exact (group_ne hf).2.1 (hcc ▸ hc)
  exact eq_of_append_cons hcolon ha h

theorem hexValue_of_low_ffff {f : List Char} (hf : isGroup f)
    (hlow : f.map low = ['f', 'f', 'f', 'f']) : hexValue f = 0xffff := by
  have hhex := (isGroup_iff.mp hf).2.2
  have hlen : f.length = 4 := by simpa using congrArg List.length hlow
  match f, hlen with
  | [x, y, z, w], _ =>
    simp only [List.map_cons, List.map_nil, List.cons.injEq, and_true] at hlow
    obtain ⟨hx, hy, hz, hw⟩ := hlow
    have hfifteen : ∀ c ∈ [x, y, z, w], low c = 'f' → hexDigit c = 15 :=
      fun c hc => (forall_hexDigit low_eq_iff c (hhex c hc)).1.mp
    simp [hexValue, hfifteen x (by simp) hx, hfifteen y (by simp) hy,
      hfifteen z (by simp) hz, hfifteen w (by simp) hw]

/-- The same behind `ffff:`. -/
theorem groups_of_mapped {fs : List (List Char)} {gs : List ℕ} {quad : List Char}
    (h : Groups fs gs) (hdotted : isDottedDigits quad)
    (hlow : (join fs).map low = 'f' :: 'f' :: 'f' :: 'f' :: ':' :: quad) :
    ∃ octets, parseV4 quad = some octets ∧ gs = 0xffff :: quadGroups octets := by
  have hcolon : ':' ∈ join fs := by
    have hmem : ':' ∈ (join fs).map low := by rw [hlow]; simp
    obtain ⟨c, hc, hlowc⟩ := List.mem_map.mp hmem
    rcases mem_join hc with rfl | ⟨f, hf, hcf⟩
    · exact hc
    · exact low_eq_colon c (textChar_of_groups h f hf c hcf) hlowc ▸ hc
  cases h with
  | nil => simp at hcolon
  | quad hquad =>
    rw [join_singleton] at hcolon
    exact absurd hcolon (quad_ne hquad).2
  | @cons f fs gs hf hrest =>
    cases fs with
    | nil =>
      rw [join_singleton] at hcolon
      exact absurd hcolon (group_ne hf).2.1
    | cons f' fs =>
      have hmap : f.map low ++ ':' :: (join (f' :: fs)).map low =
          ['f', 'f', 'f', 'f'] ++ ':' :: quad := by
        simpa [join_cons_cons, show low ':' = ':' by decide] using hlow
      obtain ⟨hffff, hquad⟩ := low_group_append hf (by decide) hmap
      obtain ⟨octets, hoctets, rfl⟩ := groups_of_dottedDigits hrest hdotted hquad
      exact ⟨octets, hoctets, by rw [hexValue_of_low_ffff hf hffff]⟩

/-- The address holds a blocked IPv4 address in its last 32 bits, bare or mapped. -/
def EmbedsBlocked (gs : List ℕ) : Prop :=
  ∃ a < 256, ∃ b < 256, ∃ c < 256, ∃ d < 256, blockedOctets a b ∧
    (gs = [0, 0, 0, 0, 0, 0] ++ quadGroups [a, b, c, d] ∨
      gs = [0, 0, 0, 0, 0, 0xffff] ++ quadGroups [a, b, c, d])

/-- The four octets of an IPv4 text, and its verdict. -/
theorem blocked_of_parseV4 {q : List Char} {octets : List ℕ} (h : parseV4 q = some octets)
    (hblocked : isBlockedAddress q) : ∃ a < 256, ∃ b < 256, ∃ c < 256, ∃ d < 256,
      blockedOctets a b ∧ octets = [a, b, c, d] := by
  obtain ⟨hlen, hle⟩ := parseV4_octets h
  match octets, hlen with
  | [a, b, c, d], _ =>
    simp only [List.mem_cons, List.not_mem_nil, or_false, forall_eq_or_imp, forall_eq] at hle
    rw [isBlockedAddress_of_parseV4 h] at hblocked
    exact ⟨a, by omega, b, by omega, c, by omega, d, by omega, hblocked, rfl⟩

theorem isBlockedAddress_of_isBlockedV4 {q : List Char} {octets : List ℕ}
    (h : parseV4 q = some octets) (hblocked : isBlockedV4 q) : isBlockedAddress q := by
  simpa [isBlockedAddress, isIP_of_parseV4 h] using hblocked

/-- A blocked text that begins with the double colon names such an address. -/
theorem embedsBlocked_of_blocked {fs : List (List Char)} {gs : List ℕ}
    (h : Spells (':' :: ':' :: join fs) (List.replicate (8 - gs.length) 0 ++ gs))
    (hgroups : Groups fs gs) (hblocked : isBlockedAddress (':' :: ':' :: join fs)) :
    EmbedsBlocked (List.replicate (8 - gs.length) 0 ++ gs) := by
  rcases (blocked_colon_iff h).mp hblocked with ⟨quad, hmapped, hquad⟩ | hnil | hone
  · obtain ⟨hdotted, hlow | hlow⟩ := mapped_eq_some hmapped
    · obtain ⟨octets, hoctets, rfl⟩ := groups_of_dottedDigits hgroups hdotted hlow
      obtain ⟨a, ha, b, hb, c, hc, d, hd, hab, rfl⟩ := blocked_of_parseV4 hoctets
        (isBlockedAddress_of_isBlockedV4 hoctets hquad)
      exact ⟨a, ha, b, hb, c, hc, d, hd, hab, Or.inl rfl⟩
    · obtain ⟨octets, hoctets, rfl⟩ := groups_of_mapped hgroups hdotted hlow
      obtain ⟨a, ha, b, hb, c, hc, d, hd, hab, rfl⟩ := blocked_of_parseV4 hoctets
        (isBlockedAddress_of_isBlockedV4 hoctets hquad)
      exact ⟨a, ha, b, hb, c, hc, d, hd, hab, Or.inr rfl⟩
  · have hfs : fs = [] := by
      rw [← fieldsOf_join hgroups.field_ne, List.map_eq_nil_iff.mp hnil]
      rfl
    subst hfs
    cases hgroups
    exact ⟨0, by decide, 0, by decide, 0, by decide, 0, by decide, by decide, Or.inl rfl⟩
  · obtain ⟨c, hr, hc⟩ : ∃ c, join fs = [c] ∧ low c = '1' := by
      simpa [List.map_eq_cons_iff] using hone
    have hne : c ≠ ':' := by
      rintro rfl
      exact absurd hc (by decide)
    have hfs : fs = [[c]] := by
      rw [← fieldsOf_join hgroups.field_ne, hr]
      simp [fieldsOf, List.splitOn_eq_singleton (show ':' ∉ [c] by simpa using hne.symm)]
    subst hfs
    cases hgroups with
    | quad hquad =>
      have hdot := (parseV4_chars hquad).2
      obtain rfl := List.mem_singleton.mp hdot
      exact absurd hc (by decide)
    | cons hf hrest =>
      cases hrest
      have hhex := (isGroup_iff.mp hf).2.2 c List.mem_cons_self
      have hvalue : hexValue [c] = 1 := by
        obtain ⟨-, -, -, -, -, -, -, -, hone⟩ := forall_hexDigit low_eq_iff c hhex
        simp [hexValue, hone.mp hc]
      rw [hvalue]
      exact ⟨0, by decide, 0, by decide, 0, by decide, 1, by decide, by decide, Or.inl rfl⟩

theorem mapped_of_parseV4 {q : List Char} {octets : List ℕ} (h : parseV4 q = some octets) :
    mapped (':' :: ':' :: q) = some q ∧
      mapped (':' :: ':' :: 'f' :: 'f' :: 'f' :: 'f' :: ':' :: q) = some q := by
  have hdotted := isDottedDigits_of_parseV4 h
  constructor
  · simp only [mapped]
    split
    · rename_i heq
      simp only [List.cons.injEq, true_and] at heq
      subst heq
      exact absurd (by simp) (isDottedDigits_chars hdotted).2
    · rename_i heq
      simp only [List.cons.injEq, true_and] at heq
      subst heq
      rw [if_pos hdotted]
    · rename_i hno
      exact absurd rfl (hno q)
  · simp [mapped, hdotted]

/-- Every such address has a text form that is blocked. -/
theorem exists_blocked_of_embedsBlocked {gs : List ℕ} (h : EmbedsBlocked gs) :
    ∃ t, Spells t gs ∧ isBlockedAddress t := by
  obtain ⟨a, ha, b, hb, c, hc, d, hd, hab, hgs⟩ := h
  obtain ⟨q, hq⟩ := exists_parseV4 ha hb hc hd
  have hquad : isBlockedV4 q := (isBlockedV4_of_parseV4 hq).trans hab
  rcases hgs with rfl | rfl
  · have hspells :
        Spells (':' :: ':' :: join [q]) ([0, 0, 0, 0, 0, 0] ++ quadGroups [a, b, c, d]) :=
      @Spells.compressed [] _ _ (by simp) (Groups.quad hq) (by simp [quadGroups])
    refine ⟨_, hspells, (blocked_colon_iff hspells).mpr (Or.inl ⟨q, ?_, hquad⟩)⟩
    rw [join_singleton, map_low_of_parseV4 hq]
    exact (mapped_of_parseV4 hq).1
  · have hffff : isGroup ['f', 'f', 'f', 'f'] := by decide
    have hspells : Spells (':' :: ':' :: join [['f', 'f', 'f', 'f'], q])
        ([0, 0, 0, 0, 0, 0xffff] ++ quadGroups [a, b, c, d]) :=
      @Spells.compressed [] _ _ (by simp) (Groups.cons hffff (Groups.quad hq))
        (by simp [quadGroups])
    refine ⟨_, hspells, (blocked_colon_iff hspells).mpr (Or.inl ⟨q, ?_, hquad⟩)⟩
    have hlow : (join [['f', 'f', 'f', 'f'], q]).map low =
        'f' :: 'f' :: 'f' :: 'f' :: ':' :: q := by
      simp only [join_cons_cons, join_singleton, List.map_append, List.map_cons,
        map_low_of_parseV4 hq]
      rfl
    rw [hlow]
    exact (mapped_of_parseV4 hq).2

/-- What the guard must refuse, as the address itself. -/
inductive MustBlock (v : V6) : Prop where
  | loopback : v.groups = [0, 0, 0, 0, 0, 0, 0, 1] → MustBlock v
  | unspecified : v.groups = [0, 0, 0, 0, 0, 0, 0, 0] → MustBlock v
  | uniqueLocal : 0xfc00 ≤ v.groups.headD 0 ∧ v.groups.headD 0 ≤ 0xfdff → MustBlock v
  | linkLocal : 0xfe80 ≤ v.groups.headD 0 ∧ v.groups.headD 0 ≤ 0xfebf → MustBlock v
  | multicast : 0xff00 ≤ v.groups.headD 0 → MustBlock v
  | ipv4Mapped {q : List Char} {octets : List ℕ} : parseV4 q = some octets →
      isBlockedAddress q → v.groups = [0, 0, 0, 0, 0, 0xffff] ++ quadGroups octets → MustBlock v

/-- The first groups that an expression matches when they are written in two or three
digits, though no range it stands for holds them. -/
def ShortMatched (g : ℕ) : Prop :=
  g = 0xfc ∨ g = 0xfd ∨ g = 0xff ∨ 0xfc0 ≤ g ∧ g ≤ 0xfdf ∨ 0xfe8 ≤ g ∧ g ≤ 0xfeb ∨
    0xff0 ≤ g ∧ g ≤ 0xfff

/-- The addresses whose text forms all get one verdict, and the right one: those whose
first group has four digits, those whose first group is shorter and matches nothing, and
those that begin with zeros and hold no blocked IPv4 address. -/
def SpellingSafe (v : V6) : Prop :=
  0x1000 ≤ v.groups.headD 0 ∨
  (0 < v.groups.headD 0 ∧ ¬ShortMatched (v.groups.headD 0)) ∨
  (v.groups.headD 0 = 0 ∧ ¬EmbedsBlocked v.groups)

/-- The text form with eight groups, the first in `n` digits. -/
theorem exists_full (v : V6) {n : ℕ} (h1 : 1 ≤ n) (h4 : n ≤ 4)
    (hn : v.groups.headD 0 < 16 ^ n) :
    ∃ t, Denotes t v ∧ (isBlockedAddress t ↔ GroupMatched n (v.groups.headD 0)) := by
  obtain ⟨g, g', gs, hgs⟩ : ∃ g g' gs, v.groups = g :: g' :: gs := by
    match hv : v.groups, v.length_eq with
    | g :: g' :: gs, _ => exact ⟨g, g', gs, rfl⟩
  have hlt := v.group_lt
  have hlen := v.length_eq
  rw [hgs] at hn hlt hlen
  rw [List.headD_cons] at hn
  have hgroups : Groups (hexText n g :: (g' :: gs).map (hexText 4)) (g :: g' :: gs) := by
    have h := Groups.cons (isGroup_hexText g h1 h4)
      (groups_hexText fun x hx => hlt x (List.mem_cons_of_mem g hx))
    rwa [hexValue_hexText_of_lt hn] at h
  have hspells := Spells.full hgroups hlen
  rw [List.map_cons, join_cons_cons] at hspells
  refine ⟨hexText n g ++ ':' :: join (hexText 4 g' :: gs.map (hexText 4)), ?_, ?_⟩
  · rw [Denotes, hgs]
    exact parseV6_eq_some_iff.mpr hspells
  · rw [blocked_group_iff hspells (isGroup_hexText g h1 h4), length_hexText,
      hexValue_hexText_of_lt hn, hgs]
    rfl

/-- What a text of the address can look like, with its verdict. -/
theorem verdict_cases {t : List Char} {v : V6} (h : Denotes t v) :
    (∃ n, 1 ≤ n ∧ n ≤ 4 ∧ v.groups.headD 0 < 16 ^ n ∧
      (isBlockedAddress t ↔ GroupMatched n (v.groups.headD 0))) ∨
    (v.groups.headD 0 = 0 ∧ (isBlockedAddress t → EmbedsBlocked v.groups)) := by
  have hspells := parseV6_eq_some_iff.mp h
  rcases spells_cases hspells with ⟨f, rest, gs, rfl, hf, hgs⟩ | ⟨fs, gs, rfl, hgroups, hlen, hgs⟩
  · obtain ⟨h1, h4, hhex⟩ := isGroup_iff.mp hf
    have hhead : v.groups.headD 0 = hexValue f := by rw [hgs]; rfl
    rw [hhead]
    exact Or.inl ⟨f.length, h1, h4, hexValue_lt hhex, blocked_group_iff hspells hf⟩
  · have hhead : v.groups.headD 0 = 0 := by
      obtain ⟨k, hk⟩ : ∃ k, 8 - gs.length = k + 1 := ⟨7 - gs.length, by omega⟩
      rw [hgs, hk, List.replicate_succ]
      rfl
    rw [hgs] at hspells ⊢
    rw [hgs] at hhead
    exact Or.inr ⟨hhead, embedsBlocked_of_blocked hspells hgroups⟩

/-- An address the guard must refuse that is safe in every spelling has a first group of
four digits. -/
theorem matched_of_mustBlock {v : V6} (h : MustBlock v) (hsafe : SpellingSafe v) :
    GroupMatched 4 (v.groups.headD 0) := by
  have hzero : v.groups.headD 0 = 0 → EmbedsBlocked v.groups →
      GroupMatched 4 (v.groups.headD 0) := by
    intro hhead hembeds
    rcases hsafe with hsafe | ⟨hsafe, -⟩ | ⟨-, hsafe⟩
    · omega
    · omega
    · exact absurd hembeds hsafe
  cases h with
  | loopback h =>
    refine hzero (by rw [h]; rfl) ?_
    rw [h]
    exact ⟨0, by decide, 0, by decide, 0, by decide, 1, by decide, by decide, Or.inl rfl⟩
  | unspecified h =>
    refine hzero (by rw [h]; rfl) ?_
    rw [h]
    exact ⟨0, by decide, 0, by decide, 0, by decide, 0, by decide, by decide, Or.inl rfl⟩
  | uniqueLocal h =>
    unfold GroupMatched
    omega
  | linkLocal h =>
    unfold GroupMatched
    omega
  | multicast h =>
    unfold GroupMatched
    omega
  | ipv4Mapped hq hblocked h =>
    refine hzero (by rw [h]; rfl) ?_
    obtain ⟨a, ha, b, hb, c, hc, d, hd, hab, rfl⟩ := blocked_of_parseV4 hq hblocked
    exact ⟨a, ha, b, hb, c, hc, d, hd, hab, Or.inr h⟩

/-- On a safe address the verdict on each text is whether an expression matches the first
group in four digits. -/
theorem verdict_of_spellingSafe {t : List Char} {v : V6} (hsafe : SpellingSafe v)
    (h : Denotes t v) : isBlockedAddress t ↔ GroupMatched 4 (v.groups.headD 0) := by
  rcases verdict_cases h with ⟨n, h1, h4, hn, hverdict⟩ | ⟨hhead, hembeds⟩
  · rw [hverdict]
    have hdigits : n = 1 ∧ v.groups.headD 0 < 16 ∨ n = 2 ∧ v.groups.headD 0 < 256 ∨
        n = 3 ∧ v.groups.headD 0 < 4096 ∨ n = 4 := by
      interval_cases n <;> omega
    unfold GroupMatched
    rcases hsafe with hsafe | ⟨hpos, hshort⟩ | ⟨hhead, -⟩
    · omega
    · unfold ShortMatched at hshort
      omega
    · omega
  · rw [hhead]
    refine iff_of_false (fun hblocked => ?_) (by unfold GroupMatched; omega)
    rcases hsafe with hsafe | ⟨hpos, -⟩ | ⟨-, hnot⟩
    · omega
    · omega
    · exact hnot (hembeds hblocked)

/-- The guard gives all text forms of an address one verdict, and refuses them when it
must, exactly for the addresses that are safe in every spelling. -/
theorem verdict_of_value_iff (v : V6) :
    ((∀ t t', Denotes t v → Denotes t' v → isBlockedAddress t = isBlockedAddress t') ∧
      (MustBlock v → ∀ t, Denotes t v → isBlockedAddress t = true)) ↔ SpellingSafe v := by
  constructor
  · rintro ⟨hsame, -⟩
    have hlt : v.groups.headD 0 < 16 ^ 4 := by
      match hv : v.groups, v.length_eq with
      | g :: gs, _ => exact v.group_lt g (hv ▸ List.mem_cons_self)
    have hagree : ∀ t t', Denotes t v → Denotes t' v →
        (isBlockedAddress t ↔ isBlockedAddress t') := by
      intro t t' ht ht'
      rw [hsame t t' ht ht']
    obtain ⟨t, ht, hfour⟩ := exists_full v (by decide) le_rfl hlt
    by_cases hlong : 0x1000 ≤ v.groups.headD 0
    · exact Or.inl hlong
    have hnot : ¬isBlockedAddress t := by
      rw [hfour]
      unfold GroupMatched
      omega
    rcases Nat.eq_zero_or_pos (v.groups.headD 0) with hhead | hhead
    · refine Or.inr (Or.inr ⟨hhead, fun hembeds => ?_⟩)
      obtain ⟨t', hspells, hblocked⟩ := exists_blocked_of_embedsBlocked hembeds
      exact hnot ((hagree t t' ht (parseV6_eq_some_iff.mpr hspells)).mpr hblocked)
    · refine Or.inr (Or.inl ⟨hhead, fun hshort => ?_⟩)
      have hthree : ∃ n, 1 ≤ n ∧ n ≤ 4 ∧ v.groups.headD 0 < 16 ^ n ∧
          GroupMatched n (v.groups.headD 0) := by
        unfold ShortMatched at hshort
        by_cases htwo : v.groups.headD 0 < 16 ^ 2
        · exact ⟨2, by decide, by decide, htwo, by unfold GroupMatched; omega⟩
        · exact ⟨3, by decide, by decide, by omega, by unfold GroupMatched; omega⟩
      obtain ⟨n, h1, h4, hn, hmatched⟩ := hthree
      obtain ⟨t', ht', hblocked⟩ := exists_full v h1 h4 hn
      exact hnot ((hagree t t' ht ht').mpr (hblocked.mpr hmatched))
  · intro hsafe
    refine ⟨fun t t' ht ht' => ?_, fun hmust t ht => ?_⟩
    · rw [Bool.eq_iff_iff, verdict_of_spellingSafe hsafe ht, verdict_of_spellingSafe hsafe ht']
    · rw [verdict_of_spellingSafe hsafe ht]
      exact matched_of_mustBlock hmust hsafe

/-- Loopback written out passes where `::1` is refused, mapped loopback in hexadecimal
passes where the dotted form is refused, and a global address is refused in one spelling
and passes in another. -/
theorem verdict_depends_on_spelling :
    ¬((∀ t t' v, Denotes t v → Denotes t' v → isBlockedAddress t = isBlockedAddress t') ∧
      ∀ t v, MustBlock v → Denotes t v → isBlockedAddress t = true) ∧
    ((parseV6 "::1".toList = parseV6 "0:0:0:0:0:0:0:1".toList ∧
        isBlockedAddress "::1".toList = true ∧
        isBlockedAddress "0:0:0:0:0:0:0:1".toList = false) ∧
      (parseV6 "::ffff:127.0.0.1".toList = parseV6 "::ffff:7f00:1".toList ∧
        isBlockedAddress "::ffff:127.0.0.1".toList = true ∧
        isBlockedAddress "::ffff:7f00:1".toList = false) ∧
      (parseV6 "fc::1".toList = parseV6 "00fc::1".toList ∧
        isBlockedAddress "fc::1".toList = true ∧ isBlockedAddress "00fc::1".toList = false)) := by
  refine ⟨fun h => ?_, by decide⟩
  have hv : ∃ v : V6, Denotes "0:0:0:0:0:0:0:1".toList v ∧ MustBlock v :=
    ⟨⟨[0, 0, 0, 0, 0, 0, 0, 1], rfl, by decide⟩, by decide, .loopback rfl⟩
  obtain ⟨v, hdenotes, hmust⟩ := hv
  exact absurd (h.2 _ v hmust hdenotes) (by decide)

end HeirsOcr.UrlGuard
