import HeirsOcr.IpAllowlist

/-!
# The addresses the allowlist reads

What an address text stands for, against what the allowlist makes of it. An IPv4 address has four
bytes and an IPv6 address sixteen, and an IPv4-mapped address has the bytes of the IPv4 address it
maps in every spelling. The allowlist strays from that on four kinds of text.
-/
namespace HeirsOcr.IpAllowlist
open JsText AddressText

/-- The bytes of groups of sixteen bits. -/
def groupBytes (gs : List ℕ) : List ℕ := gs.flatMap fun g => [g / 256, g % 256]

/-- The address maps an IPv4 address. -/
def isMapped (gs : List ℕ) : Bool := gs.take 6 = [0, 0, 0, 0, 0, 0xffff]

/-- An IPv4 address after a double colon. -/
def isCompatible (t : List Char) : Bool := t.take 2 = [':', ':'] && (parseV4 (t.drop 2)).isSome

/-- The bytes an address text stands for. -/
def readAddress (t : List Char) : Option (List ℕ) :=
  match parseV4 t with
  | some octets => some octets
  | none => (parseV6 t).map fun gs =>
      if isMapped gs || isCompatible t then (groupBytes gs).drop 12 else groupBytes gs

/-- Four numbers up to 255, one of them with a leading zero. -/
def LeadingZero (quad : List Char) : Prop :=
  (quad.splitOn '.').length = 4 ∧
    (∀ o ∈ quad.splitOn '.', isShortNumber o = true ∧ decValue o ≤ 255) ∧
    ∃ o ∈ quad.splitOn '.', 1 < o.length ∧ o.head? = some '0'

/-- What stands after a double colon, or after a double colon, `ffff` and a colon. -/
inductive Tail : List Char → List Char → Prop where
  | compatible (quad : List Char) : Tail (':' :: ':' :: quad) quad
  | mapped {a b c d : Char} (quad : List Char) : isF a → isF b → isF c → isF d →
      Tail (':' :: ':' :: a :: b :: c :: d :: ':' :: quad) quad

/-- The texts the allowlist misreads: an IPv4 address with a leading zero, alone or at the end of
an IPv6 address; an IPv6 address that ends in an IPv4 address anywhere else; an IPv4-mapped address
in groups; and eight groups with a double colon that stands for none. -/
inductive Misread : List Char → Prop where
  | quad {t : List Char} : LeadingZero t → Misread t
  | tail {t quad : List Char} : Tail t quad → LeadingZero quad → Misread t
  | dotted {t : List Char} {gs : List ℕ} : Spells t gs → '.' ∈ t →
      (∀ quad, Tail t quad → ':' ∈ quad) → Misread t
  | groups {t : List Char} {gs : List ℕ} : Spells t gs → '.' ∉ t → isMapped gs → Misread t
  | nothing {left right : List (List Char)} : (∀ f ∈ left, isGroup f) → (∀ f ∈ right, isGroup f) →
      left.length + right.length = 8 → Misread (join left ++ ':' :: ':' :: join right)

theorem isOctet_iff {o : List Char} : isOctet o = true ↔
    (isShortNumber o = true ∧ decValue o ≤ 255) ∧ ¬(1 < o.length ∧ o.head? = some '0') := by
  simp only [isOctet, isShortNumber, Bool.and_eq_true, Bool.or_eq_true, decide_eq_true_eq]
  constructor
  · rintro ⟨⟨⟨⟨h1, h3⟩, hdigits⟩, hzero⟩, hvalue⟩
    refine ⟨⟨⟨⟨h1, h3⟩, hdigits⟩, hvalue⟩, ?_⟩
    rintro ⟨hlong, hhead⟩
    rcases hzero with hone | hne
    · omega
    · exact hne hhead
  · rintro ⟨⟨⟨⟨h1, h3⟩, hdigits⟩, hvalue⟩, hzero⟩
    refine ⟨⟨⟨⟨h1, h3⟩, hdigits⟩, ?_⟩, hvalue⟩
    by_cases hone : o.length = 1
    · exact .inl hone
    · exact .inr fun hhead => hzero ⟨by omega, hhead⟩

theorem parseIpv4_eq_some_iff {t : List Char} {bytes : List ℕ} :
    parseIpv4 t = some bytes ↔ (t.splitOn '.').length = 4 ∧
      (∀ o ∈ t.splitOn '.', isShortNumber o = true ∧ decValue o ≤ 255) ∧
      (t.splitOn '.').map decValue = bytes := by
  rw [parseIpv4]
  by_cases hlen : (t.splitOn '.').length = 4
  · rw [if_neg (not_not.mpr hlen)]
    simp [hlen]
  · rw [if_pos hlen]
    simp [hlen]

theorem parseIpv4_of_parseV4 {t : List Char} {octets : List ℕ} (h : parseV4 t = some octets) :
    parseIpv4 t = some octets := by
  obtain ⟨hlen, hoctets, hvalues⟩ := parseV4_eq_some_iff.mp h
  exact parseIpv4_eq_some_iff.mpr ⟨hlen, fun o ho => (isOctet_iff.mp (hoctets o ho)).1, hvalues⟩

/-- Quads are read alike unless one has a leading zero. -/
theorem parseIpv4_eq_iff (t : List Char) : parseIpv4 t = parseV4 t ↔ ¬LeadingZero t := by
  constructor
  · rintro hsame ⟨hlen, hnumbers, o, ho, hzero⟩
    rw [parseIpv4_eq_some_iff.mpr ⟨hlen, hnumbers, rfl⟩, eq_comm, parseV4_eq_some_iff] at hsame
    exact (isOctet_iff.mp (hsame.2.1 o ho)).2 hzero
  · intro hzero
    cases hv4 : parseV4 t with
    | some octets => exact parseIpv4_of_parseV4 hv4
    | none =>
      rw [Option.eq_none_iff_forall_ne_some]
      intro bytes hbytes
      obtain ⟨hlen, hnumbers, hvalues⟩ := parseIpv4_eq_some_iff.mp hbytes
      have hoctets : ∀ o ∈ t.splitOn '.', isOctet o = true := fun o ho =>
        isOctet_iff.mpr ⟨hnumbers o ho, fun hlong => hzero ⟨hlen, hnumbers, o, ho, hlong⟩⟩
      rw [parseV4_eq_some_iff.mpr ⟨hlen, hoctets, rfl⟩] at hv4
      cases hv4

theorem isQuad_of_leadingZero {quad : List Char} (h : LeadingZero quad) : isQuad quad = true := by
  obtain ⟨hlen, hnumbers, -⟩ := h
  simp only [isQuad, hlen, decide_true, Bool.true_and, List.all_eq_true]
  exact fun o ho => (hnumbers o ho).1

theorem isQuad_of_parseV4 {quad : List Char} {octets : List ℕ} (h : parseV4 quad = some octets) :
    isQuad quad = true := by
  obtain ⟨hlen, hoctets, -⟩ := parseV4_eq_some_iff.mp h
  simp only [isQuad, hlen, decide_true, Bool.true_and, List.all_eq_true]
  exact fun o ho => (isOctet_iff.mp (hoctets o ho)).1.1

/-- A quad has a dot and no colon. -/
theorem isQuad_chars {quad : List Char} (h : isQuad quad = true) : '.' ∈ quad ∧ ':' ∉ quad := by
  simp only [isQuad, Bool.and_eq_true, decide_eq_true_eq, List.all_eq_true] at h
  obtain ⟨hlen, hnumbers⟩ := h
  constructor
  · by_contra hdot
    rw [List.splitOn_eq_singleton hdot] at hlen
    simp at hlen
  · intro hcolon
    obtain ⟨o, ho, hmem⟩ := mem_splitOn_of_mem hcolon (by decide : ':' ≠ '.')
    have hnumber := hnumbers o ho
    simp only [isShortNumber, Bool.and_eq_true, List.all_eq_true] at hnumber
    exact absurd (hnumber.2 ':' hmem) (by decide)

theorem mapped_eq_some_iff {t quad : List Char} :
    mapped t = some quad ↔ Tail t quad ∧ isQuad quad = true := by
  constructor
  · intro h
    unfold mapped at h
    split at h
    · rename_i rest
      dsimp only at h
      split at h
      · rename_i a b c d q
        by_cases hf : (isF a && isF b && isF c && isF d) = true
        · rw [if_pos hf] at h
          obtain ⟨hquad, hsome⟩ := Option.ite_none_right_eq_some.mp h
          obtain rfl := Option.some.inj hsome
          simp only [Bool.and_eq_true] at hf
          exact ⟨.mapped q hf.1.1.1 hf.1.1.2 hf.1.2 hf.2, hquad⟩
        · rw [if_neg hf] at h
          obtain ⟨hquad, hsome⟩ := Option.ite_none_right_eq_some.mp h
          obtain rfl := Option.some.inj hsome
          exact absurd (by simp) (isQuad_chars hquad).2
      · obtain ⟨hquad, hsome⟩ := Option.ite_none_right_eq_some.mp h
        obtain rfl := Option.some.inj hsome
        exact ⟨.compatible rest, hquad⟩
    · cases h
  · rintro ⟨htail, hquad⟩
    cases htail with
    | compatible quad =>
      have hcolon := (isQuad_chars hquad).2
      match quad, hcolon, hquad with
      | [], _, hquad => simp [mapped, hquad]
      | [_], _, hquad => simp [mapped, hquad]
      | [_, _], _, hquad => simp [mapped, hquad]
      | [_, _, _], _, hquad => simp [mapped, hquad]
      | [_, _, _, _], _, hquad => simp [mapped, hquad]
      | a :: b :: c :: d :: e :: quad, hcolon, hquad =>
        have he : e ≠ ':' := by
          rintro rfl
          simp at hcolon
        simp [mapped, he, hquad]
    | mapped quad ha hb hc hd => simp [mapped, ha, hb, hc, hd, hquad]

@[simp] theorem length_groupBytes (gs : List ℕ) : (groupBytes gs).length = 2 * gs.length := by
  induction gs with
  | nil => rfl
  | cons g gs ih =>
    rw [groupBytes, List.flatMap_cons, List.length_append]
    rw [groupBytes] at ih
    simp only [ih, List.length_cons, List.length_nil]
    omega

theorem groupBytes_append (gs gs' : List ℕ) :
    groupBytes (gs ++ gs') = groupBytes gs ++ groupBytes gs' :=
  List.flatMap_append

theorem groupBytes_replicate_zero (n : ℕ) :
    groupBytes (List.replicate n 0) = List.replicate (2 * n) 0 := by
  induction n with
  | zero => rfl
  | succ n ih =>
    rw [List.replicate_succ, groupBytes, List.flatMap_cons]
    rw [groupBytes] at ih
    rw [ih, show 2 * (n + 1) = 2 * n + 1 + 1 by omega, List.replicate_succ, List.replicate_succ]
    rfl

/-- The two groups of an IPv4 address have its bytes. -/
theorem groupBytes_quadGroups {octets : List ℕ} (hlen : octets.length = 4)
    (hle : ∀ n ∈ octets, n ≤ 255) : groupBytes (quadGroups octets) = octets := by
  match octets, hlen with
  | [a, b, c, d], _ =>
    simp only [List.mem_cons, List.not_mem_nil, or_false, forall_eq_or_imp, forall_eq] at hle
    simp only [quadGroups, groupBytes, List.flatMap_cons, List.flatMap_nil, List.append_nil,
      List.cons_append, List.nil_append, List.cons.injEq, and_true]
    omega

theorem parseV6_length {t : List Char} {gs : List ℕ} (h : parseV6 t = some gs) :
    gs.length = 8 := by
  obtain ⟨v, rfl⟩ := exists_v6_of_parseV6 h
  exact v.length_eq

/-- An IPv6 text holds a colon. -/
theorem colon_of_spells {t : List Char} {gs : List ℕ} (h : Spells t gs) : ':' ∈ t := by
  cases h with
  | full hgroups hlen =>
    obtain ⟨f, f', fs, gs, rfl, -, -⟩ := hgroups.exists_cons (by omega)
    simp [join_cons_cons]
  | compressed hleft hgroups hlen => simp

theorem parseV4_of_colon {t : List Char} (h : ':' ∈ t) : parseV4 t = none := by
  rw [Option.eq_none_iff_forall_ne_some]
  exact fun octets hv4 => (quad_ne hv4).2 h

theorem parseV6_of_not_colon {t : List Char} (h : ':' ∉ t) : parseV6 t = none := by
  rw [Option.eq_none_iff_forall_ne_some]
  exact fun gs hgs => h (colon_of_spells (parseV6_eq_some_iff.mp hgs))

/-- What a text that begins with a double colon stands for. -/
theorem parseV6_leading {fs : List (List Char)} (hfs : ∀ f ∈ fs, f ≠ [] ∧ ':' ∉ f) :
    parseV6 (':' :: ':' :: join fs) =
      ((readGroups fs).filter fun gs => gs.length ≤ 7).map fun gs =>
        List.replicate (8 - gs.length) 0 ++ gs := by
  have hsplit : AddressText.splitCompressed (':' :: ':' :: join fs) = some ([], join fs) := by
    simp [AddressText.splitCompressed]
  simp [parseV6, hsplit, fieldsOf_join hfs, show fieldsOf [] = [] from rfl]

theorem isF_spec {c : Char} (h : isF c = true) : isHexDigit c = true ∧ hexDigit c = 15 := by
  simp only [isF, Bool.or_eq_true, beq_iff_eq] at h
  rcases h with rfl | rfl
  · decide
  · decide

theorem readGroups_quad {quad : List Char} (hdot : '.' ∈ quad) :
    readGroups [quad] = (parseV4 quad).map quadGroups := by
  have hgroup : isGroup quad = false := by
    rw [← Bool.not_eq_true]
    exact fun h => (group_ne h).2.2 hdot
  simp [readGroups, hgroup]

/-- An IPv4 address at the end of the groups. -/
theorem groupBytes_tail (pre : List ℕ) {octets : List ℕ} (hpre : pre.length = 6)
    (hlen : octets.length = 4) (hle : ∀ n ∈ octets, n ≤ 255) :
    (groupBytes (pre ++ quadGroups octets)).drop 12 = octets := by
  rw [groupBytes_append, groupBytes_quadGroups hlen hle, List.drop_left']
  rw [length_groupBytes, hpre]

/-- An IPv4 address where a tail stands is read as that address. -/
theorem readAddress_of_tail {t quad : List Char} (htail : Tail t quad) (hcolon : ':' ∉ quad)
    (hdot : '.' ∈ quad) : readAddress t = parseV4 quad := by
  have hquad : quad ≠ [] ∧ ':' ∉ quad := ⟨List.ne_nil_of_mem hdot, hcolon⟩
  cases htail with
  | compatible quad =>
    have hne : ∀ f ∈ [quad], f ≠ [] ∧ ':' ∉ f := by simpa using hquad
    have hv6 := parseV6_leading hne
    rw [join_singleton, readGroups_quad hdot] at hv6
    rw [readAddress, parseV4_of_colon (by simp), hv6]
    cases hv4 : parseV4 quad with
    | none => rfl
    | some octets =>
      obtain ⟨hfour, hle⟩ := parseV4_octets hv4
      have htwo := (quadGroups_spec hfour hle).1
      have hbytes := groupBytes_tail (List.replicate 6 0) rfl hfour hle
      simpa [htwo, isCompatible, hv4, Option.filter] using hbytes
  | @mapped a b c d quad ha hb hc hd =>
    have hgroup : isGroup [a, b, c, d] = true := by
      simp [isGroup, isF_spec ha, isF_spec hb, isF_spec hc, isF_spec hd]
    have hvalue : hexValue [a, b, c, d] = 0xffff := by
      simp [hexValue, isF_spec ha, isF_spec hb, isF_spec hc, isF_spec hd]
    have hne : ∀ f ∈ [[a, b, c, d], quad], f ≠ [] ∧ ':' ∉ f := by
      intro f hf
      rcases List.mem_pair.mp hf with rfl | rfl
      · exact ⟨(group_ne hgroup).1, (group_ne hgroup).2.1⟩
      · exact hquad
    have hv6 := parseV6_leading hne
    rw [join_cons_cons, join_singleton, readGroups, if_pos hgroup, hvalue,
      readGroups_quad hdot] at hv6
    rw [readAddress, parseV4_of_colon (by simp)]
    simp only [List.cons_append, List.nil_append] at hv6
    rw [hv6]
    cases hv4 : parseV4 quad with
    | none => rfl
    | some octets =>
      obtain ⟨hfour, hle⟩ := parseV4_octets hv4
      have htwo := (quadGroups_spec hfour hle).1
      have hbytes := groupBytes_tail (List.replicate 5 0 ++ [0xffff]) rfl hfour hle
      simpa [htwo, isMapped, Option.filter] using hbytes

/-- The allowlist's halves are the grammar's, one double colon after another. -/
theorem splitCompressed_eq (t : List Char) :
    splitCompressed t = match AddressText.splitCompressed t with
      | none => [t]
      | some (l, r) => l :: splitCompressed r := by
  induction t with
  | nil => rfl
  | cons c t ih =>
    cases t with
    | nil => simp [splitCompressed, AddressText.splitCompressed]
    | cons d t =>
      by_cases hcolons : c = ':' ∧ d = ':'
      · obtain ⟨rfl, rfl⟩ := hcolons
        simp [splitCompressed, AddressText.splitCompressed]
      · have hstep := splitCompressed.eq_2 c (d :: t) fun t' hc hdt =>
          hcolons ⟨hc, (List.cons.inj hdt).1⟩
        rw [hstep, ih, AddressText.splitCompressed, if_neg hcolons]
        cases AddressText.splitCompressed (d :: t) with
        | none => rfl
        | some p => rfl

/-- The bytes of a part are those of its groups. -/
theorem toGroups_eq (part : List Char) :
    toGroups part = if (fieldsOf part).all isGroup then
      some (groupBytes ((fieldsOf part).map hexValue)) else none := by
  by_cases hempty : part = []
  · simp [toGroups, fieldsOf, hempty, groupBytes]
  · simp [toGroups, fieldsOf, hempty, groupBytes, List.flatMap_map]

/-- Without a dot every field is a group. -/
theorem readGroups_of_not_dot {fs : List (List Char)} (hdot : ∀ f ∈ fs, '.' ∉ f) :
    readGroups fs = if fs.all isGroup then some (fs.map hexValue) else none := by
  induction fs with
  | nil => rfl
  | cons f fs ih =>
    have hrest := ih fun g hg => hdot g (List.mem_cons_of_mem f hg)
    have hv4 : parseV4 f = none := by
      rw [Option.eq_none_iff_forall_ne_some]
      exact fun octets hv4 => hdot f List.mem_cons_self (parseV4_chars hv4).2
    rw [readGroups, hrest, hv4]
    by_cases hf : isGroup f
    · by_cases hall : fs.all isGroup
      · simp [hf, hall]
      · simp [hf, hall]
    · simp [hf]

theorem not_dot_of_fieldsOf {t : List Char} (hdot : '.' ∉ t) : ∀ f ∈ fieldsOf t, '.' ∉ f := by
  intro f hf hmem
  have hjoin := mem_join_of_mem hf hmem
  rw [join_fieldsOf] at hjoin
  exact hdot hjoin

/-- Groups split back out of the text they are joined into. -/
theorem splitCompressed_of_groups {t : List Char} (h : ∀ f ∈ fieldsOf t, isGroup f) :
    AddressText.splitCompressed t = none := by
  have hne : ∀ f ∈ fieldsOf t, f ≠ [] ∧ ':' ∉ f := fun f hf =>
    ⟨(group_ne (h f hf)).1, (group_ne (h f hf)).2.1⟩
  have hsplit := splitCompressed_join hne []
  rwa [List.append_nil, join_fieldsOf] at hsplit

theorem splitCompressed_ne_nil (t : List Char) : splitCompressed t ≠ [] := by
  rw [splitCompressed_eq]
  cases AddressText.splitCompressed t with
  | none => simp
  | some p => simp

theorem Tail.mem {t quad : List Char} (h : Tail t quad) {c : Char} (hc : c ∈ quad) : c ∈ t := by
  cases h with
  | compatible quad => simp [hc]
  | mapped quad => simp [hc]

theorem mapped_of_not_dot {t : List Char} (hdot : '.' ∉ t) : mapped t = none := by
  rw [Option.eq_none_iff_forall_ne_some]
  intro quad h
  obtain ⟨htail, hquad⟩ := mapped_eq_some_iff.mp h
  exact hdot (htail.mem (isQuad_chars hquad).1)

theorem parseIp_of_not_colon {value : List Char} (hcolon : ':' ∉ trim value) :
    parseIp value = parseIpv4 (trim value) := by
  by_cases hempty : trim value = []
  · simp [parseIp, hempty, parseIpv4]
  · simp only [parseIp, if_neg hempty, if_pos hcolon]

theorem parseIp_of_mapped {value quad : List Char} (hcolon : ':' ∈ trim value)
    (hmapped : mapped (trim value) = some quad) : parseIp value = parseIpv4 quad := by
  simp only [parseIp, if_neg (List.ne_nil_of_mem hcolon), if_neg (not_not.mpr hcolon), hmapped]

/-- What becomes of the halves of a text behind the two tests for an IPv4 address. -/
def readHalves (halves : List (List Char)) : Option (List ℕ) :=
  match halves with
  | [whole] => (toGroups whole).filter fun head => head.length = 16
  | [left, right] =>
    match toGroups left, toGroups right with
    | some head, some tail =>
      if head.length + tail.length ≤ 16 then
        some (head ++ List.replicate (16 - head.length - tail.length) 0 ++ tail)
      else none
    | _, _ => none
  | _ => none

theorem parseIp_of_colon {value : List Char} (hcolon : ':' ∈ trim value)
    (hmapped : mapped (trim value) = none) :
    parseIp value = readHalves (splitCompressed (trim value)) := by
  have hne : trim value ≠ [] := List.ne_nil_of_mem hcolon
  simp only [parseIp, if_neg hne, if_neg (not_not.mpr hcolon), hmapped]
  rfl

/-- A text with one double colon. -/
theorem parseIp_of_halves {value l r : List Char}
    (hsplit : AddressText.splitCompressed (trim value) = some (l, r)) (hdot : '.' ∉ trim value) :
    parseIp value =
      if ((fieldsOf l).all isGroup && (fieldsOf r).all isGroup) ∧
          (fieldsOf l).length + (fieldsOf r).length ≤ 8 then
        some (groupBytes ((fieldsOf l).map hexValue ++
          List.replicate (8 - ((fieldsOf l).length + (fieldsOf r).length)) 0 ++
            (fieldsOf r).map hexValue))
      else none := by
  have hcolon : ':' ∈ trim value := by
    rw [splitCompressed_eq_some hsplit]
    simp
  rw [parseIp_of_colon hcolon (mapped_of_not_dot hdot), splitCompressed_eq, hsplit]
  unfold readHalves
  dsimp only
  rw [splitCompressed_eq r]
  cases hr : AddressText.splitCompressed r with
  | none =>
    dsimp only
    rw [toGroups_eq l, toGroups_eq r]
    by_cases hleft : (fieldsOf l).all isGroup = true
    · by_cases hright : (fieldsOf r).all isGroup = true
      · simp only [hleft, hright, if_true, Bool.and_self, true_and, groupBytes_append,
          groupBytes_replicate_zero]
        simp only [length_groupBytes, List.length_map]
        refine if_congr (by omega) ?_ rfl
        rw [show 16 - 2 * (fieldsOf l).length - 2 * (fieldsOf r).length =
          2 * (8 - ((fieldsOf l).length + (fieldsOf r).length)) by omega]
      · simp [hright]
    · simp [hleft]
  | some p =>
    -- A second double colon leaves an empty field on the right.
    have hright : ¬(fieldsOf r).all isGroup = true := fun h => by
      rw [splitCompressed_of_groups (List.all_eq_true.mp h)] at hr
      cases hr
    obtain ⟨half, halves, hhalves⟩ := List.exists_cons_of_ne_nil (splitCompressed_ne_nil p.2)
    simp [hhalves, hright]

/-- The halves of a text with eight groups and a double colon that stands for none. -/
def StandsForNothing (t : List Char) : Prop :=
  ∃ l r, AddressText.splitCompressed t = some (l, r) ∧ (fieldsOf l).all isGroup = true ∧
    (fieldsOf r).all isGroup = true ∧ (fieldsOf l).length + (fieldsOf r).length = 8

/-- Without a dot the parser reads the groups as the grammar does, unless a double colon stands
for none of the eight. -/
theorem parseIp_groups {value : List Char} (hcolon : ':' ∈ trim value) (hdot : '.' ∉ trim value)
    (hnothing : ¬StandsForNothing (trim value)) :
    parseIp value = (parseV6 (trim value)).map groupBytes := by
  cases hsplit : AddressText.splitCompressed (trim value) with
  | none =>
    rw [parseIp_of_colon hcolon (mapped_of_not_dot hdot), splitCompressed_eq, hsplit]
    unfold readHalves
    simp only [parseV6, hsplit, toGroups_eq, readGroups_of_not_dot (not_dot_of_fieldsOf hdot)]
    by_cases hall : (fieldsOf (trim value)).all isGroup = true
    · have hlen : 2 * (fieldsOf (trim value)).length = 16 ↔
          (fieldsOf (trim value)).length = 8 := by omega
      by_cases height : (fieldsOf (trim value)).length = 8
      · simp [hall, height, Option.filter]
      · simp [hall, height, hlen, Option.filter]
    · simp [hall]
  | some p =>
    obtain ⟨l, r⟩ := p
    have hdotr : '.' ∉ r := fun h => hdot (by rw [splitCompressed_eq_some hsplit]; simp [h])
    rw [parseIp_of_halves hsplit hdot]
    simp only [parseV6, hsplit, readGroups_of_not_dot (not_dot_of_fieldsOf hdotr)]
    by_cases hleft : (fieldsOf l).all isGroup = true
    · by_cases hright : (fieldsOf r).all isGroup = true
      · have hne : (fieldsOf l).length + (fieldsOf r).length ≠ 8 := fun h =>
          hnothing ⟨l, r, hsplit, hleft, hright, h⟩
        have hle : (fieldsOf l).length + (fieldsOf r).length ≤ 8 ↔
            (fieldsOf l).length + (fieldsOf r).length ≤ 7 := by omega
        by_cases hseven : (fieldsOf l).length + (fieldsOf r).length ≤ 7
        · simp [hleft, hright, hle, hseven, Option.filter]
        · simp [hleft, hright, hle, hseven, Option.filter]
      · simp [hright]
    · simp [hleft]

theorem standsForNothing_iff {t : List Char} : StandsForNothing t ↔
    ∃ left right : List (List Char), (∀ f ∈ left, isGroup f) ∧ (∀ f ∈ right, isGroup f) ∧
      left.length + right.length = 8 ∧ t = join left ++ ':' :: ':' :: join right := by
  constructor
  · rintro ⟨l, r, hsplit, hleft, hright, hlen⟩
    refine ⟨fieldsOf l, fieldsOf r, List.all_eq_true.mp hleft, List.all_eq_true.mp hright, hlen, ?_⟩
    rw [join_fieldsOf, join_fieldsOf, ← splitCompressed_eq_some hsplit]
  · rintro ⟨left, right, hleft, hright, hlen, rfl⟩
    have hl : ∀ f ∈ left, f ≠ [] ∧ ':' ∉ f := fun f hf =>
      ⟨(group_ne (hleft f hf)).1, (group_ne (hleft f hf)).2.1⟩
    have hr : ∀ f ∈ right, f ≠ [] ∧ ':' ∉ f := fun f hf =>
      ⟨(group_ne (hright f hf)).1, (group_ne (hright f hf)).2.1⟩
    refine ⟨join left, join right, ?_, ?_, ?_, ?_⟩
    · rw [splitCompressed_join hl]
      simp [AddressText.splitCompressed]
    · rw [fieldsOf_join hl]
      exact List.all_eq_true.mpr hleft
    · rw [fieldsOf_join hr]
      exact List.all_eq_true.mpr hright
    · rw [fieldsOf_join hl, fieldsOf_join hr, hlen]

/-- Such a text is read all the same, and is no IPv6 text. -/
theorem parseIp_of_standsForNothing {value : List Char} (h : StandsForNothing (trim value))
    (hdot : '.' ∉ trim value) :
    (parseIp value).isSome ∧ readAddress (trim value) = none := by
  obtain ⟨l, r, hsplit, hleft, hright, hlen⟩ := h
  have hcolon : ':' ∈ trim value := by
    rw [splitCompressed_eq_some hsplit]
    simp
  have hdotr : '.' ∉ r := fun h => hdot (by rw [splitCompressed_eq_some hsplit]; simp [h])
  constructor
  · rw [parseIp_of_halves hsplit hdot]
    simp [hleft, hright, hlen]
  · rw [readAddress, parseV4_of_colon hcolon]
    simp [parseV6, hsplit, hleft, hright, hlen, Option.filter,
      readGroups_of_not_dot (not_dot_of_fieldsOf hdotr)]

/-- An IPv4 address in an IPv6 text is the whole of its tail, where one stands. -/
theorem isQuad_of_spells {t quad : List Char} {gs : List ℕ} (h : Spells t gs)
    (htail : Tail t quad) (hdot : '.' ∈ t) (hcolon : ':' ∉ quad) : isQuad quad = true := by
  have hdotq : '.' ∈ quad := by
    cases htail with
    | compatible quad => simpa using hdot
    | @mapped a b c d quad ha hb hc hd =>
      have hne : ∀ {x : Char}, isF x → '.' ≠ x := by
        rintro x hx rfl
        exact absurd hx (by decide)
      simpa [hne ha, hne hb, hne hc, hne hd] using hdot
  have hread := readAddress_of_tail htail hcolon hdotq
  have hv4 : parseV4 t = none := parseV4_of_colon (colon_of_spells h)
  rw [readAddress, hv4, parseV6_eq_some_iff.mpr h] at hread
  exact isQuad_of_parseV4 hread.symm

/-- Joined groups hold digits and colons. -/
theorem not_mem_join_of_groups {fs : List (List Char)} (h : ∀ f ∈ fs, isGroup f) {c : Char}
    (hdigit : isHexDigit c = false) (hcolon : c ≠ ':') : c ∉ join fs := by
  intro hc
  rcases mem_join hc with heq | ⟨f, hf, hmem⟩
  · exact hcolon heq
  · rw [(isGroup_iff.mp (h f hf)).2.2 c hmem] at hdigit
    cases hdigit

theorem not_dot_of_groups {fs : List (List Char)} (h : ∀ f ∈ fs, isGroup f) : '.' ∉ join fs :=
  not_mem_join_of_groups h (by decide) (by decide)

/-- So do two rows of groups and a double colon between them. -/
theorem not_mem_halves_of_groups {left right : List (List Char)} (hleft : ∀ f ∈ left, isGroup f)
    (hright : ∀ f ∈ right, isGroup f) {c : Char} (hdigit : isHexDigit c = false)
    (hcolon : c ≠ ':') :
    c ∉ join left ++ ':' :: ':' :: join right := by
  intro hc
  rcases List.mem_append.mp hc with hc | hc
  · exact not_mem_join_of_groups hleft hdigit hcolon hc
  · simp only [List.mem_cons, hcolon, false_or] at hc
    exact not_mem_join_of_groups hright hdigit hcolon hc

/-- Without a colon an address is an IPv4 address. -/
theorem misread_of_not_colon {t : List Char} (hcolon : ':' ∉ t) : Misread t ↔ LeadingZero t := by
  refine ⟨fun h => ?_, .quad⟩
  cases h with
  | quad hzero => exact hzero
  | tail htail hzero => cases htail <;> simp at hcolon
  | dotted hspells => exact absurd (colon_of_spells hspells) hcolon
  | groups hspells => exact absurd (colon_of_spells hspells) hcolon
  | nothing => simp at hcolon

theorem misread_of_mapped {t quad : List Char} (hmapped : mapped t = some quad) :
    Misread t ↔ LeadingZero quad := by
  obtain ⟨htail, hquad⟩ := mapped_eq_some_iff.mp hmapped
  have hdot := htail.mem (isQuad_chars hquad).1
  refine ⟨fun h => ?_, .tail htail⟩
  cases h with
  | quad hzero =>
    refine absurd ?_ (isQuad_chars (isQuad_of_leadingZero hzero)).2
    cases htail <;> simp
  | @tail _ quad' htail' hzero =>
    have hmapped' := mapped_eq_some_iff.mpr ⟨htail', isQuad_of_leadingZero hzero⟩
    rw [hmapped] at hmapped'
    obtain rfl := Option.some.inj hmapped'
    exact hzero
  | dotted _ _ hcolon => exact absurd (hcolon quad htail) (isQuad_chars hquad).2
  | groups _ hnodot => exact absurd hdot hnodot
  | nothing hleft hright =>
    exact absurd hdot (not_mem_halves_of_groups hleft hright (by decide) (by decide))

theorem misread_of_dot {t : List Char} (hcolon : ':' ∈ t) (hdot : '.' ∈ t)
    (hmapped : mapped t = none) : Misread t ↔ ∃ gs, Spells t gs := by
  have hnoquad : ∀ quad, Tail t quad → isQuad quad = true → False := by
    intro quad htail hquad
    rw [mapped_eq_some_iff.mpr ⟨htail, hquad⟩] at hmapped
    cases hmapped
  constructor
  · intro h
    cases h with
    | quad hzero => exact absurd hcolon (isQuad_chars (isQuad_of_leadingZero hzero)).2
    | tail htail hzero => exact (hnoquad _ htail (isQuad_of_leadingZero hzero)).elim
    | dotted hspells => exact ⟨_, hspells⟩
    | groups _ hnodot => exact absurd hdot hnodot
    | nothing hleft hright =>
      exact absurd hdot (not_mem_halves_of_groups hleft hright (by decide) (by decide))
  · rintro ⟨gs, hspells⟩
    refine .dotted hspells hdot fun quad htail => ?_
    by_contra hquad
    exact hnoquad quad htail (isQuad_of_spells hspells htail hdot hquad)

theorem exists_half_of_dot {t : List Char} (hdot : '.' ∈ t) :
    ∃ half ∈ splitCompressed t, '.' ∈ half := by
  fun_induction splitCompressed t with
  | case1 cs ih =>
    obtain ⟨half, hhalf, hmem⟩ := ih (by simpa using hdot)
    exact ⟨half, List.mem_cons_of_mem _ hhalf, hmem⟩
  | case2 c cs hc hnil => exact absurd hnil (splitCompressed_ne_nil cs)
  | case3 c cs hc half halves hcs ih =>
    rcases List.mem_cons.mp hdot with rfl | hdot
    · exact ⟨_, List.mem_cons_self, List.mem_cons_self⟩
    · obtain ⟨g, hg, hmem⟩ := ih hdot
      rw [hcs] at hg
      rcases List.mem_cons.mp hg with rfl | hg
      · exact ⟨_, List.mem_cons_self, List.mem_cons_of_mem c hmem⟩
      · exact ⟨g, List.mem_cons_of_mem _ hg, hmem⟩
  | case4 => simp at hdot

theorem toGroups_of_dot {part : List Char} (hdot : '.' ∈ part) : toGroups part = none := by
  rw [toGroups_eq, if_neg]
  intro hall
  refine not_dot_of_groups (List.all_eq_true.mp hall) ?_
  rwa [join_fieldsOf]

/-- A dot anywhere but in a tail refuses the text. -/
theorem parseIp_of_dot {value : List Char} (hcolon : ':' ∈ trim value) (hdot : '.' ∈ trim value)
    (hmapped : mapped (trim value) = none) : parseIp value = none := by
  rw [parseIp_of_colon hcolon hmapped]
  unfold readHalves
  obtain ⟨half, hhalf, hmem⟩ := exists_half_of_dot hdot
  have hnone := toGroups_of_dot hmem
  split
  · rename_i whole hhalves
    rw [hhalves, List.mem_singleton] at hhalf
    rw [← hhalf, hnone]
    rfl
  · rename_i left right hhalves
    rw [hhalves] at hhalf
    rcases List.mem_pair.mp hhalf with rfl | rfl
    · rw [hnone]
    · rw [hnone]
      cases toGroups left with
      | none => rfl
      | some head => rfl
  · rfl

theorem misread_of_not_dot {t : List Char} (hdot : '.' ∉ t) :
    Misread t ↔ (∃ gs, Spells t gs ∧ isMapped gs) ∨ StandsForNothing t := by
  constructor
  · intro h
    cases h with
    | quad hzero => exact absurd (isQuad_chars (isQuad_of_leadingZero hzero)).1 hdot
    | tail htail hzero =>
      exact absurd (htail.mem (isQuad_chars (isQuad_of_leadingZero hzero)).1) hdot
    | dotted _ hdot' => exact absurd hdot' hdot
    | groups hspells _ hgroups => exact .inl ⟨_, hspells, hgroups⟩
    | nothing hleft hright hlen =>
      exact .inr (standsForNothing_iff.mpr ⟨_, _, hleft, hright, hlen, rfl⟩)
  · rintro (⟨gs, hspells, hgroups⟩ | hnothing)
    · exact .groups hspells hdot hgroups
    · obtain ⟨left, right, hleft, hright, hlen, rfl⟩ := standsForNothing_iff.mp hnothing
      exact .nothing hleft hright hlen

/-- Groups alone are read as the address they stand for, unless it maps an IPv4 address or a double
colon stands for none of them. -/
theorem parseIp_groups_iff {value : List Char} (hcolon : ':' ∈ trim value)
    (hdot : '.' ∉ trim value) :
    parseIp value = readAddress (trim value) ↔ ¬Misread (trim value) := by
  rw [misread_of_not_dot hdot, readAddress, parseV4_of_colon hcolon]
  by_cases hnothing : StandsForNothing (trim value)
  · obtain ⟨hsome, hnone⟩ := parseIp_of_standsForNothing hnothing hdot
    rw [readAddress, parseV4_of_colon hcolon] at hnone
    refine iff_of_false (fun hsame => ?_) (fun h => h (.inr hnothing))
    rw [hsame, hnone] at hsome
    cases hsome
  · have hcompatible : isCompatible (trim value) = false := by
      rw [isCompatible, Bool.and_eq_false_iff]
      refine .inr ?_
      cases hv4 : parseV4 ((trim value).drop 2) with
      | none => rfl
      | some octets => exact absurd (List.mem_of_mem_drop (parseV4_chars hv4).2) hdot
    rw [parseIp_groups hcolon hdot hnothing, hcompatible]
    cases hv6 : parseV6 (trim value) with
    | none => simp [hnothing, ← parseV6_eq_some_iff, hv6]
    | some gs =>
      have hlen := parseV6_length hv6
      have hexists : (∃ gs', Spells (trim value) gs' ∧ isMapped gs') ↔ isMapped gs := by
        simp [← parseV6_eq_some_iff, hv6]
      rw [hexists]
      simp only [Option.map_some, Bool.or_false]
      cases isMapped gs with
      | false => simp [hnothing]
      | true =>
        refine iff_of_false (fun hsame => ?_) (fun h => h (.inl rfl))
        have hbytes := congrArg List.length (Option.some.inj hsame)
        rw [if_pos rfl, List.length_drop, length_groupBytes, hlen] at hbytes
        omega

/-- The allowlist reads every text as the address it stands for, save the four kinds. -/
theorem parseIp_eq_readAddress_iff (value : List Char) :
    parseIp value = readAddress (trim value) ↔ ¬Misread (trim value) := by
  by_cases hcolon : ':' ∈ trim value
  · cases hmapped : mapped (trim value) with
    | some quad =>
      obtain ⟨htail, hquad⟩ := mapped_eq_some_iff.mp hmapped
      obtain ⟨hdotq, hcolonq⟩ := isQuad_chars hquad
      rw [parseIp_of_mapped hcolon hmapped, readAddress_of_tail htail hcolonq hdotq,
        misread_of_mapped hmapped]
      exact parseIpv4_eq_iff quad
    | none =>
      by_cases hdot : '.' ∈ trim value
      · rw [parseIp_of_dot hcolon hdot hmapped, misread_of_dot hcolon hdot hmapped, readAddress,
          parseV4_of_colon hcolon]
        rw [eq_comm]
        simp [Option.eq_none_iff_forall_ne_some, ← parseV6_eq_some_iff]
      · exact parseIp_groups_iff hcolon hdot
  · have hread : readAddress (trim value) = parseV4 (trim value) := by
      rw [readAddress, parseV6_of_not_colon hcolon]
      cases parseV4 (trim value) with
      | none => rfl
      | some octets => rfl
    rw [parseIp_of_not_colon hcolon, hread, misread_of_not_colon hcolon]
    exact parseIpv4_eq_iff _

/-- A leading zero is taken for a decimal digit, and groups that map an IPv4 address are left as
they stand. -/
theorem parseIp_misreads :
    (parseIp "010.0.0.1".toList = some [10, 0, 0, 1] ∧
      readAddress (trim "010.0.0.1".toList) = none) ∧
    (parseIp "::ffff:cb00:7104".toList =
      some [0, 0, 0, 0, 0, 0, 0, 0, 0, 0, 255, 255, 203, 0, 113, 4] ∧
      readAddress (trim "::ffff:cb00:7104".toList) = some [203, 0, 113, 4]) := by
  decide +kernel

end HeirsOcr.IpAllowlist
