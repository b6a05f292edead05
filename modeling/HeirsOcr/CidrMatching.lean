import Mathlib.Data.List.TakeWhile
import HeirsOcr.AllowlistAddress

/-!
# Ranges of addresses

What an entry of the allowlist stands for: an address, or an address and how many of its first
bits count. An entry matches the addresses of its family that agree on those bits. An entry that
stands for nothing matches nothing, unless it only begins like a range.
-/
namespace HeirsOcr.IpAllowlist
open JsText AddressText

/-- The addresses a text stands for: those of the network's family that have its first bits. The
length of a prefix is a number of up to three digits. -/
inductive Range : List Char → List ℕ → ℕ → Prop where
  | address {t : List Char} {network : List ℕ} : parseIp t = some network →
      Range t network (network.length * 8)
  | cidr {a bits : List Char} {network : List ℕ} : parseIp a = some network → Trimmed a →
      isShortNumber bits → decValue bits ≤ network.length * 8 →
      Range (a ++ '/' :: bits) network (decValue bits)

/-- An address and the length of a prefix with a space before the slash, or with a second slash
and any text behind. -/
inductive Loose : List Char → Prop where
  | space {a bits : List Char} {network : List ℕ} : parseIp a = some network → ¬Trimmed a →
      isShortNumber bits → decValue bits ≤ network.length * 8 → Loose (a ++ '/' :: bits)
  | more {a bits rest : List Char} {network : List ℕ} : parseIp a = some network →
      isShortNumber bits → decValue bits ≤ network.length * 8 →
      Loose (a ++ '/' :: (bits ++ '/' :: rest))

/-- The address is one of the network's family and has its first bits. -/
def Agree (ip : List Char) (network : List ℕ) (bits : ℕ) : Prop :=
  ∃ address, parseIp ip = some address ∧ address.length = network.length ∧
    ∀ i < bits, bitOf address i = bitOf network i

/-- What an entry is to do: a range matches the addresses in it, and anything else matches no
address and is refused when it is saved. -/
def MatchesItsRange (entry : String) : Prop :=
  (∀ network bits, Range (trim entry.toList) network bits → ∀ ip,
    matchesEntry ip entry.toList = true ↔ Agree ip network bits) ∧
  ((¬∃ network bits, Range (trim entry.toList) network bits) →
    (∀ ip, matchesEntry ip entry.toList = false) ∧ ipAllowlistEntry entry = false)

theorem groupBytes_lt {gs : List ℕ} (h : ∀ g ∈ gs, g < 65536) : ∀ b ∈ groupBytes gs, b < 256 := by
  intro b hb
  obtain ⟨g, hg, hbyte⟩ := List.mem_flatMap.mp hb
  have hlt := h g hg
  rcases List.mem_pair.mp hbyte with rfl | rfl
  · omega
  · omega

theorem hexValue_map_lt {fs : List (List Char)} (h : fs.all isGroup = true) :
    ∀ g ∈ fs.map hexValue, g < 65536 := by
  intro g hg
  obtain ⟨f, hf, rfl⟩ := List.mem_map.mp hg
  exact group_lt (List.all_eq_true.mp h f hf)

/-- A slash in no address, and four or sixteen bytes to each. -/
structure IsAddress (t : List Char) (bytes : List ℕ) : Prop where
  not_slash : '/' ∉ t
  length : bytes.length = 4 ∨ bytes.length = 16
  byte_lt : ∀ b ∈ bytes, b < 256

theorem isAddress_of_parseIpv4 {t : List Char} {bytes : List ℕ} (h : parseIpv4 t = some bytes) :
    IsAddress t bytes := by
  obtain ⟨hlen, hnumbers, rfl⟩ := parseIpv4_eq_some_iff.mp h
  refine ⟨fun hslash => ?_, .inl (by simpa using hlen), fun b hb => ?_⟩
  · obtain ⟨o, ho, hmem⟩ := mem_splitOn_of_mem hslash (by decide : '/' ≠ '.')
    have hshort := (hnumbers o ho).1
    simp only [isShortNumber, Bool.and_eq_true, List.all_eq_true] at hshort
    exact absurd (hshort.2 '/' hmem) (by decide)
  · obtain ⟨o, ho, rfl⟩ := List.mem_map.mp hb
    have hle := (hnumbers o ho).2
    omega

theorem Tail.not_slash {t quad : List Char} (h : Tail t quad) (hslash : '/' ∉ quad) :
    '/' ∉ t := by
  cases h with
  | compatible quad => simpa using hslash
  | mapped quad ha hb hc hd =>
    have hne : ∀ {x : Char}, isF x → '/' ≠ x := by
      rintro x hx rfl
      exact absurd hx (by decide)
    simpa [hne ha, hne hb, hne hc, hne hd] using hslash

theorem isAddress_of_groups {value : List Char} {bytes : List ℕ} (hcolon : ':' ∈ trim value)
    (hdot : '.' ∉ trim value) (h : parseIp value = some bytes) : IsAddress (trim value) bytes := by
  cases hsplit : AddressText.splitCompressed (trim value) with
  | none =>
    rw [parseIp_of_colon hcolon (mapped_of_not_dot hdot), splitCompressed_eq, hsplit] at h
    unfold readHalves at h
    obtain ⟨hgroups, hlen⟩ := Option.filter_eq_some_iff.mp h
    rw [toGroups_eq] at hgroups
    obtain ⟨hall, hbytes⟩ := Option.ite_none_right_eq_some.mp hgroups
    obtain rfl := Option.some.inj hbytes
    refine ⟨?_, .inr (by simpa using hlen), groupBytes_lt (hexValue_map_lt hall)⟩
    rw [← join_fieldsOf (trim value)]
    exact not_mem_join_of_groups (List.all_eq_true.mp hall) (by decide) (by decide)
  | some p =>
    obtain ⟨l, r⟩ := p
    rw [parseIp_of_halves hsplit hdot] at h
    obtain ⟨⟨hall, hlen⟩, hbytes⟩ := Option.ite_none_right_eq_some.mp h
    obtain rfl := Option.some.inj hbytes
    obtain ⟨hleft, hright⟩ := Bool.and_eq_true_iff.mp hall
    refine ⟨?_, .inr ?_, groupBytes_lt fun g hg => ?_⟩
    · rw [splitCompressed_eq_some hsplit, ← join_fieldsOf l, ← join_fieldsOf r]
      exact not_mem_halves_of_groups (List.all_eq_true.mp hleft) (List.all_eq_true.mp hright)
        (by decide) (by decide)
    · simp only [length_groupBytes, List.length_append, List.length_map, List.length_replicate]
      omega
    · simp only [List.mem_append, List.mem_replicate] at hg
      rcases hg with (hg | ⟨-, rfl⟩) | hg
      · exact hexValue_map_lt hleft g hg
      · decide
      · exact hexValue_map_lt hright g hg

theorem isAddress_of_parseIp {value : List Char} {bytes : List ℕ}
    (h : parseIp value = some bytes) : IsAddress (trim value) bytes := by
  by_cases hcolon : ':' ∈ trim value
  · cases hmapped : mapped (trim value) with
    | some quad =>
      rw [parseIp_of_mapped hcolon hmapped] at h
      have hquad := isAddress_of_parseIpv4 h
      exact ⟨(mapped_eq_some_iff.mp hmapped).1.not_slash hquad.not_slash, hquad.length,
        hquad.byte_lt⟩
    | none =>
      by_cases hdot : '.' ∈ trim value
      · rw [parseIp_of_dot hcolon hdot hmapped] at h
        cases h
      · exact isAddress_of_groups hcolon hdot h
  · rw [parseIp_of_not_colon hcolon] at h
    exact isAddress_of_parseIpv4 h

theorem mem_dropWhile_of_mem {cs : List Char} {c : Char} (h : c ∈ cs) (hc : isSpace c = false) :
    c ∈ cs.dropWhile isSpace := by
  rw [← List.takeWhile_append_dropWhile (p := isSpace) (l := cs)] at h
  rcases List.mem_append.mp h with h | h
  · rw [List.mem_takeWhile_imp h] at hc
    cases hc
  · exact h

theorem mem_trim_of_mem {cs : List Char} {c : Char} (h : c ∈ cs) (hc : isSpace c = false) :
    c ∈ trim cs := by
  rw [trim, List.mem_reverse]
  refine mem_dropWhile_of_mem ?_ hc
  rw [List.mem_reverse]
  exact mem_dropWhile_of_mem h hc

theorem not_slash_of_parseIp {value : List Char} {bytes : List ℕ}
    (h : parseIp value = some bytes) : '/' ∉ value := fun hslash =>
  (isAddress_of_parseIp h).not_slash (mem_trim_of_mem hslash (by decide))

theorem not_slash_of_isShortNumber {t : List Char} (h : isShortNumber t = true) : '/' ∉ t := by
  simp only [isShortNumber, Bool.and_eq_true, List.all_eq_true] at h
  exact fun hslash => absurd (h.2 '/' hslash) (by decide)

theorem agree_iff {ip : List Char} {network address : List ℕ} (hip : parseIp ip = some address)
    (hnetwork : ∀ b ∈ network, b < 256) (bits : ℕ) :
    Agree ip network bits ↔
      network.length = address.length ∧ prefixMatches address network bits = true := by
  rw [prefixMatches_iff (isAddress_of_parseIp hip).byte_lt hnetwork]
  constructor
  · rintro ⟨address', hip', hlen, hbits⟩
    obtain rfl := Option.some.inj (hip.symm.trans hip')
    exact ⟨hlen.symm, hbits⟩
  · rintro ⟨hlen, hbits⟩
    exact ⟨address, hip, hlen.symm, hbits⟩

theorem not_agree_of_none {ip : List Char} (hip : parseIp ip = none) (network : List ℕ)
    (bits : ℕ) : ¬Agree ip network bits := by
  rintro ⟨address, hip', -⟩
  rw [hip] at hip'
  cases hip'

/-- An address is a range of its own, all bits of it. -/
theorem matchesEntry_of_not_slash {ip entry : List Char} (hslash : '/' ∉ trim entry) :
    matchesEntry ip entry = true ↔
      ∃ network, parseIp (trim entry) = some network ∧ Agree ip network (network.length * 8) := by
  rw [matchesEntry, List.splitOn_eq_singleton hslash]
  cases hip : parseIp ip with
  | none => simp [not_agree_of_none hip]
  | some address =>
    cases hnetwork : parseIp (trim entry) with
    | none => simp [hnetwork]
    | some network =>
      have hagree := agree_iff hip (isAddress_of_parseIp hnetwork).byte_lt (network.length * 8)
      simp only [List.headD_cons, hnetwork, Option.some.injEq, exists_eq_left', hagree]
      by_cases hlen : network.length = address.length
      · simp [hlen]
      · simp [hlen]

/-- Of an entry with slashes the first two parts count. -/
theorem matchesEntry_of_slash {ip entry a rest : List Char}
    (hentry : trim entry = a ++ '/' :: rest) (hslash : '/' ∉ a) :
    matchesEntry ip entry = true ↔
      ∃ network, parseIp a = some network ∧ isShortNumber ((rest.splitOn '/').headD []) ∧
        decValue ((rest.splitOn '/').headD []) ≤ network.length * 8 ∧
        Agree ip network (decValue ((rest.splitOn '/').headD [])) := by
  obtain ⟨bits, parts, hparts⟩ := List.exists_cons_of_ne_nil (List.splitOn_ne_nil '/' rest)
  rw [matchesEntry, hentry, List.splitOn_append_cons_self_of_not_mem hslash, hparts]
  simp only [List.headD_cons, List.getElem?_cons_succ, List.getElem?_cons_zero]
  cases hip : parseIp ip with
  | none => simp [not_agree_of_none hip]
  | some address =>
    cases hnetwork : parseIp a with
    | none => simp
    | some network =>
      have hagree := agree_iff hip (isAddress_of_parseIp hnetwork).byte_lt (decValue bits)
      simp only [Option.some.injEq, exists_eq_left', hagree]
      by_cases hlen : network.length = address.length
      · simp [hlen, and_assoc]
      · simp [hlen]

theorem matchesEntry_of_range {entry : List Char} {network : List ℕ} {bits : ℕ}
    (h : Range (trim entry) network bits) (ip : List Char) :
    matchesEntry ip entry = true ↔ Agree ip network bits := by
  generalize ht : trim entry = t at h
  cases h with
  | address hnetwork =>
    subst ht
    rw [matchesEntry_of_not_slash (not_slash_of_parseIp hnetwork), hnetwork]
    simp
  | @cidr a number network hnetwork htrimmed hshort hle =>
    have hnumber : (number.splitOn '/').headD [] = number := by
      rw [List.splitOn_eq_singleton (not_slash_of_isShortNumber hshort)]
      rfl
    rw [matchesEntry_of_slash ht (not_slash_of_parseIp hnetwork), hnetwork, hnumber]
    simp [hshort, hle]

/-- What matches at all is a range or begins like one. -/
theorem range_or_loose {ip entry : List Char} (h : matchesEntry ip entry = true) :
    (∃ network bits, Range (trim entry) network bits) ∨ Loose (trim entry) := by
  by_cases hslash : '/' ∈ trim entry
  · obtain ⟨a, rest, hentry, ha⟩ := List.eq_append_cons_of_mem hslash
    obtain ⟨network, hnetwork, hshort, hle, -⟩ := (matchesEntry_of_slash hentry ha).mp h
    rw [hentry]
    by_cases hmore : '/' ∈ rest
    · obtain ⟨bits, rest', rfl, hbits⟩ := List.eq_append_cons_of_mem hmore
      rw [List.splitOn_append_cons_self_of_not_mem hbits] at hshort hle
      exact .inr (.more hnetwork hshort hle)
    · rw [List.splitOn_eq_singleton hmore] at hshort hle
      by_cases htrimmed : Trimmed a
      · exact .inl ⟨network, _, .cidr hnetwork htrimmed hshort hle⟩
      · exact .inr (.space hnetwork htrimmed hshort hle)
  · obtain ⟨network, hnetwork, -⟩ := (matchesEntry_of_not_slash hslash).mp h
    exact .inl ⟨network, _, .address hnetwork⟩

/-- A text that only begins like a range is none. -/
theorem not_range_of_loose {t : List Char} (h : Loose t) :
    ¬∃ network bits, Range t network bits := by
  rintro ⟨network, n, hrange⟩
  have hcut : ∀ {a rest : List Char} {bytes : List ℕ}, parseIp a = some bytes →
      t = a ++ '/' :: rest → Trimmed a ∧ isShortNumber rest := by
    intro a rest bytes ha ht
    generalize hs : t = s at hrange
    cases hrange with
    | address hnetwork =>
      refine absurd ?_ (not_slash_of_parseIp hnetwork)
      rw [← hs, ht]
      simp
    | cidr hnetwork htrimmed hshort =>
      obtain ⟨rfl, rfl⟩ := eq_of_append_cons (not_slash_of_parseIp ha)
        (not_slash_of_parseIp hnetwork) (ht.symm.trans hs)
      exact ⟨htrimmed, hshort⟩
  cases h with
  | space ha htrimmed => exact htrimmed (hcut ha rfl).1
  | more ha =>
    have hshort := (hcut ha rfl).2
    exact not_slash_of_isShortNumber hshort (by simp)

/-- The network an entry begins with is in it, whatever comes behind. -/
theorem exists_match_of_loose {entry : List Char} (h : Loose (trim entry)) :
    ∃ ip, matchesEntry ip entry = true := by
  have hself : ∀ {a : List Char} {network : List ℕ}, parseIp a = some network → ∀ bits,
      Agree a network bits := fun ha bits => ⟨_, ha, rfl, fun _ _ => rfl⟩
  generalize ht : trim entry = t at h
  cases h with
  | @space a bits network ha _ hshort hle =>
    refine ⟨a, (matchesEntry_of_slash ht (not_slash_of_parseIp ha)).mpr ⟨network, ha, ?_⟩⟩
    rw [List.splitOn_eq_singleton (not_slash_of_isShortNumber hshort)]
    exact ⟨hshort, hle, hself ha _⟩
  | @more a bits rest network ha hshort hle =>
    refine ⟨a, (matchesEntry_of_slash ht (not_slash_of_parseIp ha)).mpr ⟨network, ha, ?_⟩⟩
    rw [List.splitOn_append_cons_self_of_not_mem (not_slash_of_isShortNumber hshort)]
    exact ⟨hshort, hle, hself ha _⟩

theorem ipAllowlistEntry_of_none {entry : String} (h : ∀ ip, matchesEntry ip entry.toList = false) :
    ipAllowlistEntry entry = false := by
  rw [ipAllowlistEntry, h, Bool.and_false]

/-- An entry does what its range says unless it only begins like one. -/
theorem matchesItsRange_iff (entry : String) :
    MatchesItsRange entry ↔ ¬Loose (trim entry.toList) := by
  constructor
  · rintro ⟨-, hother⟩ hloose
    obtain ⟨ip, hmatch⟩ := exists_match_of_loose hloose
    rw [(hother (not_range_of_loose hloose)).1 ip] at hmatch
    cases hmatch
  · intro hloose
    refine ⟨fun network bits h ip => matchesEntry_of_range h ip, fun hrange => ?_⟩
    have hnone : ∀ ip, matchesEntry ip entry.toList = false := by
      intro ip
      rw [← Bool.not_eq_true]
      intro hmatch
      rcases range_or_loose hmatch with h | h
      · exact hrange h
      · exact hloose h
    exact ⟨hnone, ipAllowlistEntry_of_none hnone⟩

/-- A second slash is not looked at: what is no range matches the addresses of the one it begins
like, and is saved. -/
theorem second_slash_matches :
    (¬∃ network bits, Range (trim "10.0.0.0/8/24".toList) network bits) ∧
      matchesEntry "10.1.2.3".toList "10.0.0.0/8/24".toList = true ∧
      ipAllowlistEntry "10.0.0.0/8/24" = true := by
  have hnetwork : parseIp "10.0.0.0".toList = some [10, 0, 0, 0] := by decide +kernel
  have hloose : Loose ("10.0.0.0".toList ++ '/' :: ("8".toList ++ '/' :: "24".toList)) :=
    .more hnetwork (by decide) (by decide)
  have htrim : trim "10.0.0.0/8/24".toList =
      "10.0.0.0".toList ++ '/' :: ("8".toList ++ '/' :: "24".toList) := by decide +kernel
  rw [htrim]
  exact ⟨not_range_of_loose hloose, by decide +kernel, by decide +kernel⟩

end HeirsOcr.IpAllowlist
