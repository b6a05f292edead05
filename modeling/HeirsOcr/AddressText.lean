import HeirsOcr.JsText

/-!
# Addresses as text

The standard text forms of IPv4 and IPv6 addresses, over lists of characters. An IPv4
address is four decimal octets without leading zeros. An IPv6 address is eight groups of
one to four hexadecimal digits, where a double colon may stand for one or more groups of
zeros and an IPv4 address for the last two groups. `Spells` is that grammar with the value
of every text; `parseV6` reads it.
-/
namespace HeirsOcr.AddressText
open JsText

def hexChars : List Char :=
  ['0', '1', '2', '3', '4', '5', '6', '7', '8', '9', 'a', 'b', 'c', 'd', 'e', 'f',
    'A', 'B', 'C', 'D', 'E', 'F']

def isHexDigit (c : Char) : Bool := hexChars.contains c

def hexDigit (c : Char) : ℕ :=
  let i := hexChars.idxOf c
  if i < 16 then i else i - 6

def hexValue (h : List Char) : ℕ := h.foldl (fun n c => 16 * n + hexDigit c) 0

/-- One to four hexadecimal digits. -/
def isGroup (h : List Char) : Bool := 1 ≤ h.length && h.length ≤ 4 && h.all isHexDigit

def decValue (o : List Char) : ℕ := o.foldl (fun n c => 10 * n + (c.toNat - 0x30)) 0

/-- A decimal number up to 255 without a leading zero. -/
def isOctet (o : List Char) : Bool :=
  1 ≤ o.length && o.length ≤ 3 && o.all isDigit && (o.length = 1 || o.head? ≠ some '0') &&
    decValue o ≤ 255

def parseV4 (t : List Char) : Option (List ℕ) :=
  let octets := t.splitOn '.'
  if octets.length = 4 ∧ octets.all isOctet then some (octets.map decValue) else none

/-- The two groups an IPv4 address stands for. -/
def quadGroups : List ℕ → List ℕ
  | [a, b, c, d] => [256 * a + b, 256 * c + d]
  | _ => []

/-- A fact about the characters of a table, checked one by one. -/
theorem forall_mem_of_all {P : Char → Prop} [DecidablePred P] {l : List Char}
    (h : l.all fun c => decide (P c)) : ∀ c ∈ l, P c :=
  fun c hc => of_decide_eq_true (List.all_eq_true.mp h c hc)

theorem forall_hexDigit {P : Char → Prop} (h : ∀ c ∈ hexChars, P c) (c : Char)
    (hc : isHexDigit c) : P c :=
  h c (List.contains_iff_mem.mp hc)

theorem isGroup_iff {h : List Char} :
    isGroup h ↔ 1 ≤ h.length ∧ h.length ≤ 4 ∧ ∀ c ∈ h, isHexDigit c := by
  simp [isGroup, and_assoc]

theorem hexDigit_lt (c : Char) (hc : isHexDigit c) : hexDigit c < 16 :=
  forall_hexDigit (P := fun c => hexDigit c < 16) (forall_mem_of_all (by decide)) c hc

theorem hexValue_append_singleton (h : List Char) (c : Char) :
    hexValue (h ++ [c]) = 16 * hexValue h + hexDigit c := by
  simp [hexValue]

theorem hexValue_lt {h : List Char} (hh : ∀ c ∈ h, isHexDigit c) : hexValue h < 16 ^ h.length := by
  induction h using List.reverseRecOn with
  | nil => simp [hexValue]
  | append_singleton h c ih =>
    have hinit := ih fun c hc => hh c (List.mem_append_left _ hc)
    have hlast := hexDigit_lt c (hh c (by simp))
    rw [hexValue_append_singleton, List.length_append, List.length_singleton, pow_succ]
    omega

theorem group_lt {h : List Char} (hh : isGroup h) : hexValue h < 65536 := by
  obtain ⟨-, hlen, hhex⟩ := isGroup_iff.mp hh
  have hpow : 16 ^ h.length ≤ 16 ^ 4 := Nat.pow_le_pow_right (by decide) hlen
  have := hexValue_lt hhex
  omega

/-- The small character of a digit. -/
def hexChar (d : ℕ) : Char := hexChars.getD d '0'

/-- The last `n` hexadecimal digits of a number. -/
def hexText : ℕ → ℕ → List Char
  | 0, _ => []
  | n + 1, g => hexText n (g / 16) ++ [hexChar (g % 16)]

theorem length_hexText (n g : ℕ) : (hexText n g).length = n := by
  induction n generalizing g with
  | zero => rfl
  | succ n ih => simp [hexText, ih]

theorem hexDigit_hexChar : ∀ d < 16, isHexDigit (hexChar d) ∧ hexDigit (hexChar d) = d := by
  decide

theorem isHexDigit_hexText (n g : ℕ) : ∀ c ∈ hexText n g, isHexDigit c := by
  induction n generalizing g with
  | zero => simp [hexText]
  | succ n ih =>
    intro c hc
    rcases List.mem_append.mp hc with hc | hc
    · exact ih _ c hc
    · obtain rfl := List.mem_singleton.mp hc
      exact (hexDigit_hexChar _ (Nat.mod_lt _ (by decide))).1

theorem hexValue_hexText (n g : ℕ) : hexValue (hexText n g) = g % 16 ^ n := by
  induction n generalizing g with
  | zero => simp [hexText, hexValue, Nat.mod_one]
  | succ n ih =>
    have hdigit := (hexDigit_hexChar _ (Nat.mod_lt g (by decide : 0 < 16))).2
    have hsplit : g % 16 ^ (n + 1) = 16 * (g / 16 % 16 ^ n) + g % 16 := by
      rw [pow_succ, mul_comm, Nat.mod_mul, add_comm]
    rw [hexText, hexValue_append_singleton, ih, hdigit, hsplit]

theorem hexValue_hexText_of_lt {n g : ℕ} (h : g < 16 ^ n) : hexValue (hexText n g) = g := by
  rw [hexValue_hexText, Nat.mod_eq_of_lt h]

theorem isGroup_hexText {n : ℕ} (g : ℕ) (h1 : 1 ≤ n) (h4 : n ≤ 4) : isGroup (hexText n g) :=
  isGroup_iff.mpr ⟨by rwa [length_hexText], by rwa [length_hexText], isHexDigit_hexText n g⟩

/-- Every number up to 255 is an octet's. -/
theorem exists_octet : ∀ n < 256, isOctet (Nat.toDigits 10 n) ∧
    decValue (Nat.toDigits 10 n) = n := by
  decide +kernel

theorem parseV4_eq_some_iff {t : List Char} {octets : List ℕ} :
    parseV4 t = some octets ↔ (t.splitOn '.').length = 4 ∧
      (∀ o ∈ t.splitOn '.', isOctet o) ∧ (t.splitOn '.').map decValue = octets := by
  simp [parseV4, and_assoc]

/-- A text whose octets are the four given ones. -/
theorem parseV4_intercalate {octets : List (List Char)} (hlen : octets.length = 4)
    (hoctets : ∀ o ∈ octets, isOctet o) :
    parseV4 (['.'].intercalate octets) = some (octets.map decValue) := by
  have hdot : ∀ o ∈ octets, '.' ∉ o := by
    intro o ho hmem
    have h := hoctets o ho
    simp only [isOctet, Bool.and_eq_true, List.all_eq_true] at h
    exact absurd (h.1.1.2 '.' hmem) (by decide)
  have hsplit : (['.'].intercalate octets).splitOn '.' = octets :=
    List.splitOn_intercalate '.' hdot (by intro hnil; simp [hnil] at hlen)
  rw [parseV4_eq_some_iff, hsplit]
  exact ⟨hlen, hoctets, rfl⟩

/-- Octets spell the number they name and nothing but digits. -/
theorem octet_spec {o : List Char} (h : isOctet o) :
    o ≠ [] ∧ (∀ c ∈ o, isDigit c) ∧ decValue o ≤ 255 := by
  simp only [isOctet, Bool.and_eq_true, List.all_eq_true, decide_eq_true_eq] at h
  obtain ⟨⟨⟨⟨hlen, -⟩, hdigits⟩, -⟩, hvalue⟩ := h
  refine ⟨?_, hdigits, hvalue⟩
  rintro rfl
  simp at hlen

theorem mem_splitOn_of_mem {t : List Char} {a c : Char} (hc : c ∈ t) (hne : c ≠ a) :
    ∃ f ∈ t.splitOn a, c ∈ f := by
  induction t with
  | nil => simp at hc
  | cons x t ih =>
    rw [List.splitOn_cons_eq_if_modifyHead]
    obtain ⟨f, fs, hfs⟩ := List.exists_cons_of_ne_nil (List.splitOn_ne_nil a t)
    rw [hfs] at ih ⊢
    rcases List.mem_cons.mp hc with rfl | hc
    · refine ⟨c :: f, ?_, List.mem_cons_self⟩
      simp [hne]
    · obtain ⟨g, hg, hcg⟩ := ih hc
      by_cases hx : x = a
      · exact ⟨g, by simp [hx, List.mem_cons.mp hg], hcg⟩
      · rcases List.mem_cons.mp hg with rfl | hg
        · exact ⟨x :: g, by simp [hx], List.mem_cons_of_mem x hcg⟩
        · exact ⟨g, by simp [hx, hg], hcg⟩

/-- The first of a mark cuts a text in one way. -/
theorem eq_of_append_cons {a b r q : List Char} {c : Char} (ha : c ∉ a) (hb : c ∉ b)
    (h : a ++ c :: r = b ++ c :: q) : a = b ∧ r = q := by
  have hsplit := congrArg (List.splitOn c) h
  rw [List.splitOn_append_cons_self_of_not_mem ha,
    List.splitOn_append_cons_self_of_not_mem hb] at hsplit
  obtain ⟨hfirst, hrest⟩ := List.cons.inj hsplit
  have hjoin := congrArg (List.intercalate [c]) hrest
  rw [List.intercalate_splitOn, List.intercalate_splitOn] at hjoin
  exact ⟨hfirst, hjoin⟩

/-- An IPv4 address holds digits and dots, a dot among them. -/
theorem parseV4_chars {t : List Char} {octets : List ℕ} (h : parseV4 t = some octets) :
    (∀ c ∈ t, isDigit c ∨ c = '.') ∧ '.' ∈ t := by
  obtain ⟨hlen, hoctets, -⟩ := parseV4_eq_some_iff.mp h
  constructor
  · intro c hc
    by_cases hdot : c = '.'
    · exact Or.inr hdot
    · obtain ⟨o, ho, hco⟩ := mem_splitOn_of_mem hc hdot
      exact Or.inl ((octet_spec (hoctets o ho)).2.1 c hco)
  · by_contra hdot
    rw [List.splitOn_eq_singleton hdot] at hlen
    simp at hlen

/-- An IPv4 address has four octets up to 255. -/
theorem parseV4_octets {t : List Char} {octets : List ℕ} (h : parseV4 t = some octets) :
    octets.length = 4 ∧ ∀ n ∈ octets, n ≤ 255 := by
  obtain ⟨hlen, hoctets, rfl⟩ := parseV4_eq_some_iff.mp h
  refine ⟨by simpa using hlen, fun n hn => ?_⟩
  obtain ⟨o, ho, rfl⟩ := List.mem_map.mp hn
  exact (octet_spec (hoctets o ho)).2.2

theorem exists_parseV4 {a b c d : ℕ} (ha : a < 256) (hb : b < 256) (hc : c < 256)
    (hd : d < 256) : ∃ t, parseV4 t = some [a, b, c, d] := by
  have hoctets : ∀ o ∈ [a, b, c, d].map (Nat.toDigits 10), isOctet o := by
    intro o ho
    obtain ⟨n, hn, rfl⟩ := List.mem_map.mp ho
    simp only [List.mem_cons, List.not_mem_nil, or_false] at hn
    have hlt : n < 256 := by omega
    exact (exists_octet n hlt).1
  refine ⟨_, (parseV4_intercalate rfl hoctets).trans ?_⟩
  simp only [List.map_cons, List.map_nil, (exists_octet _ ha).2, (exists_octet _ hb).2,
    (exists_octet _ hc).2, (exists_octet _ hd).2]

theorem quadGroups_spec {octets : List ℕ} (hlen : octets.length = 4)
    (hle : ∀ n ∈ octets, n ≤ 255) :
    (quadGroups octets).length = 2 ∧ ∀ g ∈ quadGroups octets, g < 65536 := by
  match octets, hlen with
  | [a, b, c, d], _ =>
    simp only [List.mem_cons, List.not_mem_nil, or_false, forall_eq_or_imp, forall_eq] at hle
    obtain ⟨ha, hb, hc, hd⟩ := hle
    refine ⟨rfl, ?_⟩
    simp only [quadGroups, List.mem_cons, List.not_mem_nil, or_false, forall_eq_or_imp, forall_eq]
    omega

/-- Groups, the last of them perhaps an IPv4 address, and the numbers they stand for. -/
inductive Groups : List (List Char) → List ℕ → Prop where
  | nil : Groups [] []
  | quad {f : List Char} {octets : List ℕ} : parseV4 f = some octets →
      Groups [f] (quadGroups octets)
  | cons {f : List Char} {fs : List (List Char)} {gs : List ℕ} : isGroup f → Groups fs gs →
      Groups (f :: fs) (hexValue f :: gs)

def join (fs : List (List Char)) : List Char := [':'].intercalate fs

/-- The text forms of an IPv6 address with the eight groups each stands for. -/
inductive Spells : List Char → List ℕ → Prop where
  | full {fs : List (List Char)} {gs : List ℕ} : Groups fs gs → gs.length = 8 →
      Spells (join fs) gs
  | compressed {left fs : List (List Char)} {gs : List ℕ} : (∀ f ∈ left, isGroup f) →
      Groups fs gs → left.length + gs.length ≤ 7 →
      Spells (join left ++ ':' :: ':' :: join fs)
        (left.map hexValue ++ List.replicate (8 - (left.length + gs.length)) 0 ++ gs)

/-- The texts between colons; the empty text has none. -/
def fieldsOf (t : List Char) : List (List Char) := if t = [] then [] else t.splitOn ':'

/-- What stands before and after the first double colon. -/
def splitCompressed : List Char → Option (List Char × List Char)
  | c :: d :: cs =>
    if c = ':' ∧ d = ':' then some ([], cs)
    else (splitCompressed (d :: cs)).map fun p => (c :: p.1, p.2)
  | _ => none

def readGroups : List (List Char) → Option (List ℕ)
  | [] => some []
  | f :: fs =>
    if isGroup f then (readGroups fs).map (hexValue f :: ·)
    else if fs = [] then (parseV4 f).map quadGroups
    else none

def parseV6 (t : List Char) : Option (List ℕ) :=
  match splitCompressed t with
  | none => (readGroups (fieldsOf t)).filter fun gs => gs.length = 8
  | some (l, r) =>
    let left := fieldsOf l
    if left.all isGroup then
      ((readGroups (fieldsOf r)).filter fun gs => left.length + gs.length ≤ 7).map fun gs =>
        left.map hexValue ++ List.replicate (8 - (left.length + gs.length)) 0 ++ gs
    else none

theorem group_ne {f : List Char} (h : isGroup f) : f ≠ [] ∧ ':' ∉ f ∧ '.' ∉ f := by
  obtain ⟨hlen, -, hhex⟩ := isGroup_iff.mp h
  refine ⟨?_, fun hc => ?_, fun hc => ?_⟩
  · rintro rfl
    simp at hlen
  · exact absurd (hhex _ hc) (by decide)
  · exact absurd (hhex _ hc) (by decide)

theorem not_isGroup_of_parseV4 {f : List Char} {octets : List ℕ}
    (h : parseV4 f = some octets) : isGroup f = false := by
  rw [← Bool.not_eq_true]
  exact fun hf => (group_ne hf).2.2 (parseV4_chars h).2

theorem quad_ne {f : List Char} {octets : List ℕ} (h : parseV4 f = some octets) :
    f ≠ [] ∧ ':' ∉ f := by
  obtain ⟨hchars, hdot⟩ := parseV4_chars h
  refine ⟨List.ne_nil_of_mem hdot, fun hcolon => ?_⟩
  rcases hchars _ hcolon with hd | hd
  · exact absurd hd (by decide)
  · exact absurd hd (by decide)

/-- Groups are neither empty nor hold a colon, so a text splits back into them. -/
theorem Groups.field_ne {fs : List (List Char)} {gs : List ℕ} (h : Groups fs gs) :
    ∀ f ∈ fs, f ≠ [] ∧ ':' ∉ f := by
  induction h with
  | nil => simp
  | quad hquad => simpa using quad_ne hquad
  | cons hf _ ih =>
    intro f hmem
    rcases List.mem_cons.mp hmem with rfl | hmem
    · exact ⟨(group_ne hf).1, (group_ne hf).2.1⟩
    · exact ih f hmem

theorem Groups.lt {fs : List (List Char)} {gs : List ℕ} (h : Groups fs gs) :
    ∀ g ∈ gs, g < 65536 := by
  induction h with
  | nil => simp
  | quad hquad => exact (quadGroups_spec (parseV4_octets hquad).1 (parseV4_octets hquad).2).2
  | cons hf _ ih => simpa using ⟨group_lt hf, ih⟩

/-- Any numbers below 65536 in four digits each. -/
theorem groups_hexText {gs : List ℕ} (h : ∀ g ∈ gs, g < 65536) :
    Groups (gs.map (hexText 4)) gs := by
  induction gs with
  | nil => exact .nil
  | cons g gs ih =>
    have hrest := ih fun g hg => h g (List.mem_cons_of_mem _ hg)
    have hgroups := Groups.cons (isGroup_hexText g (by decide) (by decide : 4 ≤ 4)) hrest
    rwa [hexValue_hexText_of_lt (h g List.mem_cons_self)] at hgroups

/-- A list of groups that stands for eight numbers begins with a group. -/
theorem Groups.exists_cons {fs : List (List Char)} {gs : List ℕ} (h : Groups fs gs)
    (hlen : 2 < gs.length) :
    ∃ f f' fs' gs', fs = f :: f' :: fs' ∧ isGroup f ∧ gs = hexValue f :: gs' := by
  cases h with
  | nil => simp at hlen
  | quad hquad =>
    have := (quadGroups_spec (parseV4_octets hquad).1 (parseV4_octets hquad).2).1
    omega
  | @cons f fs gs hf hrest =>
    cases hrest with
    | nil => simp at hlen
    | quad hquad => exact ⟨f, _, [], _, rfl, hf, rfl⟩
    | cons hf' hrest => exact ⟨f, _, _, _, rfl, hf, rfl⟩

theorem readGroups_eq_some_iff {fs : List (List Char)} {gs : List ℕ} :
    readGroups fs = some gs ↔ Groups fs gs := by
  constructor
  · intro h
    induction fs generalizing gs with
    | nil =>
      obtain rfl := Option.some.inj h
      exact .nil
    | cons f fs ih =>
      simp only [readGroups] at h
      split_ifs at h with hf hfs
      · obtain ⟨gs', hgs', rfl⟩ := Option.map_eq_some_iff.mp h
        exact .cons hf (ih hgs')
      · obtain ⟨octets, hquad, rfl⟩ := Option.map_eq_some_iff.mp h
        subst hfs
        exact .quad hquad
  · intro h
    induction h with
    | nil => rfl
    | quad hquad => simp [readGroups, not_isGroup_of_parseV4 hquad, hquad]
    | cons hf _ ih => simp [readGroups, hf, ih]

@[simp] theorem join_nil : join [] = [] := rfl

@[simp] theorem join_singleton (f : List Char) : join [f] = f := by simp [join]

theorem join_cons_cons (f f' : List Char) (fs : List (List Char)) :
    join (f :: f' :: fs) = f ++ ':' :: join (f' :: fs) := by
  simp [join]

theorem mem_join {fs : List (List Char)} {c : Char} (h : c ∈ join fs) :
    c = ':' ∨ ∃ f ∈ fs, c ∈ f := by
  induction fs with
  | nil => simp at h
  | cons f fs ih =>
    cases fs with
    | nil => exact Or.inr ⟨f, by simp, by simpa using h⟩
    | cons f' fs =>
      rw [join_cons_cons] at h
      rcases List.mem_append.mp h with h | h
      · exact Or.inr ⟨f, by simp, h⟩
      · rcases List.mem_cons.mp h with h | h
        · exact Or.inl h
        · rcases ih h with h | ⟨g, hg, hc⟩
          · exact Or.inl h
          · exact Or.inr ⟨g, List.mem_cons_of_mem f hg, hc⟩

theorem mem_join_of_mem {fs : List (List Char)} {f : List Char} (hf : f ∈ fs) {c : Char}
    (hc : c ∈ f) : c ∈ join fs := by
  induction fs with
  | nil => simp at hf
  | cons g fs ih =>
    cases fs with
    | nil => simpa [List.mem_singleton.mp hf] using hc
    | cons g' fs =>
      rw [join_cons_cons]
      rcases List.mem_cons.mp hf with rfl | hf
      · exact List.mem_append_left _ hc
      · exact List.mem_append_right _ (List.mem_cons_of_mem _ (ih hf))

theorem join_fieldsOf (t : List Char) : join (fieldsOf t) = t := by
  by_cases h : t = []
  · simp [fieldsOf, h]
  · simp [fieldsOf, h, join]

theorem fieldsOf_join {fs : List (List Char)} (h : ∀ f ∈ fs, f ≠ [] ∧ ':' ∉ f) :
    fieldsOf (join fs) = fs := by
  match fs with
  | [] => rfl
  | f :: fs =>
    have hne : join (f :: fs) ≠ [] := by
      cases fs with
      | nil => simpa using (h f List.mem_cons_self).1
      | cons f' fs => simp [join_cons_cons]
    rw [fieldsOf, if_neg hne, join,
      List.splitOn_intercalate ':' (fun g hg => (h g hg).2) (List.cons_ne_nil f fs)]

theorem splitCompressed_cons {c : Char} (hc : c ≠ ':') (cs : List Char) :
    splitCompressed (c :: cs) = (splitCompressed cs).map fun p => (c :: p.1, p.2) := by
  cases cs <;> simp [splitCompressed, hc]

theorem splitCompressed_append {f : List Char} (hf : ':' ∉ f) (rest : List Char) :
    splitCompressed (f ++ rest) = (splitCompressed rest).map fun p => (f ++ p.1, p.2) := by
  induction f with
  | nil => simp
  | cons c f ih =>
    have hc : c ≠ ':' := fun h => hf (h ▸ List.mem_cons_self)
    have hrest := ih fun h => hf (List.mem_cons_of_mem c h)
    rw [List.cons_append, splitCompressed_cons hc, hrest, Option.map_map]
    rfl

/-- Joined groups hold no double colon, whatever comes after them. -/
theorem splitCompressed_join {fs : List (List Char)} (h : ∀ f ∈ fs, f ≠ [] ∧ ':' ∉ f)
    (rest : List Char) :
    splitCompressed (join fs ++ rest) =
      (splitCompressed rest).map fun p => (join fs ++ p.1, p.2) := by
  induction fs with
  | nil => simp
  | cons f fs ih =>
    cases fs with
    | nil => simpa using splitCompressed_append (h f List.mem_cons_self).2 rest
    | cons f' fs =>
      have htail := ih fun g hg => h g (List.mem_cons_of_mem f hg)
      have hhead : ∃ c cs, c ≠ ':' ∧ join (f' :: fs) ++ rest = c :: cs := by
        obtain ⟨hne, hcolon⟩ := h f' (by simp)
        obtain ⟨c, cs, rfl⟩ := List.exists_cons_of_ne_nil hne
        refine ⟨c, ?_⟩
        have hc : c ≠ ':' := fun hc => hcolon (hc ▸ List.mem_cons_self)
        cases fs with
        | nil => exact ⟨cs ++ rest, hc, by simp⟩
        | cons f'' fs =>
          exact ⟨cs ++ ':' :: join (f'' :: fs) ++ rest, hc, by simp [join_cons_cons]⟩
      obtain ⟨c, cs, hc, hcs⟩ := hhead
      have hcolon : splitCompressed (':' :: (join (f' :: fs) ++ rest)) =
          (splitCompressed (join (f' :: fs) ++ rest)).map fun p => (':' :: p.1, p.2) := by
        rw [hcs]
        simp [splitCompressed, hc]
      rw [join_cons_cons, List.append_assoc, List.cons_append,
        splitCompressed_append (h f List.mem_cons_self).2, hcolon, htail, Option.map_map,
        Option.map_map]
      simp [Function.comp_def]

theorem splitCompressed_eq_some {t l r : List Char} (h : splitCompressed t = some (l, r)) :
    t = l ++ ':' :: ':' :: r := by
  induction t generalizing l with
  | nil => simp [splitCompressed] at h
  | cons c t ih =>
    cases t with
    | nil => simp [splitCompressed] at h
    | cons d t =>
      simp only [splitCompressed] at h
      split_ifs at h with hcd
      · obtain ⟨rfl, rfl⟩ := hcd
        obtain ⟨rfl, rfl⟩ := Prod.mk.inj (Option.some.inj h)
        rfl
      · obtain ⟨⟨l', r'⟩, hp, hlr⟩ := Option.map_eq_some_iff.mp h
        obtain ⟨rfl, rfl⟩ := Prod.mk.inj hlr
        rw [ih hp, List.cons_append]

/-- The parser reads exactly the text forms, each with its one value. -/
theorem parseV6_eq_some_iff {t : List Char} {gs : List ℕ} :
    parseV6 t = some gs ↔ Spells t gs := by
  constructor
  · intro h
    simp only [parseV6] at h
    split at h
    · obtain ⟨hread, hlen⟩ := Option.filter_eq_some_iff.mp h
      have hspells := Spells.full (readGroups_eq_some_iff.mp hread) (by simpa using hlen)
      rwa [join_fieldsOf] at hspells
    · rename_i l r hsplit
      split_ifs at h with hleft
      obtain ⟨gs', hgs', rfl⟩ := Option.map_eq_some_iff.mp h
      obtain ⟨hread, hlen⟩ := Option.filter_eq_some_iff.mp hgs'
      have hspells := Spells.compressed (List.all_eq_true.mp hleft)
        (readGroups_eq_some_iff.mp hread) (by simpa using hlen)
      rwa [join_fieldsOf, join_fieldsOf, ← splitCompressed_eq_some hsplit] at hspells
  · intro h
    cases h with
    | full hgroups hlen =>
      have hsplit := splitCompressed_join hgroups.field_ne []
      rw [List.append_nil] at hsplit
      simp only [parseV6, hsplit, splitCompressed, Option.map_none, fieldsOf_join hgroups.field_ne,
        readGroups_eq_some_iff.mpr hgroups]
      simp [hlen]
    | @compressed left fs gs hleft hgroups hlen =>
      have hne : ∀ f ∈ left, f ≠ [] ∧ ':' ∉ f := fun f hf =>
        ⟨(group_ne (hleft f hf)).1, (group_ne (hleft f hf)).2.1⟩
      have hsplit : splitCompressed (join left ++ ':' :: ':' :: join fs) =
          some (join left, join fs) := by
        rw [splitCompressed_join hne]
        simp [splitCompressed]
      have hall : left.all isGroup = true := List.all_eq_true.mpr hleft
      simp only [parseV6, hsplit, fieldsOf_join hne, fieldsOf_join hgroups.field_ne, hall, if_true,
        readGroups_eq_some_iff.mpr hgroups]
      simp [hlen]

/-- An IPv6 address: 128 bits as eight groups of sixteen, the highest first. -/
@[ext]
structure V6 where
  groups : List ℕ
  length_eq : groups.length = 8
  group_lt : ∀ g ∈ groups, g < 65536

/-- Every text form stands for an address. -/
theorem exists_v6_of_parseV6 {t : List Char} {gs : List ℕ} (h : parseV6 t = some gs) :
    ∃ v : V6, v.groups = gs := by
  refine ⟨⟨gs, ?_, ?_⟩, rfl⟩
  · cases parseV6_eq_some_iff.mp h with
    | full hgroups hlen => exact hlen
    | compressed hleft hgroups hlen => simp; omega
  · cases parseV6_eq_some_iff.mp h with
    | full hgroups hlen => exact hgroups.lt
    | compressed hleft hgroups hlen =>
      intro g hg
      simp only [List.mem_append, List.mem_map, List.mem_replicate] at hg
      rcases hg with (⟨f, hf, rfl⟩ | ⟨-, rfl⟩) | hg
      · exact group_lt (hleft f hf)
      · decide
      · exact hgroups.lt g hg

/-- The text is a form of the address. -/
def Denotes (t : List Char) (v : V6) : Prop := parseV6 t = some v.groups

instance (t : List Char) (v : V6) : Decidable (Denotes t v) :=
  inferInstanceAs (Decidable (parseV6 t = some v.groups))

/-- The number of 128 bits an address is. -/
def V6.toNat (v : V6) : ℕ := Nat.ofDigits 65536 v.groups.reverse

theorem V6.toNat_lt (v : V6) : v.toNat < 2 ^ 128 := by
  have h : Nat.ofDigits 65536 v.groups.reverse < 65536 ^ v.groups.reverse.length :=
    Nat.ofDigits_lt_base_pow_length (by decide) fun g hg => v.group_lt g (List.mem_reverse.mp hg)
  rw [List.length_reverse, v.length_eq] at h
  exact h

/-- Which version of address a text is, 0 for neither. -/
def isIP (t : List Char) : ℕ :=
  if (parseV4 t).isSome then 4 else if (parseV6 t).isSome then 6 else 0

/-- An IPv6 text holds a colon, so it is no IPv4 address. -/
theorem isIP_of_parseV6 {t : List Char} {gs : List ℕ} (h : parseV6 t = some gs) : isIP t = 6 := by
  have hcolon : ':' ∈ t := by
    cases parseV6_eq_some_iff.mp h with
    | full hgroups hlen =>
      obtain ⟨f, f', fs, gs, rfl, -, -⟩ := hgroups.exists_cons (by omega)
      simp [join_cons_cons]
    | compressed hleft hgroups hlen => simp
  have hv4 : parseV4 t = none := by
    rw [Option.eq_none_iff_forall_ne_some]
    exact fun octets hv4 => (quad_ne hv4).2 hcolon
  simp [isIP, hv4, h]

theorem isIP_of_parseV4 {t : List Char} {octets : List ℕ} (h : parseV4 t = some octets) :
    isIP t = 4 := by
  simp [isIP, h]

end HeirsOcr.AddressText
