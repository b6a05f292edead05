import HeirsOcr.NumberText
import Mathlib.Data.Bool.AllAny

/-!
# Numbers are read back from their texts

`Number(String(x))` is `x`. Some number of digits always tells a double exactly: with enough of
them its last place is beyond the last place of any double. And each of the four layouts of digits
is a literal with the value of the digits at their place.
-/
namespace HeirsOcr.NumberText
open AddressText DecimalText Doubles JsText

theorem placed_eq (x : ℚ) (s : ℕ) (p : ℤ) :
    placed x s p = (if x < 0 then -(s * 10 ^ p : ℚ) else s * 10 ^ p) := by
  rw [placed]
  split_ifs with h
  · rw [neg_one_mul]
  · rw [one_mul]

theorem abs_lt_of_isDouble {x : ℚ} (h : IsDouble x) : |x| < ((10 : ℕ) : ℚ) ^ (326 : ℤ) := by
  have hbase : (2 : ℚ) ^ 32 < 10 ^ 10 := by norm_num
  calc |x| ≤ (2 ^ 53 - 1) * 2 ^ 971 := h.1
    _ ≤ 2 ^ 53 * 2 ^ 971 :=
        mul_le_mul_of_nonneg_right (sub_le_self _ zero_le_one) (by positivity)
    _ = (2 ^ 32) ^ 32 := by rw [← pow_add, ← pow_mul]
    _ < (10 ^ 10) ^ 32 := pow_lt_pow_left₀ hbase (by positivity) (by norm_num)
    _ = 10 ^ 320 := by rw [← pow_mul]
    _ ≤ 10 ^ 326 := pow_le_pow_right₀ (by norm_num) (by norm_num)
    _ = ((10 : ℕ) : ℚ) ^ (326 : ℤ) := by rw [Nat.cast_ofNat, zpow_ofNat]

/-- Digits up to a place beyond the last of any double are exact. -/
theorem exact_at {x : ℚ} (h : IsDouble x) {p : ℤ} (hp : p ≤ -1074) :
    ∃ s : ℕ, |x| / 10 ^ p = s := by
  obtain ⟨-, m, e, -, he, rfl⟩ := h
  obtain ⟨a, ha⟩ := Int.eq_ofNat_of_zero_le (by omega : 0 ≤ e - p)
  obtain ⟨b, hb⟩ := Int.eq_ofNat_of_zero_le (by omega : 0 ≤ -p)
  refine ⟨m.natAbs * 2 ^ a * 5 ^ b, ?_⟩
  have htwo : (2 : ℚ) ^ e = 2 ^ a * 2 ^ p := by
    rw [← zpow_natCast, ← zpow_add₀ (by norm_num), ← ha]
    congr 1
    omega
  have hten : (10 : ℚ) ^ p * (5 : ℚ) ^ b = 2 ^ p := by
    have hfive : (5 : ℚ) ^ b * 5 ^ p = 1 := by
      rw [← zpow_natCast, ← zpow_add₀ (by norm_num), ← hb, neg_add_cancel, zpow_zero]
    have hsplit : (10 : ℚ) ^ p = 2 ^ p * 5 ^ p := by
      rw [← mul_zpow]
      norm_num
    rw [hsplit, mul_assoc, mul_comm (5 ^ p), hfive, mul_one]
  have hpos : (0 : ℚ) < 10 ^ p := zpow_pos (by norm_num) p
  have habs : (m.natAbs : ℚ) = |(m : ℚ)| := by
    rw [Nat.cast_natAbs, Int.cast_abs]
  rw [abs_mul, abs_of_pos (two_zpow_pos e), div_eq_iff hpos.ne', htwo, ← hten]
  push_cast
  rw [habs]
  ring

theorem candidate_isSome {x : Double} (hx : x.val ≠ 0) : (candidate x MAX_DIGITS).isSome := by
  have hlog : Int.log 10 |x.val| < 326 :=
    (Int.lt_zpow_iff_log_lt (by norm_num) (abs_pos.mpr hx)).mp (abs_lt_of_isDouble x.isDouble)
  have hplace : placeOf x.val MAX_DIGITS ≤ -1074 := by
    rw [placeOf, MAX_DIGITS]
    omega
  obtain ⟨s, hs⟩ := exact_at x.isDouble hplace
  have hfloor : ⌊(s : ℚ)⌋ = s := Int.floor_natCast s
  have hround : roundHalfEven (s : ℚ) = s := by
    rcases roundHalfEven_eq (s : ℚ) with heq | ⟨-, hlt⟩
    · rw [heq, hfloor]
    · rw [hfloor] at hlt
      exact absurd hlt (lt_irrefl _)
  have hmem : s ∈ digitsAbout x.val MAX_DIGITS := by
    simp only [digitsAbout, hs, hfloor, hround, if_true]
    simp
  have hpos : (0 : ℚ) < 10 ^ placeOf x.val MAX_DIGITS := zpow_pos (by norm_num) _
  have hvalue : placed x.val s (placeOf x.val MAX_DIGITS) = x.val := by
    rw [placed_eq, ← hs, div_mul_cancel₀ _ hpos.ne']
    split_ifs with hneg
    · rw [abs_of_neg hneg, neg_neg]
    · exact abs_of_nonneg (not_lt.mp hneg)
  rw [candidate, Option.isSome_map, List.find?_isSome]
  exact ⟨s, hmem, decide_eq_true (by rw [hvalue, toDouble_val])⟩

/-- What a candidate is: digits other than zero that round to the number. -/
theorem candidate_spec {x : Double} (hx : x.val ≠ 0) {k s : ℕ} {p : ℤ}
    (h : candidate x k = some (s, p)) : toDouble (placed x.val s p) = some x ∧ s ≠ 0 := by
  obtain ⟨s₀, hfind, heq⟩ := Option.map_eq_some_iff.mp h
  have hround : toDouble (placed x.val s₀ (placeOf x.val k)) = some x := by
    simpa using List.find?_some hfind
  have hsame : toDouble (placed x.val s p) = some x := by
    split_ifs at heq with hcarry
    · obtain ⟨rfl, rfl⟩ := Prod.mk.inj heq
      rw [hcarry] at hround
      rw [placed, Nat.cast_one, one_mul, zpow_add₀ (by norm_num), zpow_natCast, mul_comm (10 ^ _)]
      rw [placed, Nat.cast_pow, Nat.cast_ofNat] at hround
      exact hround
    · obtain ⟨rfl, rfl⟩ := Prod.mk.inj heq
      exact hround
  refine ⟨hsame, ?_⟩
  rintro rfl
  have hzero : placed x.val 0 p = (Double.ofInt 0 (by norm_num)).val := by
    simp [placed, Double.ofInt]
  rw [hzero, toDouble_val] at hsame
  have hval := congrArg Double.val (Option.some.inj hsame)
  rw [← hval] at hx
  exact hx Int.cast_zero

theorem shortest_spec {x : Double} (hx : x.val ≠ 0) :
    toDouble (placed x.val (shortest x).1 (shortest x).2) = some x ∧ (shortest x).1 ≠ 0 := by
  cases hfind : (List.range MAX_DIGITS).findSome? fun k => candidate x (k + 1) with
  | none =>
    have hlast := List.findSome?_eq_none_iff.mp hfind (MAX_DIGITS - 1)
      (List.mem_range.mpr (by decide))
    have hsome := candidate_isSome hx
    rw [show MAX_DIGITS - 1 + 1 = MAX_DIGITS from rfl] at hlast
    rw [hlast] at hsome
    cases hsome
  | some r =>
    obtain ⟨k, -, hk⟩ := List.exists_of_findSome?_eq_some hfind
    rw [shortest, hfind, Option.getD_some]
    exact candidate_spec hx hk

theorem decValue_append (o t : List Char) :
    decValue (o ++ t) = decValue o * 10 ^ t.length + decValue t := by
  induction t using List.reverseRecOn with
  | nil => simp [decValue]
  | append_singleton t c ih =>
    rw [← List.append_assoc, decValue_append_singleton, ih, decValue_append_singleton,
      List.length_append, List.length_singleton, pow_succ]
    ring

theorem decValue_replicate_zero (k : ℕ) : decValue (List.replicate k '0') = 0 := by
  rw [← decText_zero, decValue_decText (by positivity)]

theorem decValue_toDigits (n : ℕ) : decValue (Nat.toDigits 10 n) = n := by
  have hpow : n < 10 ^ (n + 1) :=
    (Nat.lt_pow_self (by norm_num)).trans (Nat.pow_lt_pow_succ (by norm_num))
  have hpad := padStart_toDigits (by omega : 1 ≤ n + 1) hpow
  have hvalue := decValue_decText hpow
  rw [← hpad, padStart, decValue_append, decValue_replicate_zero] at hvalue
  simpa using hvalue

/-- A row of digits up to something else. -/
theorem takeWhile_digits {digits rest : List Char} (hdigits : ∀ c ∈ digits, isDigit c = true)
    (hrest : ∀ c ∈ rest.head?, isDigit c = false) :
    (digits ++ rest).takeWhile isDigit = digits ∧ (digits ++ rest).dropWhile isDigit = rest := by
  rw [List.takeWhile_append_of_pos hdigits, List.dropWhile_append_of_pos hdigits]
  cases rest with
  | nil => simp
  | cons c rest => simp [hrest c rfl]

theorem splitFraction_of_ne {rest : List Char} (h : ∀ c ∈ rest.head?, c ≠ '.') :
    splitFraction rest = ([], rest) := by
  unfold splitFraction
  split
  · exact absurd rfl (h '.' rfl)
  · rfl

theorem decimalValue_whole {digits rest : List Char} (hdigits : ∀ c ∈ digits, isDigit c = true)
    (hne : digits ≠ []) (hrest : ∀ c ∈ rest.head?, isDigit c = false ∧ c ≠ '.') {e : ℤ}
    (he : exponentValue rest = some e) :
    decimalValue (digits ++ rest) = some ((decValue digits : ℚ) * 10 ^ e) := by
  obtain ⟨htake, hdrop⟩ := takeWhile_digits hdigits fun c hc => (hrest c hc).1
  have hnone := splitFraction_of_ne fun c hc => (hrest c hc).2
  simp [decimalValue, htake, hdrop, hnone, hne, he]

theorem decimalValue_fraction {whole fraction rest : List Char}
    (hwhole : ∀ c ∈ whole, isDigit c = true) (hne : whole ≠ [])
    (hfraction : ∀ c ∈ fraction, isDigit c = true) (hrest : ∀ c ∈ rest.head?, isDigit c = false)
    {e : ℤ} (he : exponentValue rest = some e) :
    decimalValue (whole ++ '.' :: (fraction ++ rest)) =
      some ((decValue (whole ++ fraction) : ℚ) * 10 ^ (e - (fraction.length : ℤ))) := by
  have hpoint : ∀ c ∈ ('.' :: (fraction ++ rest)).head?, isDigit c = false := by
    intro c hc
    obtain rfl := Option.some.inj hc
    decide
  obtain ⟨htake, hdrop⟩ := takeWhile_digits hwhole hpoint
  obtain ⟨htake', hdrop'⟩ := takeWhile_digits hfraction hrest
  simp [decimalValue, htake, hdrop, splitFraction, htake', hdrop', hne, he]

theorem toDigits_ne_nil (n : ℕ) : Nat.toDigits 10 n ≠ [] :=
  List.ne_nil_of_length_pos Nat.length_toDigits_pos

/-- The exponent as it is written. -/
def exponentText (e : ℤ) : List Char :=
  'e' :: (if 0 ≤ e then '+' else '-') :: Nat.toDigits 10 e.natAbs

theorem exponentValue_exponentText (e : ℤ) : exponentValue (exponentText e) = some e := by
  have hwhole : wholeValue (Nat.toDigits 10 e.natAbs) = some e.natAbs := by
    rw [wholeValue, if_pos ⟨toDigits_ne_nil _, List.all_eq_true.mpr (isDigit_toDigits _)⟩,
      decValue_toDigits]
  rw [exponentText]
  split_ifs with h
  · simp only [exponentValue, true_or, if_true, hwhole]
    show some ((e.natAbs : ℕ) : ℤ) = some e
    rw [Int.natAbs_of_nonneg h]
  · simp only [exponentValue, true_or, if_true, hwhole]
    show some (-((e.natAbs : ℕ) : ℤ)) = some e
    rw [Int.ofNat_natAbs_of_nonpos (by omega), neg_neg]

theorem head_exponentText (e : ℤ) :
    ∀ c ∈ (exponentText e).head?, isDigit c = false ∧ c ≠ '.' := by
  intro c hc
  obtain rfl := Option.some.inj hc
  exact ⟨by decide, by decide⟩

/-- Digits with a point behind the first, if there are more. -/
def mantissa : List Char → List Char
  | d :: e :: rest => d :: '.' :: e :: rest
  | few => few

theorem layout_eq (digits : List Char) (n : ℤ) :
    layout digits n =
      if digits.length ≤ n ∧ n ≤ 21 then digits ++ List.replicate (n.toNat - digits.length) '0'
      else if 0 < n ∧ n ≤ 21 then digits.take n.toNat ++ '.' :: digits.drop n.toNat
      else if -6 < n ∧ n ≤ 0 then '0' :: '.' :: (List.replicate n.natAbs '0' ++ digits)
      else mantissa digits ++ exponentText (n - 1) := by
  unfold layout mantissa
  split
  · rfl
  · rfl

/-- The value of digits of which `n` stand before the point. -/
theorem decimalValue_layout {digits : List Char} (hdigits : ∀ c ∈ digits, isDigit c = true)
    (hne : digits ≠ []) (n : ℤ) :
    decimalValue (layout digits n) =
      some ((decValue digits : ℚ) * 10 ^ (n - (digits.length : ℤ))) := by
  have hzero : ∀ k, ∀ c ∈ List.replicate k '0', isDigit c = true := by
    intro k c hc
    rw [List.eq_of_mem_replicate hc]
    decide
  have hnothing : ∀ c ∈ ([] : List Char).head?, isDigit c = false ∧ c ≠ '.' := by simp
  by_cases hwhole : digits.length ≤ n ∧ n ≤ 21
  · have hall : ∀ c ∈ digits ++ List.replicate (n.toNat - digits.length) '0',
        isDigit c = true := by
      intro c hc
      exact (List.mem_append.mp hc).elim (hdigits c) (hzero _ c)
    have hvalue := decimalValue_whole hall (by simp [hne]) hnothing rfl
    rw [List.append_nil] at hvalue
    obtain ⟨k, hk⟩ := Int.eq_ofNat_of_zero_le (by omega : 0 ≤ n - digits.length)
    have hlength : n.toNat - digits.length = k := by omega
    rw [layout_eq, if_pos hwhole, hvalue, decValue_append, decValue_replicate_zero,
      List.length_replicate, hlength, hk]
    simp
  by_cases hpoint : 0 < n ∧ n ≤ 21
  · have htake : ∀ c ∈ digits.take n.toNat, isDigit c = true :=
      fun c hc => hdigits c (List.mem_of_mem_take hc)
    have hdrop : ∀ c ∈ digits.drop n.toNat, isDigit c = true :=
      fun c hc => hdigits c (List.mem_of_mem_drop hc)
    have hnonempty : digits.take n.toNat ≠ [] := by
      rw [Ne, List.take_eq_nil_iff, not_or]
      exact ⟨by omega, hne⟩
    have hvalue := decimalValue_fraction htake hnonempty hdrop (fun c hc => (hnothing c hc).1) rfl
    rw [List.append_nil] at hvalue
    have hplace : (0 : ℤ) - ((digits.drop n.toNat).length : ℤ) = n - digits.length := by
      rw [List.length_drop]
      omega
    rw [layout_eq, if_neg hwhole, if_pos hpoint, hvalue, List.take_append_drop, hplace]
  by_cases hsmall : -6 < n ∧ n ≤ 0
  · have hall : ∀ c ∈ List.replicate n.natAbs '0' ++ digits, isDigit c = true := by
      intro c hc
      exact (List.mem_append.mp hc).elim (hzero _ c) (hdigits c)
    have hvalue := decimalValue_fraction (hzero 1) (by simp) hall
      (fun c hc => (hnothing c hc).1) rfl
    have hdigit : decValue (List.replicate 1 '0' ++ (List.replicate n.natAbs '0' ++ digits)) =
        decValue digits := by
      rw [decValue_append, decValue_append, decValue_replicate_zero, decValue_replicate_zero]
      simp
    have hplace : (0 : ℤ) - ((List.replicate n.natAbs '0' ++ digits).length : ℤ) =
        n - digits.length := by
      rw [List.length_append, List.length_replicate]
      omega
    rw [List.append_nil, hdigit, hplace] at hvalue
    rw [layout_eq, if_neg hwhole, if_neg hpoint, if_pos hsmall]
    exact hvalue
  · obtain ⟨d, rest, rfl⟩ := List.exists_cons_of_ne_nil hne
    rw [layout_eq, if_neg hwhole, if_neg hpoint, if_neg hsmall]
    have hd : ∀ c ∈ [d], isDigit c = true :=
      fun c hc => hdigits c (List.mem_singleton.mp hc ▸ List.mem_cons_self)
    have hexponent := exponentValue_exponentText (n - 1)
    have hhead := head_exponentText (n - 1)
    cases rest with
    | nil => exact decimalValue_whole hd (by simp) hhead hexponent
    | cons e rest =>
      have hrest : ∀ c ∈ e :: rest, isDigit c = true :=
        fun c hc => hdigits c (List.mem_cons_of_mem _ hc)
      have hvalue := decimalValue_fraction hd (by simp) hrest (fun c hc => (hhead c hc).1) hexponent
      have hplace : n - 1 - ((e :: rest).length : ℤ) = n - ((d :: e :: rest).length : ℤ) := by
        simp only [List.length_cons]
        omega
      rw [List.singleton_append, hplace] at hvalue
      exact hvalue

/-- The characters of a number's text. -/
def isNumberChar (c : Char) : Bool := isDigit c || ['.', 'e', '+', '-'].contains c

theorem isNumberChar_of_isDigit {c : Char} (h : isDigit c = true) : isNumberChar c = true := by
  rw [isNumberChar, h, Bool.true_or]

theorem isNumberChar_layout {digits : List Char} (hdigits : ∀ c ∈ digits, isDigit c = true)
    (n : ℤ) : ∀ c ∈ layout digits n, isNumberChar c = true := by
  have hzero : isNumberChar '0' = true := by decide
  have hpoint : isNumberChar '.' = true := by decide
  have hall : ∀ c ∈ digits, isNumberChar c = true :=
    fun c hc => isNumberChar_of_isDigit (hdigits c hc)
  have hexponent : ∀ c ∈ exponentText (n - 1), isNumberChar c = true := by
    intro c hc
    rw [exponentText] at hc
    rcases List.mem_cons.mp hc with rfl | hc
    · decide
    · rcases List.mem_cons.mp hc with rfl | hc
      · split_ifs
        · decide
        · decide
      · exact isNumberChar_of_isDigit (isDigit_toDigits _ c hc)
  by_cases hwhole : digits.length ≤ n ∧ n ≤ 21
  · rw [layout_eq, if_pos hwhole]
    intro c hc
    rcases List.mem_append.mp hc with hc | hc
    · exact hall c hc
    · exact List.eq_of_mem_replicate hc ▸ hzero
  by_cases hplaced : 0 < n ∧ n ≤ 21
  · rw [layout_eq, if_neg hwhole, if_pos hplaced]
    intro c hc
    rcases List.mem_append.mp hc with hc | hc
    · exact hall c (List.mem_of_mem_take hc)
    · rcases List.mem_cons.mp hc with rfl | hc
      · exact hpoint
      · exact hall c (List.mem_of_mem_drop hc)
  by_cases hsmall : -6 < n ∧ n ≤ 0
  · rw [layout_eq, if_neg hwhole, if_neg hplaced, if_pos hsmall]
    intro c hc
    simp only [List.mem_cons, List.mem_append] at hc
    rcases hc with rfl | rfl | hc | hc
    · exact hzero
    · exact hpoint
    · exact List.eq_of_mem_replicate hc ▸ hzero
    · exact hall c hc
  · rw [layout_eq, if_neg hwhole, if_neg hplaced, if_neg hsmall]
    intro c hc
    rcases List.mem_append.mp hc with hc | hc
    · unfold mantissa at hc
      split at hc
      · rcases List.mem_cons.mp hc with rfl | hc
        · exact hall _ List.mem_cons_self
        · rcases List.mem_cons.mp hc with rfl | hc
          · exact hpoint
          · exact hall _ (List.mem_cons_of_mem _ hc)
      · exact hall c hc
    · exact hexponent c hc

theorem head_layout {digits : List Char} (hdigits : ∀ c ∈ digits, isDigit c = true)
    (hne : digits ≠ []) (n : ℤ) : ∃ d rest, layout digits n = d :: rest ∧ isDigit d = true := by
  obtain ⟨d, rest, rfl⟩ := List.exists_cons_of_ne_nil hne
  have hd := hdigits d (by simp)
  by_cases hwhole : (d :: rest).length ≤ n ∧ n ≤ 21
  · rw [layout_eq, if_pos hwhole]
    exact ⟨d, _, rfl, hd⟩
  by_cases hpoint : 0 < n ∧ n ≤ 21
  · obtain ⟨k, hk⟩ : ∃ k, n.toNat = k + 1 := ⟨n.toNat - 1, by omega⟩
    rw [layout_eq, if_neg hwhole, if_pos hpoint, hk]
    exact ⟨d, _, rfl, hd⟩
  by_cases hsmall : -6 < n ∧ n ≤ 0
  · rw [layout_eq, if_neg hwhole, if_neg hpoint, if_pos hsmall]
    exact ⟨'0', _, rfl, by decide⟩
  · rw [layout_eq, if_neg hwhole, if_neg hpoint, if_neg hsmall]
    cases rest with
    | nil => exact ⟨d, _, rfl, hd⟩
    | cons e rest => exact ⟨d, _, rfl, hd⟩

theorem unsignedText_eq (x : Double) :
    unsignedText x = layout (Nat.toDigits 10 (shortest x).1)
      ((shortest x).2 + (Nat.toDigits 10 (shortest x).1).length) := by
  rcases h : shortest x with ⟨s, p⟩
  simp only [unsignedText, h]

/-- What stands in the text of a number that is not zero. -/
theorem unsignedText_spec {x : Double} (hx : x.val ≠ 0) :
    (∃ value, decimalValue (unsignedText x) = some value ∧
      Num.ofRat (if x.val < 0 then -value else value) = .finite x) ∧
      (∀ c ∈ unsignedText x, isNumberChar c = true) ∧
      ∃ d rest, unsignedText x = d :: rest ∧ isDigit d = true := by
  obtain ⟨hround, -⟩ := shortest_spec hx
  have hdigits := isDigit_toDigits (shortest x).1
  have hne := toDigits_ne_nil (shortest x).1
  rw [unsignedText_eq]
  refine ⟨⟨(shortest x).1 * 10 ^ (shortest x).2, ?_, ?_⟩, isNumberChar_layout hdigits _,
    head_layout hdigits hne _⟩
  · rw [decimalValue_layout hdigits hne, decValue_toDigits, add_sub_cancel_right]
  · rw [placed_eq] at hround
    rw [Num.ofRat, hround]

theorem radixOf_of_isNumberChar {c : Char} (h : isNumberChar c = true) : radixOf c = none := by
  have htable : ∀ d ∈ ['x', 'X', 'o', 'O', 'b', 'B'], isNumberChar d = false :=
    List.all_iff_forall_prop.mp (by decide)
  have hne : ∀ d ∈ ['x', 'X', 'o', 'O', 'b', 'B'], c ≠ d := by
    rintro d hd rfl
    rw [htable _ hd] at h
    cases h
  simp only [List.mem_cons, List.not_mem_nil, or_false, forall_eq_or_imp, forall_eq] at hne
  obtain ⟨h1, h2, h3, h4, h5, h6⟩ := hne
  rw [radixOf, if_neg (not_or.mpr ⟨h1, h2⟩), if_neg (not_or.mpr ⟨h3, h4⟩),
    if_neg (not_or.mpr ⟨h5, h6⟩)]

theorem isSpace_of_isNumberChar {c : Char} (h : isNumberChar c = true) : isSpace c = false := by
  simp only [isNumberChar, Bool.or_eq_true, List.contains_iff_mem] at h
  rcases h with h | h
  · simp only [isDigit, Bool.and_eq_true, decide_eq_true_eq] at h
    simp only [isSpace, List.mem_cons, List.not_mem_nil, or_false, Bool.or_eq_false_iff,
      decide_eq_false_iff_not, Bool.and_eq_false_iff]
    omega
  · have htable : ∀ c ∈ ['.', 'e', '+', '-'], isSpace c = false :=
      List.all_iff_forall_prop.mp (by decide)
    exact htable c h

theorem trimmed_of_isNumberChar {cs : List Char} (h : ∀ c ∈ cs, isNumberChar c = true) :
    Trimmed cs :=
  ⟨fun c hc => isSpace_of_isNumberChar (h c (List.mem_of_head? hc)),
    fun c hc => isSpace_of_isNumberChar (h c (List.mem_of_getLast? hc))⟩

theorem signedNumber_of_isDigit {d : Char} (hd : isDigit d = true) (rest : List Char)
    (negative : Bool) {value : ℚ} (hvalue : decimalValue (d :: rest) = some value) :
    signedNumber negative (d :: rest) = .ofRat (if negative then -value else value) := by
  have hword : d :: rest ≠ INFINITY := by
    intro heq
    have hhead : d = 'I' := (List.cons.inj heq).1
    subst hhead
    exact absurd hd (by decide)
  rw [signedNumber, if_neg hword, hvalue]

/-- A literal that begins with a digit. -/
theorem toNumber_of_isDigit {d : Char} (hd : isDigit d = true) {rest : List Char}
    (hchars : ∀ c ∈ d :: rest, isNumberChar c = true) :
    toNumber (d :: rest) = signedNumber false (d :: rest) := by
  rw [toNumber, trim_of_trimmed (trimmed_of_isNumberChar hchars)]
  cases rest with
  | nil => rfl
  | cons e rest =>
    have hradix : (if d = '0' then radixOf e else none) = none := by
      split_ifs
      · exact radixOf_of_isNumberChar (hchars e (by simp))
      · rfl
    have hminus : d ≠ '-' := by
      rintro rfl
      exact absurd hd (by decide)
    have hplus : d ≠ '+' := by
      rintro rfl
      exact absurd hd (by decide)
    simp only [hradix, if_neg hminus, if_neg hplus]

theorem toNumber_minus {d : Char} {rest : List Char}
    (hchars : ∀ c ∈ d :: rest, isNumberChar c = true) :
    toNumber ('-' :: d :: rest) = signedNumber true (d :: rest) := by
  have hall : ∀ c ∈ '-' :: d :: rest, isNumberChar c = true := by
    intro c hc
    rcases List.mem_cons.mp hc with rfl | hc
    · decide
    · exact hchars c hc
  rw [toNumber, trim_of_trimmed (trimmed_of_isNumberChar hall)]
  rfl

/-- A number is read back from its text. -/
theorem toNumber_toText (x : Double) : toNumber (Num.finite x).toText = .finite x := by
  by_cases hzero : x.val = 0
  · have hself : Num.ofRat 0 = .finite x := by
      rw [← hzero, Num.ofRat_val]
    have hvalue : decimalValue (['0'] ++ []) = some ((decValue ['0'] : ℚ) * 10 ^ (0 : ℤ)) :=
      decimalValue_whole (List.all_iff_forall_prop.mp (by decide)) (by simp) (by simp) rfl
    have hnothing : (decValue ['0'] : ℚ) * 10 ^ (0 : ℤ) = 0 := by
      rw [show decValue ['0'] = 0 from rfl, Nat.cast_zero, zero_mul]
    rw [hnothing, List.append_nil] at hvalue
    rw [Num.toText, if_pos hzero, toNumber_of_isDigit (by decide)
        (List.all_iff_forall_prop.mp (by decide)),
      signedNumber_of_isDigit (by decide) [] false hvalue]
    exact hself
  · obtain ⟨⟨value, hvalue, hround⟩, hchars, d, rest, htext, hd⟩ := unsignedText_spec hzero
    rw [htext] at hvalue hchars
    rw [Num.toText, if_neg hzero, htext]
    split_ifs with hneg
    · rw [if_pos hneg] at hround
      exact (toNumber_minus hchars).trans
        ((signedNumber_of_isDigit hd rest true hvalue).trans hround)
    · rw [if_neg hneg] at hround
      exact (toNumber_of_isDigit hd hchars).trans
        ((signedNumber_of_isDigit hd rest false hvalue).trans hround)

theorem isNumberChar_toText (x : Double) :
    ∀ c ∈ (Num.finite x).toText, isNumberChar c = true := by
  intro c hc
  rw [Num.toText] at hc
  split_ifs at hc with hzero hneg
  · obtain rfl := List.mem_singleton.mp hc
    decide
  · rcases List.mem_cons.mp hc with rfl | hc
    · decide
    · exact (unsignedText_spec hzero).2.1 c hc
  · exact (unsignedText_spec hzero).2.1 c hc

theorem toText_ne_nil (x : Double) : (Num.finite x).toText ≠ [] := by
  rw [Num.toText]
  split_ifs with hzero hneg
  · simp
  · simp
  · obtain ⟨-, -, d, rest, htext, -⟩ := unsignedText_spec hzero
    rw [htext]
    simp

end HeirsOcr.NumberText
