import Mathlib.Data.Int.Log
import Mathlib.Data.Rat.Floor
import Mathlib.Tactic

/-!
# Numbers of double precision

The finite values of IEEE 754 binary64 as rationals: a whole number of at most 53 bits times a
power of two. A rational is rounded to the nearest one, half to even; the two zeros are one.
-/
namespace HeirsOcr.Doubles

def maxFinite : ℚ := (2 ^ 53 - 1) * 2 ^ 971

/-- What a double holds. -/
def IsDouble (x : ℚ) : Prop :=
  |x| ≤ maxFinite ∧ ∃ m e : ℤ, |m| < 2 ^ 53 ∧ -1074 ≤ e ∧ x = m * 2 ^ e

/-- The exponent of the last place of the doubles about a number. -/
def lastPlace (q : ℚ) : ℤ := max (Int.log 2 |q|) (-1022) - 52

/-- The nearest whole number, half to even. -/
def roundHalfEven (q : ℚ) : ℤ :=
  let low := ⌊q⌋
  if q - low < 1 / 2 then low
  else if 1 / 2 < q - low then low + 1
  else if low % 2 = 0 then low
  else low + 1

/-- The nearest number of 53 bits, whatever its size. -/
def nearest (q : ℚ) : ℚ := roundHalfEven (q / 2 ^ lastPlace q) * 2 ^ lastPlace q

@[simp] theorem roundHalfEven_intCast (n : ℤ) : roundHalfEven n = n := by
  simp [roundHalfEven]

theorem roundHalfEven_eq (q : ℚ) :
    roundHalfEven q = ⌊q⌋ ∨ roundHalfEven q = ⌊q⌋ + 1 ∧ (⌊q⌋ : ℚ) < q := by
  rw [roundHalfEven]
  split_ifs with hlow hhigh heven
  · exact Or.inl rfl
  · exact Or.inr ⟨rfl, by linarith⟩
  · exact Or.inl rfl
  · exact Or.inr ⟨rfl, by linarith⟩

theorem abs_roundHalfEven_le {q : ℚ} {n : ℤ} (h : |q| ≤ n) : |roundHalfEven q| ≤ n := by
  obtain ⟨hlow, hhigh⟩ := abs_le.mp h
  have hfloor : -n ≤ ⌊q⌋ := by
    apply Int.le_floor.mpr
    push_cast
    exact hlow
  have hle : ⌊q⌋ ≤ n := by
    have hcast : (⌊q⌋ : ℚ) ≤ n := (Int.floor_le q).trans hhigh
    exact_mod_cast hcast
  rw [abs_le]
  rcases roundHalfEven_eq q with heq | ⟨heq, hlt⟩
  · rw [heq]
    exact ⟨hfloor, hle⟩
  · have hup : ⌊q⌋ < n := by
      have hcast : (⌊q⌋ : ℚ) < n := hlt.trans_le hhigh
      exact_mod_cast hcast
    rw [heq]
    omega

theorem two_zpow_pos (e : ℤ) : (0 : ℚ) < 2 ^ e := zpow_pos (by norm_num) e

theorem abs_lt_zpow (q : ℚ) : |q| < 2 ^ (lastPlace q + 53) := by
  have hlog : |q| < ((2 : ℕ) : ℚ) ^ (Int.log 2 |q| + 1) := Int.lt_zpow_succ_log_self (by norm_num) _
  refine hlog.trans_le ?_
  have hbase : ((2 : ℕ) : ℚ) = 2 := by norm_num
  rw [hbase]
  exact zpow_le_zpow_right₀ (by norm_num) (by rw [lastPlace]; omega)

@[simp] theorem nearest_zero : nearest 0 = 0 := by
  have hround : roundHalfEven 0 = 0 := by exact_mod_cast roundHalfEven_intCast 0
  rw [nearest, zero_div, hround, Int.cast_zero, zero_mul]

/-- The last place of a double is no coarser than its exponent. -/
theorem lastPlace_le {m e : ℤ} (hm : |m| < 2 ^ 53) (he : -1074 ≤ e) (hzero : m ≠ 0) :
    lastPlace (m * 2 ^ e) ≤ e := by
  have hpos : (0 : ℚ) < |(m : ℚ) * 2 ^ e| :=
    abs_pos.mpr (mul_ne_zero (by exact_mod_cast hzero) (two_zpow_pos e).ne')
  have hlt : |(m : ℚ) * 2 ^ e| < ((2 : ℕ) : ℚ) ^ (53 + e) := by
    have hmlt : |(m : ℚ)| < 2 ^ 53 := by exact_mod_cast hm
    have hsplit : ((2 : ℕ) : ℚ) ^ (53 + e) = 2 ^ 53 * 2 ^ e := by
      rw [Nat.cast_ofNat, zpow_add₀ (by norm_num)]
      norm_num
    rw [abs_mul, abs_of_pos (two_zpow_pos e), hsplit]
    exact mul_lt_mul_of_pos_right hmlt (two_zpow_pos e)
  have hlog := (Int.lt_zpow_iff_log_lt (by norm_num) hpos).mp hlt
  rw [lastPlace]
  omega

/-- A number of 53 bits is where it is rounded to. -/
theorem nearest_of_digits {m e : ℤ} (hm : |m| < 2 ^ 53) (he : -1074 ≤ e) :
    nearest (m * 2 ^ e) = m * 2 ^ e := by
  by_cases hzero : m = 0
  · rw [hzero, Int.cast_zero, zero_mul, nearest_zero]
  · obtain ⟨k, hk⟩ := Int.eq_ofNat_of_zero_le (sub_nonneg.mpr (lastPlace_le hm he hzero))
    have hwhole : (m : ℚ) * 2 ^ e / 2 ^ lastPlace (m * 2 ^ e) = ((m * 2 ^ k : ℤ) : ℚ) := by
      rw [mul_div_assoc, ← zpow_sub₀ (by norm_num), hk]
      push_cast
      rw [zpow_natCast]
    rw [nearest, hwhole, roundHalfEven_intCast, ← hwhole,
      div_mul_cancel₀ _ (two_zpow_pos _).ne']

theorem nearest_of_isDouble {x : ℚ} (h : IsDouble x) : nearest x = x := by
  obtain ⟨-, m, e, hm, he, rfl⟩ := h
  exact nearest_of_digits hm he

theorem abs_scaled_le (q : ℚ) : |q / 2 ^ lastPlace q| ≤ ((2 ^ 53 : ℤ) : ℚ) := by
  have hlt := abs_lt_zpow q
  rw [zpow_add₀ (by norm_num)] at hlt
  rw [abs_div, abs_of_pos (two_zpow_pos _), div_le_iff₀ (two_zpow_pos _)]
  norm_num at hlt ⊢
  linarith

/-- What a number is rounded to has 53 bits. -/
theorem digits_nearest (q : ℚ) :
    ∃ m e : ℤ, |m| < 2 ^ 53 ∧ -1074 ≤ e ∧ nearest q = m * 2 ^ e := by
  have hbound := abs_roundHalfEven_le (abs_scaled_le q)
  have hplace : -1074 ≤ lastPlace q := by
    rw [lastPlace]
    omega
  rw [nearest]
  generalize roundHalfEven (q / 2 ^ lastPlace q) = n at hbound
  by_cases hlt : |n| < 2 ^ 53
  · exact ⟨n, lastPlace q, hlt, hplace, rfl⟩
  · -- a carry: one bit less, one exponent more
    have hcarry : ∃ m : ℤ, |m| < 2 ^ 53 ∧ n = m * 2 := by
      rcases abs_choice n with habs | habs
      · exact ⟨2 ^ 52, by norm_num, by omega⟩
      · exact ⟨-2 ^ 52, by norm_num, by omega⟩
    obtain ⟨m, hm, rfl⟩ := hcarry
    refine ⟨m, lastPlace q + 1, hm, by omega, ?_⟩
    rw [zpow_add₀ (by norm_num), zpow_one]
    push_cast
    ring

/-- What a number is rounded to is a double, unless it is too large. -/
theorem isDouble_nearest {q : ℚ} (h : |nearest q| ≤ maxFinite) : IsDouble (nearest q) :=
  ⟨h, digits_nearest q⟩

/-- A finite number of double precision. -/
structure Double where
  val : ℚ
  isDouble : IsDouble val

namespace Double

theorem ext_val {x y : Double} (h : x.val = y.val) : x = y := by
  cases x
  cases y
  cases h
  rfl

instance : DecidableEq Double := fun x y =>
  decidable_of_iff (x.val = y.val) ⟨ext_val, fun h => by rw [h]⟩

end Double

/-- The double a number is rounded to, `none` beyond the largest. -/
def toDouble (q : ℚ) : Option Double :=
  if h : |nearest q| ≤ maxFinite then some ⟨nearest q, isDouble_nearest h⟩ else none

@[simp] theorem toDouble_val (x : Double) : toDouble x.val = some x := by
  have hnearest := nearest_of_isDouble x.isDouble
  have hle : |nearest x.val| ≤ maxFinite := by
    rw [hnearest]
    exact x.isDouble.1
  rw [toDouble, dif_pos hle]
  exact congrArg some (Double.ext_val hnearest)

/-- A number of less than 53 bits, some of them behind the point. -/
theorem isDouble_of_places {m e : ℤ} (hm : |m| < 2 ^ 53) (he : -1074 ≤ e) (he' : e ≤ 0) :
    IsDouble (m * 2 ^ e) := by
  refine ⟨?_, m, e, hm, he, rfl⟩
  have hlt : |(m : ℚ)| < 2 ^ 53 := by exact_mod_cast hm
  have hone : (2 : ℚ) ^ e ≤ 1 := zpow_le_one_of_nonpos₀ (by norm_num) he'
  rw [abs_mul, abs_of_pos (two_zpow_pos e)]
  calc |(m : ℚ)| * 2 ^ e ≤ |(m : ℚ)| := mul_le_of_le_one_right (abs_nonneg _) hone
    _ ≤ (2 ^ 53 - 1) * 2 ^ 1 := hlt.le.trans (by norm_num)
    _ ≤ maxFinite :=
        mul_le_mul_of_nonneg_left (pow_le_pow_right₀ (by norm_num) (by norm_num)) (by norm_num)

theorem isDouble_of_eq {x : ℚ} {m e : ℤ} (hm : |m| < 2 ^ 53) (he : -1074 ≤ e) (he' : e ≤ 0)
    (hx : x = m * 2 ^ e) : IsDouble x :=
  hx ▸ isDouble_of_places hm he he'

theorem isDouble_of_natAbs_lt {n : ℤ} (h : |n| < 2 ^ 53) : IsDouble n := by
  have hdouble := isDouble_of_places h (e := 0) (by norm_num) le_rfl
  rwa [zpow_zero, mul_one] at hdouble

/-- A whole number of less than 53 bits is a double. -/
def Double.ofInt (n : ℤ) (h : |n| < 2 ^ 53) : Double := ⟨n, isDouble_of_natAbs_lt h⟩

/-- The whole part of a double is one. -/
theorem isDouble_floor {x : ℚ} (h : IsDouble x) : IsDouble ⌊x⌋ := by
  obtain ⟨hmax, m, e, hm, he, rfl⟩ := h
  by_cases hwhole : 0 ≤ e
  · -- no places behind the point
    obtain ⟨k, rfl⟩ := Int.eq_ofNat_of_zero_le hwhole
    have hint : (m : ℚ) * 2 ^ (k : ℤ) = ((m * 2 ^ k : ℤ) : ℚ) := by
      push_cast
      rw [zpow_natCast]
    have hfloor : (⌊(m : ℚ) * 2 ^ (k : ℤ)⌋ : ℚ) = m * 2 ^ (k : ℤ) := by
      rw [hint, Int.floor_intCast]
    rw [hfloor]
    exact ⟨hmax, m, k, hm, he, rfl⟩
  · apply isDouble_of_natAbs_lt
    refine lt_of_le_of_lt ?_ hm
    have hone : (2 : ℚ) ^ e ≤ 1 := zpow_le_one_of_nonpos₀ (by norm_num) (by omega)
    have hpos := two_zpow_pos e
    rw [abs_le]
    constructor
    · apply Int.le_floor.mpr
      push_cast
      have hneg : -|(m : ℚ)| ≤ m := neg_abs_le _
      have habs : 0 ≤ |(m : ℚ)| := abs_nonneg _
      nlinarith
    · have hle : (⌊(m : ℚ) * 2 ^ e⌋ : ℚ) ≤ |(m : ℚ)| := by
        refine (Int.floor_le _).trans ?_
        have hself : (m : ℚ) ≤ |(m : ℚ)| := le_abs_self _
        have habs : 0 ≤ |(m : ℚ)| := abs_nonneg _
        nlinarith
      exact_mod_cast hle

def Double.floor (x : Double) : Double := ⟨⌊x.val⌋, isDouble_floor x.isDouble⟩

/-- A natural number is a double when its odd part has at most 53 bits. -/
theorem isDouble_natCast_iff {n : ℕ} (hmax : (n : ℚ) ≤ maxFinite) :
    IsDouble n ↔ ∃ m k : ℕ, m < 2 ^ 53 ∧ n = m * 2 ^ k := by
  constructor
  · rintro ⟨-, m, e, hm, -, hn⟩
    have hpos := two_zpow_pos e
    have hm0 : 0 ≤ m := by
      have hprod : (0 : ℚ) ≤ m * 2 ^ e := hn ▸ Nat.cast_nonneg n
      exact_mod_cast nonneg_of_mul_nonneg_left hprod hpos
    obtain ⟨m, rfl⟩ := Int.eq_ofNat_of_zero_le hm0
    rw [Nat.abs_cast] at hm
    by_cases hwhole : 0 ≤ e
    · obtain ⟨k, rfl⟩ := Int.eq_ofNat_of_zero_le hwhole
      refine ⟨m, k, by exact_mod_cast hm, ?_⟩
      rw [zpow_natCast] at hn
      exact_mod_cast hn
    · -- places behind the point: the number is below its digits
      have hone : (2 : ℚ) ^ e ≤ 1 := zpow_le_one_of_nonpos₀ (by norm_num) (by omega)
      have hle : (n : ℚ) ≤ m := by
        rw [hn]
        exact mul_le_of_le_one_right (Nat.cast_nonneg m) hone
      have hnm : n ≤ m := by exact_mod_cast hle
      exact ⟨n, 0, by omega, by simp⟩
  · rintro ⟨m, k, hm, hn⟩
    refine ⟨by rwa [Nat.abs_cast], m, k, by rw [Nat.abs_cast]; exact_mod_cast hm, by omega, ?_⟩
    rw [hn, zpow_natCast]
    push_cast
    rfl

/-- When a product with the number before a whole double is one, so is that number. -/
theorem isDouble_pred_of_mul {n s : ℕ} (hn : IsDouble ((n + 1 : ℕ) : ℚ)) (hs : 1 ≤ s)
    (hmul : IsDouble ((n * s : ℕ) : ℚ)) : IsDouble (n : ℚ) := by
  have hself : (n : ℚ) ≤ ((n + 1 : ℕ) : ℚ) := by
    push_cast
    linarith
  have habs := hn.1
  rw [Nat.abs_cast] at habs
  by_cases hsmall : n < 2 ^ 53
  · exact (isDouble_natCast_iff (hself.trans habs)).mpr ⟨n, 0, hsmall, by simp⟩
  · -- so large a double is even, and the odd number before it divides the product's odd part
    obtain ⟨m, k, hm, hnm⟩ := (isDouble_natCast_iff habs).mp hn
    have hmax := hmul.1
    rw [Nat.abs_cast] at hmax
    obtain ⟨m', k', hm', hprod⟩ := (isDouble_natCast_iff hmax).mp hmul
    have hodd : Odd n := by
      rcases Nat.eq_zero_or_pos k with rfl | hk
      · omega
      · obtain ⟨j, rfl⟩ := Nat.exists_eq_succ_of_ne_zero hk.ne'
        have heven : n + 1 = 2 * (m * 2 ^ j) := by
          rw [hnm, pow_succ]
          ring
        exact Nat.odd_iff.mpr (by omega)
    have hcoprime : Nat.Coprime n (2 ^ k') := hodd.coprime_two_right.pow_right k'
    have hdvd : n ∣ m' := hcoprime.dvd_of_dvd_mul_right (hprod ▸ Dvd.intro _ rfl)
    have hpos : 0 < m' := by
      rcases Nat.eq_zero_or_pos m' with rfl | hpos
      · have hzero : n * s = 0 := by rw [hprod, zero_mul]
        rcases Nat.mul_eq_zero.mp hzero with h | h <;> omega
      · exact hpos
    have hle := Nat.le_of_dvd hpos hdvd
    omega

end HeirsOcr.Doubles
