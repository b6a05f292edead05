import HeirsOcr.Doubles

/-!
# Rounded arithmetic

A step of arithmetic is exact or rounded to what can be held. What follows of any rounding that
keeps the order and every double holds of exact numbers and of numbers of double precision alike.
Rounding to doubles knows no largest one: what is too large compares as infinity does.
-/
namespace HeirsOcr.Doubles

/-- How a step of the arithmetic is rounded. -/
structure Rounding where
  round : ℚ → ℚ
  nonneg : ∀ q, 0 ≤ q → 0 ≤ round q

def Rounding.exact : Rounding := ⟨id, fun _ h => h⟩

/-- A rounding that keeps the order, every double, what it has rounded and twice that. -/
structure Arithmetic extends Rounding where
  mono : ∀ {a b : ℚ}, a ≤ b → round a ≤ round b
  fixed : ∀ {x : ℚ}, IsDouble x → round x = x
  idem : ∀ q, round (round q) = round q
  twice : ∀ {x : ℚ}, round x = x → round (2 * x) = 2 * x

def Arithmetic.exact : Arithmetic := ⟨.exact, fun h => h, fun _ => rfl, fun _ => rfl, fun _ => rfl⟩

theorem Arithmetic.intCast (r : Arithmetic) {n : ℤ} (h : |n| < 2 ^ 53) : r.round n = n :=
  r.fixed (isDouble_of_natAbs_lt h)

@[simp] theorem Arithmetic.zero (r : Arithmetic) : r.round 0 = 0 := by
  exact_mod_cast r.intCast (n := 0) (by norm_num)

theorem Arithmetic.le_of_isDouble (r : Arithmetic) {q x : ℚ} (hx : IsDouble x) (h : q ≤ x) :
    r.round q ≤ x :=
  (r.mono h).trans_eq (r.fixed hx)

theorem Arithmetic.ge_of_isDouble (r : Arithmetic) {q x : ℚ} (hx : IsDouble x) (h : x ≤ q) :
    x ≤ r.round q :=
  (r.fixed hx).symm.trans_le (r.mono h)

theorem roundHalfEven_le {q : ℚ} {n : ℤ} (h : q ≤ n) : roundHalfEven q ≤ n := by
  rcases roundHalfEven_eq q with heq | ⟨heq, hlt⟩
  · have hfloor : (⌊q⌋ : ℚ) ≤ n := (Int.floor_le q).trans h
    rw [heq]
    exact_mod_cast hfloor
  · have hfloor : (⌊q⌋ : ℚ) < n := hlt.trans_le h
    have hint : ⌊q⌋ < n := by exact_mod_cast hfloor
    omega

theorem le_roundHalfEven {q : ℚ} {n : ℤ} (h : (n : ℚ) ≤ q) : n ≤ roundHalfEven q := by
  have hfloor : n ≤ ⌊q⌋ := Int.le_floor.mpr h
  rcases roundHalfEven_eq q with heq | ⟨heq, -⟩
  · omega
  · omega

theorem roundHalfEven_mono {a b : ℚ} (h : a ≤ b) : roundHalfEven a ≤ roundHalfEven b := by
  have hfloor : ⌊a⌋ ≤ ⌊b⌋ := Int.floor_mono h
  rcases hfloor.eq_or_lt with heq | hlt
  · -- between the same two whole numbers
    have hsub : a - ⌊b⌋ ≤ b - ⌊b⌋ := by linarith
    simp only [roundHalfEven, heq]
    split_ifs <;> first | omega | linarith
  · calc roundHalfEven a ≤ ⌊b⌋ := by
          rcases roundHalfEven_eq a with heq | ⟨heq, -⟩
          · omega
          · omega
      _ ≤ roundHalfEven b := le_roundHalfEven (Int.floor_le b)

theorem abs_roundHalfEven_sub_le (q : ℚ) : |roundHalfEven q - q| ≤ 1 / 2 := by
  have hfloor := Int.floor_le q
  have hlt := Int.lt_floor_add_one q
  rw [abs_le, roundHalfEven]
  split_ifs <;> push_cast <;> constructor <;> linarith

/-- What a number loses is half of its last place at most. -/
theorem abs_nearest_sub_le (q : ℚ) : |nearest q - q| ≤ 2 ^ lastPlace q / 2 := by
  have hpos := two_zpow_pos (lastPlace q)
  have hscaled : nearest q - q =
      (roundHalfEven (q / 2 ^ lastPlace q) - q / 2 ^ lastPlace q) * 2 ^ lastPlace q := by
    rw [nearest, sub_mul, div_mul_cancel₀ _ hpos.ne']
  rw [hscaled, abs_mul, abs_of_pos hpos]
  linarith [mul_le_mul_of_nonneg_right (abs_roundHalfEven_sub_le (q / 2 ^ lastPlace q)) hpos.le]

/-- A multiple of the last place is a whole number of them. -/
theorem exists_places {place k : ℤ} (h : place ≤ k) (n : ℤ) :
    ∃ N : ℤ, (n : ℚ) * 2 ^ k = N * 2 ^ place := by
  obtain ⟨j, hj⟩ := Int.eq_ofNat_of_zero_le (sub_nonneg.mpr h)
  refine ⟨n * 2 ^ j, ?_⟩
  have hk : k = (j : ℤ) + place := by omega
  rw [hk, zpow_add₀ (by norm_num), zpow_natCast]
  push_cast
  ring

theorem nearest_le {q : ℚ} {n k : ℤ} (hplace : lastPlace q ≤ k) (h : q ≤ n * 2 ^ k) :
    nearest q ≤ n * 2 ^ k := by
  obtain ⟨N, hN⟩ := exists_places hplace n
  have hpos := two_zpow_pos (lastPlace q)
  rw [hN] at h ⊢
  have hround : roundHalfEven (q / 2 ^ lastPlace q) ≤ N :=
    roundHalfEven_le ((div_le_iff₀ hpos).mpr h)
  exact mul_le_mul_of_nonneg_right (by exact_mod_cast hround) hpos.le

theorem le_nearest {q : ℚ} {n k : ℤ} (hplace : lastPlace q ≤ k) (h : (n : ℚ) * 2 ^ k ≤ q) :
    (n : ℚ) * 2 ^ k ≤ nearest q := by
  obtain ⟨N, hN⟩ := exists_places hplace n
  have hpos := two_zpow_pos (lastPlace q)
  rw [hN] at h ⊢
  have hround : N ≤ roundHalfEven (q / 2 ^ lastPlace q) :=
    le_roundHalfEven ((le_div_iff₀ hpos).mpr h)
  exact mul_le_mul_of_nonneg_right (by exact_mod_cast hround) hpos.le

theorem nearest_nonneg {q : ℚ} (h : 0 ≤ q) : 0 ≤ nearest q := by
  have hle := le_nearest (n := 0) le_rfl (q := q) (by simpa using h)
  simpa using hle

theorem nearest_nonpos {q : ℚ} (h : q ≤ 0) : nearest q ≤ 0 := by
  have hle := nearest_le (n := 0) le_rfl (q := q) (by simpa using h)
  simpa using hle

/-- A coarser last place than another's lies behind a leading bit. -/
theorem zpow_le_abs {q : ℚ} {place : ℤ} (hq : q ≠ 0) (hplace : -1074 ≤ place)
    (h : place < lastPlace q) : 2 ^ (lastPlace q + 52) ≤ |q| := by
  have hlog : lastPlace q + 52 = Int.log 2 |q| := by
    rw [lastPlace] at h ⊢
    omega
  have hle : ((2 : ℕ) : ℚ) ^ Int.log 2 |q| ≤ |q| :=
    Int.zpow_log_le_self (by norm_num) (abs_pos.mpr hq)
  rw [hlog]
  exact_mod_cast hle

theorem neg_1074_le_lastPlace (q : ℚ) : -1074 ≤ lastPlace q := by
  rw [lastPlace]
  omega

/-- Numbers of a finer last place lie between the numbers of a coarser one. -/
theorem abs_lt_zpow_of_lt {q : ℚ} {place : ℤ} (h : lastPlace q < place) :
    |q| < 2 ^ (place + 52) :=
  (abs_lt_zpow q).trans_le (zpow_le_zpow_right₀ (by norm_num) (by omega))

theorem nearest_nearest (q : ℚ) : nearest (nearest q) = nearest q := by
  obtain ⟨m, e, hm, he, hq⟩ := digits_nearest q
  rw [hq, nearest_of_digits hm he]

theorem nearest_two_mul {x : ℚ} (h : nearest x = x) : nearest (2 * x) = 2 * x := by
  obtain ⟨m, e, hm, he, hx⟩ := digits_nearest x
  have hdouble : 2 * x = m * 2 ^ (e + 1) := by
    rw [← h, hx, zpow_add₀ (by norm_num), zpow_one]
    ring
  rw [hdouble, nearest_of_digits hm (by omega)]

/-- A larger number is not rounded below a smaller one. -/
theorem nearest_mono {a b : ℚ} (h : a ≤ b) : nearest a ≤ nearest b := by
  by_cases ha : a = 0
  · rw [ha, nearest_zero]
    exact nearest_nonneg (ha ▸ h)
  by_cases hb : b = 0
  · rw [hb, nearest_zero]
    exact nearest_nonpos (hb ▸ h)
  rcases lt_trichotomy (lastPlace a) (lastPlace b) with hlt | heq | hgt
  · -- the power of two at which the places change lies between them
    have hlead := zpow_le_abs hb (neg_1074_le_lastPlace a) hlt
    obtain ⟨hlow, hsmall⟩ := abs_lt.mp (abs_lt_zpow_of_lt hlt)
    have hbig : 2 ^ (lastPlace b + 52) ≤ b := by
      rcases abs_choice b with habs | habs
      · rwa [habs] at hlead
      · rw [habs] at hlead
        linarith
    calc nearest a ≤ ((1 : ℤ) : ℚ) * 2 ^ (lastPlace b + 52) :=
          nearest_le (by omega) (by simpa using hsmall.le)
      _ ≤ nearest b := le_nearest (by omega) (by simpa using hbig)
  · have hscaled : a / 2 ^ lastPlace a ≤ b / 2 ^ lastPlace a :=
      div_le_div_of_nonneg_right h (two_zpow_pos _).le
    have hround := roundHalfEven_mono hscaled
    rw [nearest, nearest, ← heq]
    exact mul_le_mul_of_nonneg_right (by exact_mod_cast hround) (two_zpow_pos _).le
  · have hlead := zpow_le_abs ha (neg_1074_le_lastPlace b) hgt
    obtain ⟨hlow, hsmall⟩ := abs_lt.mp (abs_lt_zpow_of_lt hgt)
    have hbig : a ≤ -2 ^ (lastPlace a + 52) := by
      rcases abs_choice a with habs | habs
      · rw [habs] at hlead
        linarith
      · rw [habs] at hlead
        linarith
    calc nearest a ≤ ((-1 : ℤ) : ℚ) * 2 ^ (lastPlace a + 52) :=
          nearest_le (by omega) (by simpa using hbig)
      _ ≤ nearest b := le_nearest (by omega) (by simpa using hlow.le)

/-- Numbers of double precision. -/
def Rounding.double : Rounding := ⟨nearest, fun _ h => nearest_nonneg h⟩

def Arithmetic.double : Arithmetic := 
  ⟨.double, nearest_mono, nearest_of_isDouble, nearest_nearest, nearest_two_mul⟩

end HeirsOcr.Doubles
