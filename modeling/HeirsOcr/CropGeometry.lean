import HeirsOcr.Signing

/-!
# What is cropped

The rectangle of pixels that a region of a page becomes. The region is padded, clamped to the
page and put on the grid, its origin rounded down and its size up, each side by itself. The numbers
are exact or rounded after every step; only what is exact holds the whole region.
-/
namespace HeirsOcr.Signing
open Doubles Pipeline Providers

/-- An interval of pixels: the first and how many. -/
structure Span where
  origin : ℤ
  length : ℤ
  deriving DecidableEq, Repr

/-- One side of the rectangle. -/
def cropSpan (r : Rounding) (size : ℕ) (low high : ℚ) : Span :=
  let padding := r.round CROP_PADDING
  let start := clamp01 (r.round (low - padding))
  let stop := clamp01 (r.round (high + padding))
  let origin : ℤ := min ⌊r.round (start * size)⌋ (size - 1)
  ⟨origin, max 1 (min ⌈r.round (r.round (stop - start) * size)⌉ (size - origin))⟩

structure Rectangle where
  horizontal : Span
  vertical : Span
  deriving DecidableEq, Repr

def cropRectangle (r : Rounding) (width height : ℕ) (bbox : Bbox) : Rectangle :=
  ⟨cropSpan r width bbox.1 bbox.2.2.1, cropSpan r height bbox.2.1 bbox.2.2.2⟩

/-- `sharp(pageImage).extract` of a rectangle, as a data URI. -/
def extractRectangle (imaging : Imaging) (pageImage : Buffer) (rect : Rectangle) :
    Except Thrown String := do
  let buffer ← imaging.extract pageImage rect.horizontal.origin rect.vertical.origin
    rect.horizontal.length rect.vertical.length
  return "data:image/png;base64," ++ imaging.base64 buffer

/-- What is extracted of a page that has a size. -/
theorem cropRegion_eq (r : Rounding) {imaging : Imaging} {pageImage : Buffer} {width height : ℕ}
    (hsize : imaging.metadata pageImage = .ok (some width, some height)) (hwidth : 1 ≤ width)
    (hheight : 1 ≤ height) (bbox : Bbox) : cropRegion r imaging pageImage bbox =
      extractRectangle imaging pageImage (cropRectangle r width height bbox) := by
  have hpage : ¬ (width = 0 ∨ height = 0) := by omega
  simp only [cropRegion, hsize, bind, Except.bind, pure, Except.pure, Option.getD_some,
    if_neg hpage]
  rfl

/-- The span lies in the image and is not empty. -/
def Span.Inside (s : Span) (size : ℕ) : Prop :=
  0 ≤ s.origin ∧ 1 ≤ s.length ∧ s.origin + s.length ≤ size

/-- The span holds what lies between two places, which are fractions of the size. -/
def Span.Holds (s : Span) (size : ℕ) (low high : ℚ) : Prop :=
  s.origin ≤ low * size ∧ high * size ≤ s.origin + s.length

theorem clamp01_mem (n : ℚ) : 0 ≤ clamp01 n ∧ clamp01 n ≤ 1 :=
  ⟨le_max_left _ _, max_le (by norm_num) (min_le_left _ _)⟩

theorem inside_cropSpan (r : Rounding) {size : ℕ} (hsize : 1 ≤ size) (low high : ℚ) :
    (cropSpan r size low high).Inside size := by
  rw [cropSpan]
  set start := clamp01 (r.round (low - r.round CROP_PADDING))
  have hstart : 0 ≤ start * size := mul_nonneg (clamp01_mem _).1 (Nat.cast_nonneg _)
  have hfloor : 0 ≤ ⌊r.round (start * size)⌋ := Int.floor_nonneg.mpr (r.nonneg _ hstart)
  dsimp only [Span.Inside]
  omega

/-- The start of the padded region, far enough from the end of the page for its pixel. -/
theorem floor_start_le {size : ℕ} (hsize : 50 ≤ size) {low : ℚ} (hhigh : low ≤ 1) :
    ⌊clamp01 (low - CROP_PADDING) * size⌋ ≤ size - 1 := by
  have hpage : (50 : ℚ) ≤ size := by exact_mod_cast hsize
  have hstart : clamp01 (low - CROP_PADDING) ≤ 49 / 50 := by
    rw [clamp01, CROP_PADDING]
    exact max_le (by norm_num) ((min_le_right _ _).trans (by linarith))
  have hprod : clamp01 (low - CROP_PADDING) * size ≤ size - 1 := by nlinarith
  have hfloor : (⌊clamp01 (low - CROP_PADDING) * size⌋ : ℚ) ≤ size - 1 :=
    (Int.floor_le _).trans hprod
  exact_mod_cast hfloor

/-- The padding is more than what rounding the origin down takes away. -/
theorem le_origin_add_ceil {size : ℕ} (hsize : 50 ≤ size) {start high : ℚ} (hhigh : 0 ≤ high)
    (hceil : ⌈(clamp01 (high + CROP_PADDING) - start) * size⌉ < size - ⌊start * size⌋) :
    high * size ≤ ⌊start * size⌋ + ⌈(clamp01 (high + CROP_PADDING) - start) * size⌉ := by
  have hpage : (50 : ℚ) ≤ size := by exact_mod_cast hsize
  have hfloor : start * size < ⌊start * size⌋ + 1 := Int.lt_floor_add_one _
  have hle := Int.le_ceil ((clamp01 (high + CROP_PADDING) - start) * size)
  by_cases hend : 1 ≤ high + CROP_PADDING
  · -- clamped to the end of the page, the span would reach it
    have hstop : clamp01 (high + CROP_PADDING) = 1 := by
      rw [clamp01, min_eq_left hend, max_eq_right (by norm_num)]
    have hcast : (⌈(clamp01 (high + CROP_PADDING) - start) * size⌉ : ℚ) + 1 ≤
        size - ⌊start * size⌋ := by
      exact_mod_cast hceil
    rw [hstop] at hle hcast
    linarith
  · have hstop : clamp01 (high + CROP_PADDING) = high + 1 / 50 := by
      have hlt := not_le.mp hend
      rw [CROP_PADDING] at hlt ⊢
      rw [clamp01, min_eq_right hlt.le, max_eq_right (by linarith)]
    rw [hstop] at hle ⊢
    nlinarith

theorem holds_cropSpan {size : ℕ} (hsize : 50 ≤ size) {low high : ℚ} (hlow : 0 ≤ low)
    (hle : low ≤ high) (hhigh : high ≤ 1) :
    (cropSpan .exact size low high).Holds size low high := by
  have hpage : (0 : ℚ) ≤ size := Nat.cast_nonneg _
  have horigin : (cropSpan .exact size low high).origin =
      ⌊clamp01 (low - CROP_PADDING) * size⌋ :=
    min_eq_left (floor_start_le hsize (hle.trans hhigh))
  have hlength : min ⌈(clamp01 (high + CROP_PADDING) - clamp01 (low - CROP_PADDING)) * size⌉
      (size - (cropSpan .exact size low high).origin) ≤ (cropSpan .exact size low high).length :=
    le_max_right _ _
  rw [horigin] at hlength
  constructor
  · have hstart : clamp01 (low - CROP_PADDING) ≤ low := by
      rw [clamp01, CROP_PADDING]
      exact max_le hlow ((min_le_right _ _).trans (by linarith))
    rw [horigin]
    exact (Int.floor_le _).trans (mul_le_mul_of_nonneg_right hstart hpage)
  · rw [horigin]
    rcases le_or_gt (size - ⌊clamp01 (low - CROP_PADDING) * size⌋ : ℤ)
      ⌈(clamp01 (high + CROP_PADDING) - clamp01 (low - CROP_PADDING)) * size⌉ with hfull | hceil
    · rw [min_eq_right hfull] at hlength
      have hcast : (size - ⌊clamp01 (low - CROP_PADDING) * size⌋ : ℚ) ≤
          (cropSpan .exact size low high).length := by
        exact_mod_cast hlength
      have hprod : high * size ≤ size := mul_le_of_le_one_left hpage hhigh
      linarith
    · rw [min_eq_left hceil.le] at hlength
      have hcast : (⌈(clamp01 (high + CROP_PADDING) - clamp01 (low - CROP_PADDING)) * size⌉ : ℚ) ≤
          (cropSpan .exact size low high).length := by
        exact_mod_cast hlength
      have hreach := le_origin_add_ceil hsize (hlow.trans hle) hceil
      linarith

def Rectangle.Inside (rect : Rectangle) (width height : ℕ) : Prop :=
  rect.horizontal.Inside width ∧ rect.vertical.Inside height

/-- The rectangle holds a region of the page. -/
def Rectangle.Holds (rect : Rectangle) (width height : ℕ) (bbox : Bbox) : Prop :=
  rect.horizontal.Holds width bbox.1 bbox.2.2.1 ∧ rect.vertical.Holds height bbox.2.1 bbox.2.2.2

/-- `0 ≤ x0 ≤ x1 ≤ 1` and `0 ≤ y0 ≤ y1 ≤ 1`. -/
structure OnPage (bbox : Bbox) : Prop where
  horizontal : 0 ≤ bbox.1 ∧ bbox.1 ≤ bbox.2.2.1 ∧ bbox.2.2.1 ≤ 1
  vertical : 0 ≤ bbox.2.1 ∧ bbox.2.1 ≤ bbox.2.2.2 ∧ bbox.2.2.2 ≤ 1

/-- What is extracted is a rectangle inside the image that is not empty, however the arithmetic is
rounded, and exact arithmetic keeps the whole region of a page that is large enough. -/
theorem crop_geometry :
    (∀ (r : Rounding) (imaging : Imaging) (pageImage : Buffer) (width height : ℕ) (bbox : Bbox),
      imaging.metadata pageImage = .ok (some width, some height) → 1 ≤ width → 1 ≤ height →
        cropRegion r imaging pageImage bbox =
          extractRectangle imaging pageImage (cropRectangle r width height bbox)) ∧
    (∀ (width height : ℕ) (bbox : Bbox), 50 ≤ width → 50 ≤ height → OnPage bbox →
      (cropRectangle .exact width height bbox).Inside width height ∧
        (cropRectangle .exact width height bbox).Holds width height bbox) ∧
    ∀ (r : Rounding) (width height : ℕ) (bbox : Bbox), 1 ≤ width → 1 ≤ height →
      (cropRectangle r width height bbox).Inside width height := by
  have hinside : ∀ (r : Rounding) (width height : ℕ) (bbox : Bbox), 1 ≤ width → 1 ≤ height →
      (cropRectangle r width height bbox).Inside width height :=
    fun r width height bbox hwidth hheight =>
      ⟨inside_cropSpan r hwidth _ _, inside_cropSpan r hheight _ _⟩
  refine ⟨fun r _ _ _ _ bbox hsize hwidth hheight => cropRegion_eq r hsize hwidth hheight bbox,
    fun width height bbox hwidth hheight hpage => ⟨?_, ?_⟩, hinside⟩
  · exact hinside .exact width height bbox (by omega) (by omega)
  · obtain ⟨⟨hx, hxs, hx'⟩, hy, hys, hy'⟩ := hpage
    exact ⟨holds_cropSpan hwidth hx hxs hx', holds_cropSpan hheight hy hys hy'⟩

/-- A whole page of 50 by 60 is cropped to itself. -/
theorem crop_geometry_page : cropRectangle .exact 50 60 (0, 0, 1, 1) = ⟨⟨0, 50⟩, ⟨0, 60⟩⟩ ∧
    (cropRectangle .exact 50 60 (0, 0, 1, 1)).Holds 50 60 (0, 0, 1, 1) := by
  refine ⟨by decide +kernel,
    (crop_geometry.2.1 50 60 (0, 0, 1, 1) (by norm_num) (by norm_num) ?_).2⟩
  constructor
  · norm_num
  · norm_num

end HeirsOcr.Signing
