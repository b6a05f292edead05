import Mathlib.Tactic

/-!
# Rows of bits

The bits of a number from the highest of a width down, and lists of numbers of one width as one
row. A row cut into groups of one width, with less than a group left over, gives the groups back,
so an encoder and a decoder that regroup the same row agree.
-/
namespace HeirsOcr.BitRows

/-- The bits below `width`, the highest first. -/
def row (width : ℕ) (bit : ℕ → Bool) : List Bool := ((List.range width).map bit).reverse

variable {α : Type*}

/-- The rows of a list one after the other. -/
def rows (width : ℕ) (bits : α → ℕ → Bool) (l : List α) : List Bool :=
  l.flatMap fun a => row width (bits a)

@[simp] theorem length_row (width : ℕ) (bit : ℕ → Bool) : (row width bit).length = width := by
  simp [row]

@[simp] theorem row_zero (bit : ℕ → Bool) : row 0 bit = [] := rfl

/-- A row is its high bits and its low bits. -/
theorem row_add (m n : ℕ) (bit : ℕ → Bool) :
    row (m + n) bit = row m (fun i => bit (n + i)) ++ row n bit := by
  rw [row, Nat.add_comm, List.range_add, List.map_append, List.reverse_append, List.map_map]
  rfl

theorem row_congr {width : ℕ} {bit bit' : ℕ → Bool} (h : ∀ i < width, bit i = bit' i) :
    row width bit = row width bit' := by
  have hmap : (List.range width).map bit = (List.range width).map bit' :=
    List.map_congr_left fun i hi => h i (List.mem_range.mp hi)
  rw [row, row, hmap]

theorem eq_of_row_eq {width : ℕ} {bit bit' : ℕ → Bool} (h : row width bit = row width bit') :
    ∀ i < width, bit i = bit' i := by
  intro i hi
  exact List.map_inj_left.mp (List.reverse_injective h) i (List.mem_range.mpr hi)

section Rows

variable {width : ℕ} {bits : α → ℕ → Bool}

@[simp] theorem rows_nil : rows width bits [] = [] := rfl

@[simp] theorem rows_cons (a : α) (l : List α) :
    rows width bits (a :: l) = row width (bits a) ++ rows width bits l := List.flatMap_cons

@[simp] theorem rows_append (l l' : List α) :
    rows width bits (l ++ l') = rows width bits l ++ rows width bits l' := List.flatMap_append

@[simp] theorem rows_singleton (a : α) : rows width bits [a] = row width (bits a) := by
  rw [rows_cons, rows_nil, List.append_nil]

/-- Groups are read off a row that is longer than they are by less than a group. -/
theorem eq_of_rows_append (hinj : ∀ a b, (∀ i < width, bits a i = bits b i) → a = b)
    {l l' : List α} {rest rest' : List Bool} (hrest : rest.length < width)
    (hrest' : rest'.length < width)
    (h : rows width bits l ++ rest = rows width bits l' ++ rest') : l = l' := by
  induction l generalizing l' with
  | nil =>
    cases l' with
    | nil => rfl
    | cons b l' =>
      have hlength := congrArg List.length h
      simp only [rows_nil, rows_cons, List.nil_append, List.length_append, length_row] at hlength
      omega
  | cons a l ih =>
    cases l' with
    | nil =>
      have hlength := congrArg List.length h
      simp only [rows_nil, rows_cons, List.nil_append, List.length_append, length_row] at hlength
      omega
    | cons b l' =>
      rw [rows_cons, rows_cons, List.append_assoc, List.append_assoc] at h
      obtain ⟨hrow, htail⟩ := List.append_inj h (by rw [length_row, length_row])
      rw [hinj a b (eq_of_row_eq hrow), ih htail]

end Rows

end HeirsOcr.BitRows
