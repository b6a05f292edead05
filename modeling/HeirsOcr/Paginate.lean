import HeirsOcr.PageParams
import Mathlib.Algebra.Order.Floor.Div

/-!
# Lists paged in memory

`paginate` slices a list that was read whole. The page asked for is clamped to the last one, and
an empty list has one page, which is empty.
-/
namespace HeirsOcr.Pagination

variable {α : Type*}

/-- The page and the size a request asks for. -/
structure PageRequest where
  page : ℕ
  pageSize : ℕ
  one_le_page : 1 ≤ page
  one_le_pageSize : 1 ≤ pageSize

/-- The request of a query. -/
def pageRequest (page pageSize : QueryValue) : PageRequest where
  page := asked page 1
  pageSize := askedSize pageSize
  one_le_page := one_le_asked le_rfl
  one_le_pageSize := le_min (one_le_asked (by norm_num)) (by norm_num)

/-- The request has the values the code reads from the query. -/
theorem pageParams_eq_pageRequest (page pageSize : QueryValue) :
    (pageParams page pageSize).page.val = (pageRequest page pageSize).page ∧
      (pageParams page pageSize).pageSize.val = (pageRequest page pageSize).pageSize :=
  ⟨page_val, pageSize_val⟩

structure Paginated (α : Type*) where
  items : List α
  page : ℕ
  pageSize : ℕ
  total : ℕ
  totalPages : ℕ
  deriving DecidableEq

/-- `items.slice(start, stop)`. -/
def slice (items : List α) (start stop : ℕ) : List α := (items.take stop).drop start

def paginate (items : List α) (p : PageRequest) : Paginated α :=
  let total := items.length
  let totalPages := max 1 (total ⌈/⌉ p.pageSize)
  let current := min p.page totalPages
  let start := (current - 1) * p.pageSize
  ⟨slice items start (start + p.pageSize), current, p.pageSize, total, totalPages⟩

theorem slice_length (items : List α) (start stop : ℕ) :
    (slice items start stop).length = min stop items.length - start := by
  rw [slice, List.length_drop, List.length_take]

/-- A slice goes on where the one before it stopped. -/
theorem take_append_slice (items : List α) {start stop : ℕ} (h : start ≤ stop) :
    items.take start ++ slice items start stop = items.take stop := by
  have htake : (items.take stop).take start = items.take start := by
    rw [List.take_take, min_eq_left h]
  rw [slice, ← htake, List.take_append_drop]

/-- Slices of one size, one after the other. -/
theorem flatMap_slice (items : List α) (size n : ℕ) :
    ((List.range n).flatMap fun i => slice items (i * size) (i * size + size)) =
      items.take (n * size) := by
  induction n with
  | zero => simp
  | succ n ih =>
    have hnext : (n + 1) * size = n * size + size := Nat.succ_mul n size
    rw [List.range_succ, List.flatMap_append, ih, List.flatMap_singleton, hnext]
    exact take_append_slice items (Nat.le_add_right _ _)

section Pages

variable (items : List α) (pageSize : ℕ) (hsize : 1 ≤ pageSize)

/-- The pages of a list, numbered from zero here. -/
def pageAt (i : ℕ) : Paginated α := paginate items ⟨i + 1, pageSize, Nat.le_add_left 1 i, hsize⟩

def totalPages : ℕ := max 1 (items.length ⌈/⌉ pageSize)

variable {items pageSize hsize}

/-- The number of a page, and its slice, up to the last one. -/
theorem pageAt_eq {i : ℕ} (h : i < totalPages items pageSize) :
    pageAt items pageSize hsize i =
      ⟨slice items (i * pageSize) (i * pageSize + pageSize), i + 1, pageSize, items.length,
        totalPages items pageSize⟩ := by
  have hcurrent : min (i + 1) (max 1 (items.length ⌈/⌉ pageSize)) = i + 1 := min_eq_left h
  simp only [pageAt, paginate, hcurrent, Nat.add_sub_cancel, totalPages]

/-- The pages hold the whole list. -/
theorem length_le_totalPages_mul (hsize : 1 ≤ pageSize) :
    items.length ≤ totalPages items pageSize * pageSize := by
  have hceil : items.length ≤ pageSize • (items.length ⌈/⌉ pageSize) := le_smul_ceilDiv hsize
  calc items.length ≤ pageSize * (items.length ⌈/⌉ pageSize) := hceil
    _ = items.length ⌈/⌉ pageSize * pageSize := Nat.mul_comm _ _
    _ ≤ totalPages items pageSize * pageSize :=
        Nat.mul_le_mul_right _ (le_max_right _ _)

/-- The pages before the last one are not enough. -/
theorem mul_lt_length {n : ℕ} (hsize : 1 ≤ pageSize) (hn : 1 ≤ n)
    (h : n < totalPages items pageSize) : n * pageSize < items.length := by
  have hceil : n < items.length ⌈/⌉ pageSize := by
    rw [totalPages] at h
    omega
  have hnot : ¬ items.length ≤ pageSize * n := fun hle =>
    absurd ((ceilDiv_le_iff_le_mul hsize).mpr hle) (Nat.not_le.mpr hceil)
  rw [Nat.mul_comm]
  exact Nat.not_le.mp hnot

end Pages

/-- The pages 1 to `totalPages` are the list, cut into full pages and a rest, and a page beyond
the last one is the last one. -/
structure PartitionsList (items : List α) (pageSize : ℕ) (hsize : 1 ≤ pageSize) : Prop where
  count : ∀ i, (pageAt items pageSize hsize i).totalPages = totalPages items pageSize
  concat : ((List.range (totalPages items pageSize)).flatMap fun i =>
    (pageAt items pageSize hsize i).items) = items
  full : ∀ i, i + 1 < totalPages items pageSize →
    (pageAt items pageSize hsize i).items.length = pageSize
  rest : (pageAt items pageSize hsize (totalPages items pageSize - 1)).items = [] → items = []
  number : ∀ i < totalPages items pageSize, (pageAt items pageSize hsize i).page = i + 1
  beyond : ∀ i, totalPages items pageSize ≤ i →
    pageAt items pageSize hsize i =
      pageAt items pageSize hsize (totalPages items pageSize - 1)

/-- Paging partitions the list. -/
theorem paginate_partitions (items : List α) (pageSize : ℕ) (hsize : 1 ≤ pageSize) :
    PartitionsList items pageSize hsize := by
  have hpages : 1 ≤ totalPages items pageSize := le_max_left _ _
  refine ⟨fun i => rfl, ?_, ?_, ?_, fun i hi => by rw [pageAt_eq hi], ?_⟩
  · have hslices : ((List.range (totalPages items pageSize)).flatMap fun i =>
        (pageAt items pageSize hsize i).items) =
        (List.range (totalPages items pageSize)).flatMap fun i =>
          slice items (i * pageSize) (i * pageSize + pageSize) := by
      apply List.flatMap_congr
      intro i hi
      rw [pageAt_eq (List.mem_range.mp hi)]
    rw [hslices, flatMap_slice]
    exact List.take_of_length_le (length_le_totalPages_mul hsize)
  · intro i hi
    have hlt : (i + 1) * pageSize < items.length := mul_lt_length hsize (Nat.le_add_left 1 i) hi
    rw [Nat.succ_mul] at hlt
    rw [pageAt_eq (Nat.lt_of_succ_lt hi), slice_length, min_eq_left hlt.le,
      Nat.add_sub_cancel_left]
  · intro hempty
    obtain ⟨n, hn⟩ := Nat.exists_eq_add_of_le' hpages
    have hlast : n < totalPages items pageSize := by omega
    rw [hn, Nat.add_sub_cancel, pageAt_eq hlast] at hempty
    have hlength := congrArg List.length hempty
    rw [slice_length, List.length_nil] at hlength
    by_contra hne
    have hpos : 0 < items.length := List.length_pos_iff.mpr hne
    rcases Nat.eq_zero_or_pos n with rfl | hnpos
    · omega
    · have hlt : n * pageSize < items.length := mul_lt_length hsize hnpos hlast
      omega
  · intro i hi
    have hcurrent : min (i + 1) (max 1 (items.length ⌈/⌉ pageSize)) =
        min (totalPages items pageSize - 1 + 1) (max 1 (items.length ⌈/⌉ pageSize)) := by
      rw [totalPages] at hi hpages ⊢
      omega
    simp only [pageAt, paginate, hcurrent]

theorem five_rows_partitioned : PartitionsList [1, 2, 3, 4, 5] 2 (by decide) :=
  paginate_partitions [1, 2, 3, 4, 5] 2 (by decide)

end HeirsOcr.Pagination
