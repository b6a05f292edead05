import Mathlib.Data.List.Basic
import Mathlib.Data.Multiset.Basic
import Mathlib.Order.Basic

/-!
# The newest elements of a list

A listing of the `n` elements of a list with the greatest keys, greatest first. Sorting and
then cutting always makes one; cutting and then sorting makes one exactly when nothing that
the cut leaves out is newer than something it keeps.
-/
namespace HeirsOcr.Newest

variable {α : Type*} (key : α → ℤ)

/-- A stable sort, greatest key first. -/
def newestFirst (l : List α) : List α := l.mergeSort fun a b => decide (key b ≤ key a)

/-- `listed` holds the `n` newest elements of `l`, newest first: none is older than one left
out. -/
def IsNewest (n : ℕ) (l listed : List α) : Prop :=
  ∃ rest, (listed ++ rest).Perm l ∧ listed.length = min n l.length ∧
    listed.Pairwise (fun a b => key b ≤ key a) ∧ ∀ a ∈ listed, ∀ b ∈ rest, key b ≤ key a

theorem newestFirst_perm (l : List α) : (newestFirst key l).Perm l :=
  List.mergeSort_perm l _

@[simp] theorem mem_newestFirst {l : List α} {a : α} : a ∈ newestFirst key l ↔ a ∈ l :=
  (newestFirst_perm key l).mem_iff

@[simp] theorem length_newestFirst (l : List α) : (newestFirst key l).length = l.length :=
  (newestFirst_perm key l).length_eq

theorem pairwise_newestFirst (l : List α) :
    (newestFirst key l).Pairwise fun a b => key b ≤ key a := by
  have htrans : ∀ a b c, decide (key b ≤ key a) → decide (key c ≤ key b) →
      decide (key c ≤ key a) := by
    intro a b c hab hbc
    simp only [decide_eq_true_eq] at hab hbc ⊢
    omega
  have htotal : ∀ a b, decide (key b ≤ key a) || decide (key a ≤ key b) := by
    intro a b
    simp only [Bool.or_eq_true, decide_eq_true_eq]
    omega
  simpa [newestFirst] using List.pairwise_mergeSort htrans htotal l

/-- Sorting commutes with a map that keeps the keys. -/
theorem map_newestFirst {β : Type*} (f : α → β) (keyOf : β → ℤ) (h : ∀ a, keyOf (f a) = key a)
    (l : List α) : (newestFirst key l).map f = newestFirst keyOf (l.map f) := by
  apply List.map_mergeSort
  intro a _ b _
  simp only [h]

variable {key}

/-- Sort, then cut. -/
theorem isNewest_take_newestFirst (n : ℕ) (l : List α) :
    IsNewest key n l ((newestFirst key l).take n) := by
  have hsplit : (newestFirst key l).take n ++ (newestFirst key l).drop n = newestFirst key l :=
    List.take_append_drop n _
  have hpairs := pairwise_newestFirst key l
  rw [← hsplit, List.pairwise_append] at hpairs
  refine ⟨(newestFirst key l).drop n, ?_, ?_, hpairs.1, hpairs.2.2⟩
  · rw [hsplit]
    exact newestFirst_perm key l
  · rw [List.length_take, length_newestFirst]

/-- Whoever lists elements with the keys of the first `n`, the elements behind these are not
newer than one of them. -/
theorem IsNewest.drop_le {n : ℕ} {l listed : List α} (h : IsNewest key n l listed)
    (hkeys : (listed.map key).Perm ((l.take n).map key)) :
    ∀ a ∈ l.take n, ∀ b ∈ l.drop n, key b ≤ key a := by
  obtain ⟨rest, hperm, -, -, hle⟩ := h
  have hrest : (rest.map key).Perm ((l.drop n).map key) := by
    have hall : (listed.map key ++ rest.map key).Perm
        ((l.take n).map key ++ (l.drop n).map key) := by
      rw [← List.map_append, ← List.map_append, List.take_append_drop]
      exact hperm.map key
    exact (List.perm_append_left_iff _).mp ((hkeys.symm.append_right _).trans hall)
  intro a ha b hb
  obtain ⟨a', ha', hkeya⟩ := List.mem_map.mp (hkeys.mem_iff.mpr (List.mem_map_of_mem ha))
  obtain ⟨b', hb', hkeyb⟩ := List.mem_map.mp (hrest.mem_iff.mpr (List.mem_map_of_mem hb))
  rw [← hkeya, ← hkeyb]
  exact hle a' ha' b' hb'

/-- Cut, then sort. -/
theorem isNewest_newestFirst_take {n : ℕ} {l : List α}
    (h : ∀ a ∈ l.take n, ∀ b ∈ l.drop n, key b ≤ key a) :
    IsNewest key n l (newestFirst key (l.take n)) := by
  refine ⟨l.drop n, ?_, ?_, pairwise_newestFirst key _, ?_⟩
  · have hperm := (newestFirst_perm key (l.take n)).append_right (l.drop n)
    rwa [List.take_append_drop] at hperm
  · rw [length_newestFirst, List.length_take]
  · intro a ha b hb
    exact h a ((mem_newestFirst key).mp ha) b hb

end HeirsOcr.Newest
