import Mathlib.Data.List.Dedup
import Mathlib.Data.List.Perm.Lattice
import Mathlib.Data.List.Sort
import Mathlib.Data.Multiset.Basic
import Mathlib.Order.Basic

/-!
# Sorting group by group

A list is cut into groups by a key, the groups are taken in the order of their keys, and each is
sorted stably by a rank of its own. What comes out is the whole list in the order of key and rank,
and elements of the same key and rank stay as they came.
-/
namespace HeirsOcr.GroupedSort

variable {α β γ : Type*} [LinearOrder β] [LinearOrder γ]

/-- A stable sort, smallest rank first. -/
def sortBy (rank : α → γ) (l : List α) : List α :=
  l.mergeSort fun a b => decide (rank a ≤ rank b)

section SortBy

variable (rank : α → γ) (l : List α)

theorem sortBy_perm : (sortBy rank l).Perm l := List.mergeSort_perm l _

theorem decide_le_trans (a b c : α) : decide (rank a ≤ rank b) → decide (rank b ≤ rank c) →
    decide (rank a ≤ rank c) := by
  simp only [decide_eq_true_eq]
  exact le_trans

theorem decide_le_total (a b : α) : decide (rank a ≤ rank b) || decide (rank b ≤ rank a) := by
  simp only [Bool.or_eq_true, decide_eq_true_eq]
  exact le_total _ _

theorem pairwise_sortBy : (sortBy rank l).Pairwise fun a b => rank a ≤ rank b := by
  simpa [sortBy] using List.pairwise_mergeSort (decide_le_trans rank) (decide_le_total rank) l

/-- What has one rank stays in its order. -/
theorem filter_sortBy {p : α → Bool} (hp : ∀ a b, p a → p b → rank a = rank b) :
    (sortBy rank l).filter p = l.filter p := by
  have hequal : (l.filter p).Pairwise fun a b => decide (rank a ≤ rank b) = true := by
    apply List.pairwise_of_forall_mem_list
    intro a ha b hb
    rw [decide_eq_true_eq]
    exact (hp a b (List.mem_filter.mp ha).2 (List.mem_filter.mp hb).2).le
  have hsub : (l.filter p).Sublist (sortBy rank l) :=
    List.sublist_mergeSort (decide_le_trans rank) (decide_le_total rank) hequal
      List.filter_sublist
  have hfiltered : (l.filter p).Sublist ((sortBy rank l).filter p) := by
    simpa only [List.filter_filter, Bool.and_self] using hsub.filter p
  exact (hfiltered.eq_of_length ((sortBy_perm rank l).filter p).length_eq.symm).symm

end SortBy

section Groups

variable (key : α → β)

/-- The keys of a list, each once, smallest first. -/
def groups (l : List α) : List β := sortBy id (l.map key).dedup

@[simp] theorem mem_groups {l : List α} {k : β} : k ∈ groups key l ↔ ∃ a ∈ l, key a = k := by
  rw [groups, (sortBy_perm id _).mem_iff, List.mem_dedup, List.mem_map]

@[simp] theorem groups_nil : groups key ([] : List α) = [] := by simp [groups, sortBy]

theorem pairwise_groups (l : List α) : (groups key l).Pairwise (· < ·) := by
  have hnodup : (groups key l).Nodup :=
    (sortBy_perm id _).nodup_iff.mpr (List.nodup_dedup _)
  exact ((pairwise_sortBy id (l.map key).dedup).and hnodup).imp fun ⟨hle, hne⟩ =>
    lt_of_le_of_ne hle hne

/-- A list with the same elements has the same groups. -/
theorem groups_congr {l l' : List α} (h : l.Perm l') : groups key l = groups key l' := by
  apply List.Perm.eq_of_pairwise _ (pairwise_groups key l) (pairwise_groups key l')
  · have hdedup : (l.map key).dedup.Perm (l'.map key).dedup := (h.map key).dedup
    exact ((sortBy_perm id _).trans hdedup).trans (sortBy_perm id _).symm
  · intro a b _ _ hab hba
    exact absurd hab hba.not_gt

theorem nodup_groups (l : List α) : (groups key l).Nodup :=
  (pairwise_groups key l).imp ne_of_lt

/-- The groups of some keys hold together what has one of these keys. -/
theorem flatMap_filter_perm {ks : List β} (h : ks.Nodup) (l : List α) :
    (ks.flatMap fun k => l.filter fun a => key a = k).Perm (l.filter fun a => key a ∈ ks) := by
  induction ks with
  | nil => simp
  | cons k ks ih =>
    obtain ⟨hk, hnodup⟩ := List.nodup_cons.mp h
    rw [List.flatMap_cons]
    have hfirst : (l.filter fun a => key a ∈ k :: ks).filter (fun a => key a = k) =
        l.filter fun a => key a = k := by
      rw [List.filter_filter]
      apply List.filter_congr
      intro a _
      by_cases ha : key a = k
      · simp [ha]
      · simp [ha]
    have hrest : (l.filter fun a => key a ∈ k :: ks).filter (fun a => !decide (key a = k)) =
        l.filter fun a => key a ∈ ks := by
      rw [List.filter_filter]
      apply List.filter_congr
      intro a _
      by_cases ha : key a = k
      · simp [ha, hk]
      · simp [ha]
    refine ((ih hnodup).append_left _).trans ?_
    rw [← hfirst, ← hrest]
    exact List.filter_append_perm _ _

end Groups

section GroupedSort

variable (key : α → β) (rank : β → α → γ)

def groupedSort (l : List α) : List α :=
  (groups key l).flatMap fun k => sortBy (rank k) (l.filter fun a => key a = k)

/-- A list with the elements of `l` in the order of key and rank, and ties as they came. -/
structure InOrder (l sorted : List α) : Prop where
  perm : sorted.Perm l
  ordered : sorted.Pairwise fun a b =>
    key a < key b ∨ key a = key b ∧ rank (key a) a ≤ rank (key a) b
  stable : ∀ k r, sorted.filter (fun a => key a = k ∧ rank k a = r) =
    l.filter fun a => key a = k ∧ rank k a = r

theorem groupedSort_perm (l : List α) : (groupedSort key rank l).Perm l := by
  have hsorted : (groupedSort key rank l).Perm
      ((groups key l).flatMap fun k => l.filter fun a => key a = k) :=
    List.Perm.flatMap_left _ fun k _ => sortBy_perm (rank k) _
  refine hsorted.trans ((flatMap_filter_perm key (nodup_groups key l) l).trans ?_)
  rw [List.filter_eq_self.mpr]
  intro a ha
  simpa using ⟨a, ha, rfl⟩

/-- The part with one key is the sorted group. -/
theorem filter_groupedSort (l : List α) {k : β} (hk : k ∈ groups key l) :
    (groupedSort key rank l).filter (fun a => key a = k) =
      sortBy (rank k) (l.filter fun a => key a = k) := by
  have hpart : ∀ k', (sortBy (rank k') (l.filter fun a => key a = k')).filter
      (fun a => key a = k) =
        if k' = k then sortBy (rank k) (l.filter fun a => key a = k) else [] := by
    intro k'
    by_cases h : k' = k
    · subst h
      rw [if_pos rfl, List.filter_eq_self]
      intro a ha
      simpa using (List.mem_filter.mp ((sortBy_perm _ _).mem_iff.mp ha)).2
    · rw [if_neg h, List.filter_eq_nil_iff]
      intro a ha
      have hkey := (List.mem_filter.mp ((sortBy_perm _ _).mem_iff.mp ha)).2
      simp only [decide_eq_true_eq] at hkey ⊢
      rw [hkey]
      exact h
  rw [groupedSort, List.filter_flatMap]
  simp only [hpart]
  obtain ⟨before, behind, hsplit⟩ := List.append_of_mem hk
  have hnodup := nodup_groups key l
  rw [hsplit, List.nodup_middle, List.nodup_cons, List.mem_append, not_or] at hnodup
  obtain ⟨⟨hbefore, hbehind⟩, _⟩ := hnodup
  have hnone : ∀ ks : List β, k ∉ ks → (ks.flatMap fun k' =>
      if k' = k then sortBy (rank k) (l.filter fun a => key a = k) else []) = [] := by
    intro ks hks
    rw [List.flatMap_eq_nil_iff]
    intro k' hk'
    have hne : k' ≠ k := fun h => hks (h ▸ hk')
    exact if_neg hne
  rw [hsplit, List.flatMap_append, List.flatMap_cons, if_pos rfl, hnone _ hbefore,
    hnone _ hbehind, List.nil_append, List.append_nil]

theorem inOrder_groupedSort (l : List α) : InOrder key rank l (groupedSort key rank l) where
  perm := groupedSort_perm key rank l
  ordered := by
    rw [groupedSort, List.pairwise_flatMap]
    have hkey : ∀ k, ∀ a ∈ sortBy (rank k) (l.filter fun a => key a = k), key a = k := by
      intro k a ha
      simpa using (List.mem_filter.mp ((sortBy_perm _ _).mem_iff.mp ha)).2
    constructor
    · intro k _
      apply (pairwise_sortBy (rank k) _).imp_of_mem
      intro a b ha hb hle
      rw [hkey k a ha, hkey k b hb]
      exact .inr ⟨rfl, hle⟩
    · apply (pairwise_groups key l).imp
      intro k k' hlt a ha b hb
      rw [hkey k a ha, hkey k' b hb]
      exact .inl hlt
  stable := by
    intro k r
    by_cases hk : k ∈ groups key l
    · have hsplit : ∀ l' : List α, l'.filter (fun a => key a = k ∧ rank k a = r) =
          (l'.filter fun a => key a = k).filter fun a => rank k a = r := by
        intro l'
        rw [List.filter_filter]
        apply List.filter_congr
        intro a _
        simp [Bool.and_comm]
      rw [hsplit, hsplit, filter_groupedSort key rank l hk]
      apply filter_sortBy
      intro a b ha hb
      simp only [decide_eq_true_eq] at ha hb
      rw [ha, hb]
    · have hnone : ∀ a ∈ l, ¬key a = k := fun a ha h => hk ((mem_groups key).mpr ⟨a, ha, h⟩)
      rw [List.filter_eq_nil_iff.mpr, List.filter_eq_nil_iff.mpr]
      · intro a ha
        simp [hnone a ha]
      · intro a ha
        simp [hnone a ((groupedSort_perm key rank l).mem_iff.mp ha)]

end GroupedSort

end HeirsOcr.GroupedSort
