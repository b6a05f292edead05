import Mathlib.Tactic

/-!
# Counting in buckets

A loop that steps through the starts of buckets, and what is counted when every element of a
list falls into one of them.
-/
namespace HeirsOcr.Buckets

/-- `for (t = first; t <= last; t += step)`. -/
def startsFrom (step : ℤ) (hstep : 0 < step) (t last : ℤ) : List ℤ :=
  if t ≤ last then t :: startsFrom step hstep (t + step) last else []
termination_by (last + 1 - t).toNat
decreasing_by omega

section Starts

variable {step : ℤ} {hstep : 0 < step} {t last x : ℤ}

theorem startsFrom_of_le (h : t ≤ last) :
    startsFrom step hstep t last = t :: startsFrom step hstep (t + step) last := by
  rw [startsFrom, if_pos h]

theorem startsFrom_of_lt (h : last < t) : startsFrom step hstep t last = [] := by
  rw [startsFrom, if_neg (not_le.mpr h)]

/-- The starts are what the steps reach up to the last instant. -/
theorem mem_startsFrom :
    x ∈ startsFrom step hstep t last ↔ step ∣ x - t ∧ t ≤ x ∧ x ≤ last := by
  fun_induction startsFrom step hstep t last with
  | case1 t hle ih =>
    rw [List.mem_cons, ih]
    constructor
    · rintro (rfl | ⟨hdvd, hlow, hhigh⟩)
      · exact ⟨by simp, le_rfl, hle⟩
      · refine ⟨?_, by omega, hhigh⟩
        have hsum : x - t = (x - (t + step)) + step := by ring
        rw [hsum]
        exact dvd_add hdvd (dvd_refl step)
    · rintro ⟨hdvd, hlow, hhigh⟩
      by_cases hx : x = t
      · exact Or.inl hx
      · right
        have hpos : step ≤ x - t := Int.le_of_dvd (by omega) hdvd
        refine ⟨?_, by omega, hhigh⟩
        have hdiff : x - (t + step) = (x - t) - step := by ring
        rw [hdiff]
        exact dvd_sub hdvd (dvd_refl step)
  | case2 t hlt =>
    constructor
    · intro hmem
      cases hmem
    · rintro ⟨-, hlow, hhigh⟩
      omega

/-- Each start is one step behind the one before. -/
theorem isChain_startsFrom :
    (startsFrom step hstep t last).IsChain fun a b => b = a + step := by
  fun_induction startsFrom step hstep t last with
  | case1 t hle ih =>
    rw [List.isChain_cons]
    refine ⟨?_, ih⟩
    intro b hb
    by_cases hnext : t + step ≤ last
    · rw [startsFrom_of_le hnext, List.head?_cons, Option.mem_some_iff] at hb
      exact hb.symm
    · rw [startsFrom_of_lt (not_le.mp hnext)] at hb
      cases hb
  | case2 t hlt => exact List.isChain_nil

theorem nodup_startsFrom : (startsFrom step hstep t last).Nodup := by
  fun_induction startsFrom step hstep t last with
  | case1 t hle ih =>
    rw [List.nodup_cons]
    refine ⟨?_, ih⟩
    intro hmem
    obtain ⟨-, hlow, -⟩ := mem_startsFrom.mp hmem
    omega
  | case2 t hlt => exact List.nodup_nil

/-- The last start is less than a step before the end. -/
theorem getLast_startsFrom (h : t ≤ last) :
    ∃ final ∈ (startsFrom step hstep t last).getLast?, last < final + step := by
  fun_induction startsFrom step hstep t last with
  | case1 t hle ih =>
    by_cases hnext : t + step ≤ last
    · obtain ⟨final, hfinal, hlt⟩ := ih hnext
      refine ⟨final, ?_, hlt⟩
      rw [startsFrom_of_le hnext] at hfinal ⊢
      exact hfinal
    · rw [startsFrom_of_lt (not_le.mp hnext)]
      exact ⟨t, rfl, not_le.mp hnext⟩
  | case2 t hlt => exact absurd h hlt

end Starts

section Counting

variable {α κ : Type*} [DecidableEq κ]

/-- One bucket of a list is that of a key in it. -/
theorem sum_indicator {buckets : List κ} (hnodup : buckets.Nodup) (x : κ) (q : Bool) :
    (buckets.map fun k => if x = k ∧ q = true then 1 else 0).sum =
      if x ∈ buckets ∧ q = true then 1 else 0 := by
  induction buckets with
  | nil => simp
  | cons k buckets ih =>
    obtain ⟨hk, hnodup⟩ := List.nodup_cons.mp hnodup
    rw [List.map_cons, List.sum_cons, ih hnodup]
    by_cases hx : x = k
    · subst hx
      simp [hk]
    · simp [hx]

/-- Elements are counted once each when every key is among the buckets. -/
theorem sum_countP_of_mem (key : α → κ) (p : α → Bool) {buckets : List κ}
    (hnodup : buckets.Nodup) {l : List α} (hmem : ∀ a ∈ l, key a ∈ buckets) :
    (buckets.map fun k => (l.filter fun a => key a = k).countP p).sum = l.countP p := by
  induction l with
  | nil => simp
  | cons a l ih =>
    have hsplit : ∀ k, ((a :: l).filter fun a => key a = k).countP p =
        (l.filter fun a => key a = k).countP p + if key a = k ∧ p a = true then 1 else 0 := by
      intro k
      by_cases hk : key a = k
      · simp [hk, List.countP_cons]
      · simp [hk]
    have hone := sum_indicator hnodup (key a) (p a)
    rw [if_congr (and_iff_right (hmem a List.mem_cons_self)) rfl rfl] at hone
    simp only [hsplit]
    rw [List.sum_map_add, ih fun b hb => hmem b (List.mem_cons_of_mem a hb), hone,
      List.countP_cons]

end Counting

end HeirsOcr.Buckets
