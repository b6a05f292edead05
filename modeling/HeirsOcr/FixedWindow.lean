import Mathlib.Tactic

/-!
# Counted hits

A counter for every key, and hits that say how far their counter may count. A hit is admitted while
its counter, the hit included, is within its maximum, so of the hits with one key and one maximum no
more are admitted than the maximum says, and hits on other keys are of no consequence. A key stands
for a window of time when it holds the window's number.
-/
namespace HeirsOcr.FixedWindow

variable {κ : Type*} [DecidableEq κ]

/-- A hit on the counter of a key. One that is not asked is counted, but nobody looks at its
decision. -/
structure Hit (κ : Type*) where
  key : κ
  max : ℤ
  asked : Bool
  deriving DecidableEq

/-- Whether a hit is within its maximum, given the keys hit before. -/
def admits (before : List κ) (h : Hit κ) : Bool := decide ((before.count h.key : ℤ) < h.max)

/-- The hits with their decisions. -/
def decisions : List κ → List (Hit κ) → List (Hit κ × Bool)
  | _, [] => []
  | before, h :: rest => (h, admits before h) :: decisions (before ++ [h.key]) rest

/-- An admitted hit with a key and a maximum. -/
def isAdmitted (key : κ) (max : ℤ) (d : Hit κ × Bool) : Bool :=
  d.1.key = key && d.1.max = max && d.1.asked && d.2

@[simp] theorem decisions_nil (before : List κ) : decisions before [] = [] := rfl

@[simp] theorem map_fst_decisions (before : List κ) (hits : List (Hit κ)) :
    (decisions before hits).map Prod.fst = hits := by
  induction hits generalizing before with
  | nil => rfl
  | cons h rest ih => rw [decisions, List.map_cons, ih]

@[simp] theorem length_decisions (before : List κ) (hits : List (Hit κ)) :
    (decisions before hits).length = hits.length := by
  rw [← List.length_map Prod.fst, map_fst_decisions]

theorem decisions_append (before : List κ) (hits later : List (Hit κ)) :
    decisions before (hits ++ later) =
      decisions before hits ++ decisions (before ++ hits.map Hit.key) later := by
  induction hits generalizing before with
  | nil => simp
  | cons h rest ih =>
    rw [List.cons_append, decisions, decisions, ih, List.map_cons, List.append_assoc]
    rfl

/-- The decision of a hit is by the hits before it. -/
theorem getElem?_decisions (hits later : List (Hit κ)) (h : Hit κ) :
    (decisions [] (hits ++ h :: later))[hits.length]? = some (h, admits (hits.map Hit.key) h) := by
  rw [decisions_append, List.getElem?_append_right (by simp), length_decisions, Nat.sub_self]
  rfl

/-- Decisions on some of the keys are those of the hits on them alone. -/
theorem filter_decisions (p : κ → Bool) (before : List κ) (hits : List (Hit κ)) :
    (decisions before hits).filter (fun d => p d.1.key) =
      decisions (before.filter p) (hits.filter fun h => p h.key) := by
  induction hits generalizing before with
  | nil => rfl
  | cons h rest ih =>
    rw [decisions, List.filter_cons, List.filter_cons]
    by_cases hp : p h.key = true
    · have hcount : (before.filter p).count h.key = before.count h.key := List.count_filter hp
      rw [if_pos hp, if_pos hp, decisions, ih, List.filter_append, List.filter_cons_of_pos hp,
        List.filter_nil, admits, admits, hcount]
    · rw [if_neg hp, if_neg hp, ih, List.filter_append, List.filter_cons_of_neg hp,
        List.filter_nil, List.append_nil]

/-- No more hits with a key and a maximum are admitted than the maximum leaves. -/
theorem countP_isAdmitted_le (key : κ) (max : ℤ) (before : List κ) (hits : List (Hit κ)) :
    (decisions before hits).countP (isAdmitted key max) ≤ max.toNat - before.count key := by
  induction hits generalizing before with
  | nil => simp
  | cons h rest ih =>
    have hrest := ih (before ++ [h.key])
    rw [List.count_append] at hrest
    rw [decisions, List.countP_cons]
    by_cases hkey : h.key = key
    · subst hkey
      rw [List.count_singleton_self] at hrest
      split_ifs with hadmitted
      · simp only [isAdmitted, admits, Bool.and_eq_true, decide_eq_true_eq] at hadmitted
        omega
      · omega
    · have hnone : [h.key].count key = 0 := List.count_eq_zero.mpr (by simpa using Ne.symm hkey)
      have hnot : isAdmitted key max (h, admits before h) = false := by simp [isAdmitted, hkey]
      rw [hnone] at hrest
      rw [hnot, if_neg Bool.false_ne_true]
      omega

/-- Of asked hits with one maximum as many are admitted as it leaves. -/
theorem countP_isAdmitted_eq {max : ℤ} (key : κ) (before : List κ) {hits : List (Hit κ)}
    (h : ∀ hit ∈ hits, hit.max = max ∧ hit.asked = true) :
    (decisions before hits).countP (isAdmitted key max) =
      min (max.toNat - before.count key) (hits.countP fun hit => hit.key = key) := by
  induction hits generalizing before with
  | nil => simp
  | cons hit rest ih =>
    obtain ⟨hmax, hasked⟩ := h hit List.mem_cons_self
    have hrest := ih (before ++ [hit.key]) fun hit hmem => h hit (List.mem_cons_of_mem _ hmem)
    rw [List.count_append] at hrest
    rw [decisions, List.countP_cons, List.countP_cons, hrest]
    by_cases hkey : hit.key = key
    · subst hkey
      have hself : isAdmitted hit.key max (hit, admits before hit) = admits before hit := by
        simp [isAdmitted, hmax, hasked]
      rw [List.count_singleton_self, hself]
      simp only [admits, hmax, decide_eq_true_eq, if_true]
      split_ifs
      · omega
      · omega
    · have hnone : [hit.key].count key = 0 := List.count_eq_zero.mpr (by simpa using Ne.symm hkey)
      simp [isAdmitted, hkey, hnone]

end HeirsOcr.FixedWindow
