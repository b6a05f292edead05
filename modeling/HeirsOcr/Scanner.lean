import Mathlib.Tactic

/-!
# Scanning for matches

All the matches of a pattern in a text, the leftmost first and each after the end of the one
before, as a global regular expression finds them. A pattern whose matches do not begin inside
one another is found wherever it stands.
-/
namespace HeirsOcr.Scanner

variable {α β : Type*} (m : List α → Option (β × ℕ))

/-- The matches that begin after the first elements. `m` is a match at the beginning of a list and
its length. -/
def scan : ℕ → List α → List β
  | _, [] => []
  | skip + 1, _ :: as => scan skip as
  | 0, a :: as =>
    match m (a :: as) with
    | some (b, n) => b :: scan (n - 1) as
    | none => scan 0 as

/-- No match begins inside another. -/
def Apart : Prop := ∀ as b n, m as = some (b, n) → ∀ i, 0 < i → i < n → m (as.drop i) = none

variable {m}

@[simp] theorem scan_nil (skip : ℕ) : scan m skip [] = [] := by
  cases skip with
  | zero => rfl
  | succ skip => rfl

theorem scan_cons_none {a : α} {as : List α} (h : m (a :: as) = none) :
    scan m 0 (a :: as) = scan m 0 as := by
  rw [scan, h]

theorem scan_skip {skip : ℕ} {as : List α} (h : ∀ i < skip, m (as.drop i) = none) :
    scan m skip as = scan m 0 as := by
  induction skip generalizing as with
  | zero => rfl
  | succ skip ih =>
    cases as with
    | nil => simp
    | cons a as =>
      have hrest : ∀ i < skip, m (as.drop i) = none := fun i hi => h (i + 1) (by omega)
      have hfirst := h 0 (by omega)
      rw [scan, ih hrest, scan_cons_none hfirst]

theorem scan_cons_some (hapart : Apart m) {a : α} {as : List α} {b : β} {n : ℕ}
    (h : m (a :: as) = some (b, n)) : scan m 0 (a :: as) = b :: scan m 0 as := by
  have hinside : ∀ i < n - 1, m (as.drop i) = none := fun i hi =>
    hapart _ b n h (i + 1) (by omega) (by omega)
  rw [scan, h]
  exact congrArg (b :: ·) (scan_skip hinside)

theorem getLast?_scan_cons (hapart : Apart m) (a : α) (as : List α) :
    (scan m 0 (a :: as)).getLast? =
      (scan m 0 as).getLast?.or ((m (a :: as)).map Prod.fst) := by
  cases h : m (a :: as) with
  | none => simp [scan_cons_none h]
  | some p =>
    rw [scan_cons_some hapart h, List.getLast?_cons]
    cases (scan m 0 as).getLast? with
    | none => rfl
    | some b => rfl

theorem getLast?_scan_eq_none_iff (hapart : Apart m) (hnil : m [] = none) {as : List α} :
    (scan m 0 as).getLast? = none ↔ ∀ before rest, as = before ++ rest → m rest = none := by
  induction as with
  | nil =>
    refine iff_of_true (by simp) fun before rest h => ?_
    rw [(List.append_eq_nil_iff.mp h.symm).2, hnil]
  | cons a as ih =>
    rw [getLast?_scan_cons hapart, Option.or_eq_none_iff, ih, Option.map_eq_none_iff]
    constructor
    · rintro ⟨hlater, hhere⟩ before rest h
      cases before with
      | nil =>
        rw [List.nil_append] at h
        exact h.symm ▸ hhere
      | cons x before => exact hlater before rest (List.cons.inj h).2
    · intro h
      exact ⟨fun before rest hsplit => h (a :: before) rest (by rw [hsplit, List.cons_append]),
        h [] (a :: as) rfl⟩

/-- The last match found is the last there is. -/
theorem getLast?_scan_eq_some_iff (hapart : Apart m) (hnil : m [] = none) {as : List α} {b : β} :
    (scan m 0 as).getLast? = some b ↔ ∃ before rest n, as = before ++ rest ∧
      m rest = some (b, n) ∧
      ∀ before' rest', as = before' ++ rest' → m rest' ≠ none →
        before'.length ≤ before.length := by
  induction as with
  | nil =>
    simp only [scan_nil, List.getLast?_nil, reduceCtorEq, false_iff]
    rintro ⟨before, rest, n, hsplit, hmatch, -⟩
    rw [(List.append_eq_nil_iff.mp hsplit.symm).2, hnil] at hmatch
    cases hmatch
  | cons a as ih =>
    rw [getLast?_scan_cons hapart, Option.or_eq_some_iff, ih,
      getLast?_scan_eq_none_iff hapart hnil]
    constructor
    · rintro (⟨before, rest, n, rfl, hmatch, hlast⟩ | ⟨hnone, hhere⟩)
      · refine ⟨a :: before, rest, n, rfl, hmatch, fun before' rest' hsplit hmatch' => ?_⟩
        cases before' with
        | nil => exact Nat.zero_le _
        | cons x before' =>
          exact Nat.succ_le_succ (hlast before' rest' (List.cons.inj hsplit).2 hmatch')
      · obtain ⟨⟨b', n⟩, hmatch, rfl⟩ := Option.map_eq_some_iff.mp hhere
        refine ⟨[], a :: as, n, rfl, hmatch, fun before' rest' hsplit hmatch' => ?_⟩
        cases before' with
        | nil => exact Nat.zero_le _
        | cons x before' => exact absurd (hnone before' rest' (List.cons.inj hsplit).2) hmatch'
    · rintro ⟨before, rest, n, hsplit, hmatch, hlast⟩
      cases before with
      | nil =>
        rw [List.nil_append] at hsplit
        subst hsplit
        refine .inr ⟨fun before' rest' hsplit' => ?_, by rw [hmatch]; rfl⟩
        by_contra hmatch'
        have hle := hlast (a :: before') rest' (by rw [hsplit', List.cons_append]) hmatch'
        simp at hle
      | cons x before =>
        obtain ⟨rfl, rfl⟩ := List.cons.inj hsplit
        refine .inl ⟨before, rest, n, rfl, hmatch, fun before' rest' hsplit' hmatch' => ?_⟩
        have hle := hlast (a :: before') rest' (by rw [hsplit', List.cons_append]) hmatch'
        simpa using hle

end HeirsOcr.Scanner
