import Mathlib.Tactic

/-!
# Runs

The longest stretches of a list whose elements are of one kind, as a scanner cuts them out. What
is of no kind lies between.
-/
namespace HeirsOcr.Runs

variable {α κ : Type*} [DecidableEq κ] (kind : α → Option κ)

def runs : List α → List (List α)
  | [] => []
  | a :: as =>
    match kind a with
    | none => runs as
    | some k =>
      if as.head?.bind kind = some k then
        match runs as with
        | [] => [[a]]
        | r :: rs => (a :: r) :: rs
      else [a] :: runs as

variable {kind}

@[simp] theorem runs_nil : runs kind [] = [] := rfl

theorem runs_cons_none {a : α} (h : kind a = none) (as : List α) :
    runs kind (a :: as) = runs kind as := by
  rw [runs, h]

theorem runs_singleton_append {a : α} {k : κ} (h : kind a = some k) {as : List α}
    (hend : as.head?.bind kind ≠ some k) : runs kind (a :: as) = [a] :: runs kind as := by
  rw [runs, h]
  exact if_neg hend

/-- What is of no kind is passed over. -/
theorem runs_gap {gap : List α} (h : ∀ a ∈ gap, kind a = none) (rest : List α) :
    runs kind (gap ++ rest) = runs kind rest := by
  induction gap with
  | nil => rfl
  | cons a gap ih =>
    rw [List.cons_append, runs_cons_none (h a List.mem_cons_self),
      ih fun b hb => h b (List.mem_cons_of_mem a hb)]

/-- A run comes out whole when what follows it is of another kind. -/
theorem runs_run {k : κ} {run rest : List α} (hne : run ≠ []) (hrun : ∀ a ∈ run, kind a = some k)
    (hend : rest.head?.bind kind ≠ some k) : runs kind (run ++ rest) = run :: runs kind rest := by
  induction run with
  | nil => exact absurd rfl hne
  | cons a run ih =>
    have ha := hrun a List.mem_cons_self
    cases run with
    | nil => exact runs_singleton_append ha hend
    | cons b run =>
      have hb := hrun b (by simp)
      have hrest := ih (List.cons_ne_nil b run) fun c hc => hrun c (List.mem_cons_of_mem a hc)
      rw [List.cons_append, runs, ha, hrest]
      simp [hb]

theorem runs_run_end {k : κ} {run : List α} (hne : run ≠ []) (hrun : ∀ a ∈ run, kind a = some k) :
    runs kind run = [run] := by
  have hend : ([] : List α).head?.bind kind ≠ some k := by simp
  have hwhole := runs_run hne hrun hend
  rwa [List.append_nil, runs_nil] at hwhole

/-- A run, a gap and the rest: the gap may be empty when the rest begins with another kind. -/
theorem runs_run_gap {k : κ} {run gap rest : List α} (hne : run ≠ [])
    (hrun : ∀ a ∈ run, kind a = some k) (hgap : ∀ a ∈ gap, kind a = none)
    (hend : gap ≠ [] ∨ rest.head?.bind kind ≠ some k) :
    runs kind (run ++ (gap ++ rest)) = run :: runs kind rest := by
  rw [runs_run hne hrun, runs_gap hgap]
  cases gap with
  | nil => simpa using hend
  | cons a gap => simp [hgap a List.mem_cons_self]

end HeirsOcr.Runs
