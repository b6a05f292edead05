import HeirsOcr.StepMachine

/-!
# Two runs that differ in some actions

Two runs of one system are taken side by side: an action is common to both, or one run has it
alone. What the actions of the second kind are is a parameter, since a statement about such pairs
is about what they leave alone. The rule is that of unwinding: a relation between the states that
no action of one run alone disturbs, and that common actions keep.
-/
namespace HeirsOcr.TwoRuns
open StepMachine

variable {σ α : Type*}

inductive Paired (α : Type*) where
  | both (a : α)
  | left (a : α)
  | right (a : α)
  deriving DecidableEq, Repr

/-- The actions of the first run. -/
def lefts (ps : List (Paired α)) : List α :=
  ps.filterMap fun
    | .both a | .left a => some a
    | .right _ => none

/-- The actions of the second run. -/
def rights (ps : List (Paired α)) : List α :=
  ps.filterMap fun
    | .both a | .right a => some a
    | .left _ => none

/-- A condition on the common actions. -/
def OnBoth (f : α → Prop) : Paired α → Prop
  | .both a => f a
  | .left _ | .right _ => True

instance (f : α → Prop) [DecidablePred f] : DecidablePred (OnBoth f)
  | .both a => inferInstanceAs (Decidable (f a))
  | .left _ | .right _ => inferInstanceAs (Decidable True)

section Step

variable (next : σ → α → σ) (extra : σ → α → Bool)

/-- A step of the pair; what one run has alone is an `extra` action in its state. -/
def pairStep (st : σ × σ) : Paired α → Option (σ × σ)
  | .both a => some (next st.1 a, next st.2 a)
  | .left a => if extra st.1 a then some (next st.1 a, st.2) else none
  | .right a => if extra st.2 a then some (st.1, next st.2 a) else none

end Step

variable {next : σ → α → σ} {extra : σ → α → Bool}

/-- A run of the pair is a run of each side. -/
theorem exec_pairStep {ps : List (Paired α)} {s t s' t' : σ}
    (h : exec (pairStep next extra) (s, t) ps = some (s', t')) :
    (lefts ps).foldl next s = s' ∧ (rights ps).foldl next t = t' := by
  induction ps generalizing s t with
  | nil =>
    obtain ⟨rfl, rfl⟩ := Prod.mk.inj (Option.some.inj h)
    exact ⟨rfl, rfl⟩
  | cons p ps ih =>
    cases p with
    | both a =>
      rw [exec_cons_of_step ps rfl] at h
      exact ih h
    | left a =>
      by_cases ha : extra s a = true
      · rw [exec_cons_of_step ps (by rw [pairStep, if_pos ha])] at h
        exact ih h
      · simp [exec, pairStep, ha] at h
    | right a =>
      by_cases ha : extra t a = true
      · rw [exec_cons_of_step ps (by rw [pairStep, if_pos ha])] at h
        exact ih h
      · simp [exec, pairStep, ha] at h

/-- Unwinding: what the relation allows to tell of common actions holds along the pair. -/
theorem along_of_unwinding {R : σ → σ → Prop} {ok : σ × σ → α → Prop} {P : σ × σ → α → Prop}
    (hleft : ∀ s t a, R s t → extra s a = true → R (next s a) t)
    (hright : ∀ s t a, R s t → extra t a = true → R s (next t a))
    (hboth : ∀ s t a, R s t → ok (s, t) a → P (s, t) a ∧ R (next s a) (next t a))
    {s t : σ} (hst : R s t) {ps : List (Paired α)}
    (hok : Guarded (pairStep next extra) (fun st => OnBoth (ok st)) (s, t) ps) :
    Along (pairStep next extra) (fun st p _ => OnBoth (P st) p) (s, t) ps := by
  refine along_of_invariant (I := fun st => R st.1 st.2) ?_ hst hok
  rintro ⟨s, t⟩ p st' hR hp hstep
  cases p with
  | both a =>
    obtain rfl := Option.some.inj hstep
    obtain ⟨hP, hnext⟩ := hboth s t a hR hp
    exact ⟨hnext, hP⟩
  | left a =>
    simp only [pairStep] at hstep
    split_ifs at hstep with ha
    obtain rfl := Option.some.inj hstep
    exact ⟨hleft s t a hR ha, trivial⟩
  | right a =>
    simp only [pairStep] at hstep
    split_ifs at hstep with ha
    obtain rfl := Option.some.inj hstep
    exact ⟨hright s t a hR ha, trivial⟩

end HeirsOcr.TwoRuns
