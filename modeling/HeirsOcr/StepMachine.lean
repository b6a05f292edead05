import Mathlib.Tactic

/-!
# Runs of a partial step function

A system is a function `step : σ → α → Option σ` that takes an action or refuses
it. A run is a list of actions; it ends at the first action refused. Properties of
runs are stated over the transitions a run takes, so a statement about every
state reached and a statement about every step taken are both instances of
`Along`. The rules below turn a step lemma into a statement about whole runs.
-/
namespace HeirsOcr.StepMachine

variable {σ α : Type*} (step : σ → α → Option σ)

/-- The state after all the actions, when none of them is refused. -/
def exec : σ → List α → Option σ
  | s, [] => some s
  | s, a :: as =>
    match step s a with
    | none => none
    | some t => exec t as

/-- Every transition the run takes satisfies `P`. -/
def Along (P : σ → α → σ → Prop) : σ → List α → Prop
  | _, [] => True
  | s, a :: as =>
    match step s a with
    | none => True
    | some t => P s a t ∧ Along P t as

/-- Every step is taken in a state that meets the condition `ok` of its action. -/
def Guarded (ok : σ → α → Prop) (s : σ) (as : List α) : Prop :=
  Along step (fun s a _ => ok s a) s as

/-- Every state of the run, the first included, satisfies `Q`. -/
def Throughout (Q : σ → Prop) (s : σ) (as : List α) : Prop :=
  Q s ∧ Along step (fun _ _ t => Q t) s as

instance decidableAlong (P : σ → α → σ → Prop) [∀ s a t, Decidable (P s a t)] :
    ∀ s as, Decidable (Along step P s as)
  | _, [] => isTrue trivial
  | s, a :: as =>
    match h : step s a with
    | none => isTrue (by simp [Along, h])
    | some t =>
      have := decidableAlong P t as
      decidable_of_iff (P s a t ∧ Along step P t as) (by simp [Along, h])

instance decidableGuarded (ok : σ → α → Prop) [∀ s a, Decidable (ok s a)] (s : σ)
    (as : List α) : Decidable (Guarded step ok s as) :=
  inferInstanceAs (Decidable (Along step _ s as))

instance decidableThroughout (Q : σ → Prop) [DecidablePred Q] (s : σ) (as : List α) :
    Decidable (Throughout step Q s as) :=
  inferInstanceAs (Decidable (Q s ∧ Along step _ s as))

variable {step}

@[simp] theorem along_nil (P : σ → α → σ → Prop) (s : σ) : Along step P s [] := trivial

theorem along_cons (P : σ → α → σ → Prop) (s : σ) (a : α) (as : List α) :
    Along step P s (a :: as) ↔ ∀ t, step s a = some t → P s a t ∧ Along step P t as := by
  cases h : step s a <;> simp [Along, h]

@[simp] theorem exec_nil (s : σ) : exec step s [] = some s := rfl

theorem exec_cons_of_step {s t : σ} {a : α} (as : List α) (h : step s a = some t) :
    exec step s (a :: as) = exec step t as := by
  simp [exec, h]

theorem exec_append (s : σ) (as bs : List α) :
    exec step s (as ++ bs) = (exec step s as).bind fun t => exec step t bs := by
  induction as generalizing s with
  | nil => rfl
  | cons a as ih =>
    cases h : step s a with
    | none => simp [exec, h]
    | some t => simpa [exec, h] using ih t

/-- The induction behind every rule of this file: an invariant that each guarded
step keeps also proves a property of each step. -/
theorem along_of_invariant {I : σ → Prop} {ok : σ → α → Prop} {P : σ → α → σ → Prop}
    (hstep : ∀ s a t, I s → ok s a → step s a = some t → I t ∧ P s a t)
    {s : σ} {as : List α} (hs : I s) (hok : Guarded step ok s as) :
    Along step P s as := by
  induction as generalizing s with
  | nil => trivial
  | cons a as ih =>
    rw [Guarded, along_cons] at hok
    rw [along_cons]
    intro t ht
    obtain ⟨ha, has⟩ := hok t ht
    obtain ⟨hI, hP⟩ := hstep s a t hs ha ht
    exact ⟨hP, ih hI has⟩

/-- An invariant of the guarded steps holds in every state of a guarded run. -/
theorem throughout_of_guarded {I : σ → Prop} {ok : σ → α → Prop}
    (hstep : ∀ s a t, I s → ok s a → step s a = some t → I t)
    {s : σ} {as : List α} (hs : I s) (hok : Guarded step ok s as) :
    Throughout step I s as :=
  ⟨hs, along_of_invariant (fun s a t hI ha ht => ⟨hstep s a t hI ha ht, hstep s a t hI ha ht⟩)
    hs hok⟩

theorem Along.mono {P R : σ → α → σ → Prop} (h : ∀ s a t, P s a t → R s a t)
    {s : σ} {as : List α} (hP : Along step P s as) : Along step R s as := by
  induction as generalizing s with
  | nil => trivial
  | cons a as ih =>
    rw [along_cons] at hP ⊢
    exact fun t ht => ⟨h s a t (hP t ht).1, ih (hP t ht).2⟩

theorem Throughout.mono {P Q : σ → Prop} (h : ∀ s, P s → Q s) {s : σ} {as : List α}
    (hP : Throughout step P s as) : Throughout step Q s as :=
  ⟨h s hP.1, hP.2.mono fun _ _ t => h t⟩

/-- An invariant of every step holds in every state of every run. -/
theorem throughout_of_step {I : σ → Prop}
    (hstep : ∀ s a t, I s → step s a = some t → I t) {s : σ} (hs : I s) (as : List α) :
    Throughout step I s as := by
  refine ⟨hs, ?_⟩
  induction as generalizing s with
  | nil => trivial
  | cons a as ih =>
    rw [along_cons]
    intro t ht
    have hI := hstep s a t hs ht
    exact ⟨hI, ih hI⟩

/-- When, out of a state of the invariant, a step has the property exactly under its
condition, and such a step keeps the invariant, a run has the property at every step
exactly when every step meets its condition. -/
theorem along_iff_guarded {I : σ → Prop} {ok : σ → α → Prop} {P : σ → α → σ → Prop}
    (hiff : ∀ s a t, I s → step s a = some t → (P s a t ↔ ok s a))
    (hkeep : ∀ s a t, I s → ok s a → step s a = some t → I t)
    {s : σ} {as : List α} (hs : I s) : Along step P s as ↔ Guarded step ok s as := by
  induction as generalizing s with
  | nil => exact iff_of_true trivial trivial
  | cons a as ih =>
    rw [Guarded, along_cons, along_cons]
    refine forall_congr' fun t => forall_congr' fun ht => ?_
    rw [hiff s a t hs ht]
    exact and_congr_right fun ha => ih (hkeep s a t hs ha ht)

/-- The state a run ends in is one of its states. -/
theorem Throughout.exec {Q : σ → Prop} {s t : σ} {as : List α}
    (h : Throughout step Q s as) (he : exec step s as = some t) : Q t := by
  induction as generalizing s with
  | nil => cases he; exact h.1
  | cons a as ih =>
    cases ha : step s a with
    | none => simp [StepMachine.exec, ha] at he
    | some u =>
      have hu := (along_cons _ _ _ _).mp h.2 u ha
      rw [exec_cons_of_step as ha] at he
      exact ih ⟨hu.1, hu.2⟩ he

end HeirsOcr.StepMachine
