import Mathlib.Tactic

/-!
# A registry that operations share

Operations take their turns on one component that keeps entries under names. An operation writes
under some names, and what it answers depends on the entries under those it reads. So it answers
after a run of others as it would have at first, if none of them writes what it reads.
-/
namespace HeirsOcr.SharedRegistry

structure Component (σ α κ ν ω : Type*) where
  step : σ → α → σ × ω
  entry : σ → κ → ν
  writes : α → κ → Prop
  reads : α → κ → Prop

variable {σ α κ ν ω : Type*} {c : Component σ α κ ν ω} {start : σ}

/-- An operation leaves alone what it does not write, and where everything it reads is as at the
start it answers as at the start. -/
structure Lawful (c : Component σ α κ ν ω) (start : σ) : Prop where
  frame : ∀ s a k, ¬ c.writes a k → c.entry (c.step s a).1 k = c.entry s k
  reading : ∀ s a, (∀ k, c.reads a k → c.entry s k = c.entry start k) →
    (c.step s a).2 = (c.step start a).2

def Component.run (c : Component σ α κ ν ω) (s : σ) (as : List α) : σ :=
  as.foldl (fun s a => (c.step s a).1) s

@[simp] theorem Component.run_cons (s : σ) (a : α) (as : List α) :
    c.run s (a :: as) = c.run (c.step s a).1 as := rfl

/-- No operation of the list writes what the operation reads. -/
def Apart (c : Component σ α κ ν ω) (as : List α) (a : α) : Prop :=
  ∀ b ∈ as, ∀ k, c.writes b k → ¬ c.reads a k

theorem Lawful.entry_run (h : Lawful c start) {as : List α} {k : κ}
    (hfree : ∀ a ∈ as, ¬ c.writes a k) (s : σ) : c.entry (c.run s as) k = c.entry s k := by
  induction as generalizing s with
  | nil => rfl
  | cons a as ih =>
    rw [Component.run_cons, ih fun b hb => hfree b (List.mem_cons_of_mem _ hb)]
    exact h.frame s a k (hfree a List.mem_cons_self)

/-- The answer after a run of operations apart from it is the answer at the start. -/
theorem Lawful.answer_run (h : Lawful c start) {as : List α} {a : α} (hapart : Apart c as a) :
    (c.step (c.run start as) a).2 = (c.step start a).2 := by
  apply h.reading
  intro k hk
  exact h.entry_run (fun b hb hwrites => hapart b hb k hwrites hk) start

end HeirsOcr.SharedRegistry
