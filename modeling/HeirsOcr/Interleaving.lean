import HeirsOcr.StepMachine

/-!
# Calls interleaved over a shared state

A call runs one command a step, and any number of other calls run theirs in between. A
system says what the first command of a request and each later command of a call do to the
shared state, and what is left of the call afterwards. An invariant of the shared state
comes with an assertion for every call under way. A step keeps them when it establishes the
assertion of the call it moves and disturbs those of the others.
-/
namespace HeirsOcr.Interleaving
open StepMachine

variable {σ κ α β ε : Type*}

/-- The commands of a system. `answer` is what a command receives from outside, and a call
is `none` when it is over. -/
structure System (σ κ α β ε : Type*) where
  start : σ → α → σ × Option κ
  resume : σ → κ → β → σ × Option κ
  environment : σ → ε → σ

structure State (σ κ : Type*) where
  shared : σ
  calls : List κ
  deriving DecidableEq, Repr

/-- A new request, the next command of the `i`th call, or an event outside of all calls. -/
inductive Action (α β ε : Type*) where
  | start (request : α)
  | advance (i : ℕ) (answer : β)
  | environment (event : ε)
  deriving DecidableEq, Repr

def System.step (S : System σ κ α β ε) (s : State σ κ) : Action α β ε → Option (State σ κ)
  | .start request =>
    let next := S.start s.shared request
    some ⟨next.1, s.calls ++ next.2.toList⟩
  | .advance i answer =>
    s.calls[i]?.map fun call =>
      let next := S.resume s.shared call answer
      ⟨next.1, s.calls.eraseIdx i ++ next.2.toList⟩
  | .environment event => some ⟨S.environment s.shared event, s.calls⟩

/-- What a command left: the invariant, the assertion of the call it moved, and those of the
other calls. -/
structure Keeps (I : σ → Prop) (J : σ → κ → Prop) (before : σ) (others : List κ)
    (next : σ × Option κ) : Prop where
  shared : I next.1
  moved : ∀ c ∈ next.2, J next.1 c
  others : ∀ c ∈ others, J before c → J next.1 c

structure Holds (I : σ → Prop) (J : σ → κ → Prop) (s : State σ κ) : Prop where
  shared : I s.shared
  calls : ∀ c ∈ s.calls, J s.shared c

variable {S : System σ κ α β ε} {I : σ → Prop} {J : σ → κ → Prop} {s t : State σ κ}

theorem Keeps.holds {others : List κ} {next : σ × Option κ}
    (h : Keeps I J s.shared others next) (hs : Holds I J s) (hsub : others ⊆ s.calls) :
    Holds I J ⟨next.1, others ++ next.2.toList⟩ where
  shared := h.shared
  calls c hc := by
    rcases List.mem_append.mp hc with hold | hnew
    · exact h.others c hold (hs.calls c (hsub hold))
    · exact h.moved c (Option.mem_toList.mp hnew)

/-- The commands a step may run, each with the calls it leaves alone. -/
def StepKeeps (S : System σ κ α β ε) (I : σ → Prop) (J : σ → κ → Prop) (s : State σ κ) :
    Action α β ε → Prop
  | .start request => Keeps I J s.shared s.calls (S.start s.shared request)
  | .advance i answer =>
    ∀ c, s.calls[i]? = some c →
      Keeps I J s.shared (s.calls.eraseIdx i) (S.resume s.shared c answer)
  | .environment event =>
    Keeps I J s.shared s.calls ((S.environment s.shared event, none) : σ × Option κ)

theorem holds_step {a : Action α β ε} (hkeeps : StepKeeps S I J s a) (hs : Holds I J s)
    (h : S.step s a = some t) : Holds I J t := by
  cases a with
  | start request =>
    obtain rfl := Option.some.inj h
    exact Keeps.holds hkeeps hs (List.Subset.refl _)
  | advance i answer =>
    obtain ⟨c, hc, rfl⟩ := Option.map_eq_some_iff.mp h
    exact Keeps.holds (hkeeps c hc) hs List.eraseIdx_subset
  | environment event =>
    obtain rfl := Option.some.inj h
    have hholds := Keeps.holds hkeeps hs (List.Subset.refl _)
    simpa using hholds

/-- The rule for guarded runs. -/
theorem throughout_holds {ok : State σ κ → Action α β ε → Prop}
    (hkeeps : ∀ s a, Holds I J s → ok s a → StepKeeps S I J s a) {as : List (Action α β ε)}
    (hs : Holds I J s) (hok : Guarded S.step ok s as) : Throughout S.step (Holds I J) s as :=
  throughout_of_guarded (fun s a _ hI ha h => holds_step (hkeeps s a hI ha) hI h) hs hok

section Count

variable {calls : List κ} {i : ℕ} {c : κ} {p : κ → Bool}

/-- A call that moves on stops counting and its rest starts to. -/
theorem countP_advance (hc : calls[i]? = some c) (next : Option κ) :
    (calls.eraseIdx i ++ next.toList).countP p + (if p c then 1 else 0) =
      calls.countP p + next.toList.countP p := by
  obtain ⟨hi, rfl⟩ := List.getElem?_eq_some_iff.mp hc
  have hperm := (List.getElem_cons_eraseIdx_perm hi).countP_eq p
  rw [List.countP_cons] at hperm
  rw [List.countP_append]
  omega

/-- A call is the one that moves on or another. -/
theorem mem_iff_eq_or_mem_eraseIdx (hc : calls[i]? = some c) {c' : κ} :
    c' ∈ calls ↔ c' = c ∨ c' ∈ calls.eraseIdx i := by
  obtain ⟨hi, rfl⟩ := List.getElem?_eq_some_iff.mp hc
  rw [← (List.getElem_cons_eraseIdx_perm hi).mem_iff, List.mem_cons]

/-- When at most one call is of a kind, the others of it are not. -/
theorem not_of_mem_eraseIdx (hone : calls.countP p ≤ 1) (hc : calls[i]? = some c) (hp : p c)
    {c' : κ} (hc' : c' ∈ calls.eraseIdx i) : p c' = false := by
  have hcount := countP_advance (p := p) hc none
  rw [if_pos hp] at hcount
  simp only [Option.toList_none, List.append_nil, List.countP_nil] at hcount
  have hzero : (calls.eraseIdx i).countP p = 0 := by omega
  exact Bool.eq_false_iff.mpr (List.countP_eq_zero.mp hzero c' hc')

end Count

end HeirsOcr.Interleaving
