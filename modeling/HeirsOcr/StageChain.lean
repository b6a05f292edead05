import HeirsOcr.StepMachine

/-!
# Requests on their way through a chain of stages

Requests share a state and pass the stages of their route one step at a time, so the steps of
different requests, and whatever else changes the state, come in any order. A stage hands its
request on or answers it, and an answer is closed later. The rules below recover the way a
request has taken from the run, say who wrote what a log holds, carry an invariant of the state and
of its answers through a run, and balance what the stages give against what the closings keep.
-/
namespace HeirsOcr.StageChain
open StepMachine

/-- A stage reads and writes the shared state, is told what its surroundings answer, and hands
the request on or answers it. -/
abbrev Stage (σ ω ρ ε : Type*) := σ → ω → ρ → σ × Except ε ρ

/-- What becomes of a request that arrives, the stages of each route, what is done when an answer
is closed in one way or another, and what else may change the state. -/
structure Chains (κ σ τ ω α δ ρ ε : Type*) where
  receive : τ → ρ
  stages : κ → List (Stage σ ω ρ ε)
  close : σ → δ → ε → σ
  meanwhile : σ → α → Option σ

/-- A request and how many stages it has passed. -/
structure Flight (κ ρ : Type*) where
  route : κ
  passed : ℕ
  request : ρ
  answered : Bool

/-- The shared state, the requests by their identity, and the answers not yet closed. -/
structure State (ι κ σ ρ ε : Type*) where
  shared : σ
  flights : ι → Option (Flight κ ρ)
  answers : List ε

inductive Action (ι κ τ ω α δ : Type*) where
  | arrive (id : ι) (route : κ) (sent : τ)
  | advance (id : ι) (told : ω)
  | close (k : ℕ) (ending : δ)
  | meanwhile (a : α)

variable {ι κ σ τ ω α δ ρ ε : Type*} [DecidableEq ι]

def start (shared : σ) : State ι κ σ ρ ε := ⟨shared, fun _ => none, []⟩

/-- What a stage leaves: the request one stage further, or its answer. -/
def State.staged (s : State ι κ σ ρ ε) (id : ι) (f : Flight κ ρ) (result : σ × Except ε ρ) :
    State ι κ σ ρ ε :=
  match result with
  | (shared, .ok request) =>
    { s with
      shared := shared
      flights := Function.update s.flights id
        (some { f with passed := f.passed + 1, request := request }) }
  | (shared, .error answer) =>
    { shared := shared
      flights := Function.update s.flights id (some { f with answered := true })
      answers := s.answers ++ [answer] }

/-- The stage a request stands before. -/
def next? (c : Chains κ σ τ ω α δ ρ ε) (f : Flight κ ρ) : Option (Stage σ ω ρ ε) :=
  if f.answered then none else (c.stages f.route)[f.passed]?

def step (c : Chains κ σ τ ω α δ ρ ε) (s : State ι κ σ ρ ε) :
    Action ι κ τ ω α δ → Option (State ι κ σ ρ ε)
  | .arrive id route sent =>
    if (s.flights id).isSome then none
    else some { s with
      flights := Function.update s.flights id (some ⟨route, 0, c.receive sent, false⟩) }
  | .advance id told =>
    match s.flights id with
    | none => none
    | some f => (next? c f).map fun stage => s.staged id f (stage s.shared told f.request)
  | .close k ending =>
    match s.answers[k]? with
    | none => none
    | some answer => some { s with
      shared := c.close s.shared ending answer
      answers := s.answers.eraseIdx k }
  | .meanwhile a => (c.meanwhile s.shared a).map fun shared => { s with shared := shared }

section Steps

variable {c : Chains κ σ τ ω α δ ρ ε} {s t : State ι κ σ ρ ε}

theorem next?_eq_some {f : Flight κ ρ} {stage : Stage σ ω ρ ε} :
    next? c f = some stage ↔
      f.answered = false ∧ (c.stages f.route)[f.passed]? = some stage := by
  cases h : f.answered with
  | false => simp [next?, h]
  | true => simp [next?, h]

theorem step_arrive {id : ι} {route : κ} {sent : τ}
    (h : step c s (.arrive id route sent) = some t) :
    s.flights id = none ∧ t = { s with
      flights := Function.update s.flights id (some ⟨route, 0, c.receive sent, false⟩) } := by
  rw [step] at h
  split_ifs at h with hnew
  exact ⟨by simpa using hnew, (Option.some.inj h).symm⟩

theorem step_advance {id : ι} {told : ω} (h : step c s (.advance id told) = some t) :
    ∃ f stage, s.flights id = some f ∧ next? c f = some stage ∧
      t = s.staged id f (stage s.shared told f.request) := by
  rw [step] at h
  cases hf : s.flights id with
  | none => simp [hf] at h
  | some f =>
    simp only [hf] at h
    obtain ⟨stage, hstage, rfl⟩ := Option.map_eq_some_iff.mp h
    exact ⟨f, stage, rfl, hstage, rfl⟩

theorem step_close {k : ℕ} {ending : δ} (h : step c s (.close k ending) = some t) :
    ∃ answer, s.answers[k]? = some answer ∧ t = { s with
      shared := c.close s.shared ending answer
      answers := s.answers.eraseIdx k } := by
  rw [step] at h
  cases hk : s.answers[k]? with
  | none => simp [hk] at h
  | some answer =>
    simp only [hk, Option.some.injEq] at h
    exact ⟨answer, rfl, h.symm⟩

theorem step_meanwhile {a : α} (h : step c s (.meanwhile a) = some t) :
    ∃ shared, c.meanwhile s.shared a = some shared ∧ t = { s with shared := shared } := by
  obtain ⟨shared, hshared, rfl⟩ := Option.map_eq_some_iff.mp h
  exact ⟨shared, hshared, rfl⟩

@[simp] theorem staged_shared (s : State ι κ σ ρ ε) (id : ι) (f : Flight κ ρ)
    (result : σ × Except ε ρ) : (s.staged id f result).shared = result.1 := by
  obtain ⟨shared, answer | request⟩ := result
  · rfl
  · rfl

theorem staged_flights_of_ne (s : State ι κ σ ρ ε) {id id' : ι} (h : id' ≠ id) (f : Flight κ ρ)
    (result : σ × Except ε ρ) : (s.staged id f result).flights id' = s.flights id' := by
  obtain ⟨shared, answer | request⟩ := result
  · exact Function.update_of_ne h _ _
  · exact Function.update_of_ne h _ _

end Steps

section Way

variable (c : Chains κ σ τ ω α δ ρ ε) (s : State ι κ σ ρ ε)

/-- The `n`th action of the run is `a`, taken in the state `u`. -/
structure Taken (as : List (Action ι κ τ ω α δ)) (n : ℕ) (u : State ι κ σ ρ ε)
    (a : Action ι κ τ ω α δ) : Prop where
  state : exec (step c) s (as.take n) = some u
  action : as[n]? = some a

/-- By time `n` of the run the request stands before stage `k` of its route as `request`. -/
inductive Reached (as : List (Action ι κ τ ω α δ)) (id : ι) : ℕ → κ → ℕ → ρ → Prop
  | arrive {n : ℕ} {u : State ι κ σ ρ ε} {route : κ} {sent : τ} :
    Taken c s as n u (.arrive id route sent) → Reached as id (n + 1) route 0 (c.receive sent)
  | pass {n m : ℕ} {u : State ι κ σ ρ ε} {told : ω} {route : κ} {k : ℕ} {stage : Stage σ ω ρ ε}
    {request request' : ρ} :
    Reached as id n route k request → n ≤ m → Taken c s as m u (.advance id told) →
      (c.stages route)[k]? = some stage → (stage u.shared told request).2 = .ok request' →
        Reached as id (m + 1) route (k + 1) request'

variable {c s} {as bs : List (Action ι κ τ ω α δ)} {id : ι} {n k : ℕ} {u t : State ι κ σ ρ ε}
  {route : κ} {request : ρ}

theorem Taken.lt_length {a : Action ι κ τ ω α δ} (h : Taken c s as n u a) : n < as.length :=
  (List.getElem?_eq_some_iff.mp h.action).1

theorem Taken.append {a : Action ι κ τ ω α δ} (h : Taken c s as n u a) :
    Taken c s (as ++ bs) n u a where
  state := by
    rw [List.take_append_of_le_length h.lt_length.le]
    exact h.state
  action := by
    rw [List.getElem?_append_left h.lt_length]
    exact h.action

theorem taken_snoc {a : Action ι κ τ ω α δ} (h : exec (step c) s as = some u) :
    Taken c s (as ++ [a]) as.length u a where
  state := by
    rw [List.take_left']
    · exact h
    · rfl
  action := List.getElem?_concat_length

theorem Reached.append (h : Reached c s as id n route k request) :
    Reached c s (as ++ bs) id n route k request := by
  induction h with
  | arrive ha => exact .arrive ha.append
  | pass _ hnm ha hstage hpass ih => exact .pass ih hnm ha.append hstage hpass

/-- The last stage a request has passed. -/
theorem Reached.last {request' : ρ} (h : Reached c s as id n route (k + 1) request') :
    ∃ m < n, ∃ u told stage request, Taken c s as m u (.advance id told) ∧
      (c.stages route)[k]? = some stage ∧ (stage u.shared told request).2 = .ok request' ∧
        ∃ n' ≤ m, Reached c s as id n' route k request := by
  cases h with
  | @pass n' m u told _ _ stage request _ hreached hle htaken hstage hpass =>
    exact ⟨m, m.lt_succ_self, u, told, stage, request, htaken, hstage, hpass, n', hle, hreached⟩

/-- A request that has passed nothing has arrived. -/
theorem Reached.arrival (h : Reached c s as id n route 0 request) :
    ∃ m < n, ∃ u sent, Taken c s as m u (.arrive id route sent) ∧ request = c.receive sent := by
  cases h with
  | @arrive m u _ sent htaken => exact ⟨m, m.lt_succ_self, u, sent, htaken, rfl⟩

/-- The last action of a run. -/
theorem exec_snoc {a : Action ι κ τ ω α δ} (h : exec (step c) s (as ++ [a]) = some t) :
    ∃ u, exec (step c) s as = some u ∧ step c u a = some t := by
  rw [exec_append] at h
  obtain ⟨u, hu, hlast⟩ := Option.bind_eq_some_iff.mp h
  refine ⟨u, hu, ?_⟩
  cases hstep : step c u a with
  | none => simp [exec, hstep] at hlast
  | some v => simpa [exec, hstep] using hlast

/-- Whatever request a run has under way has come where it stands. -/
theorem reached_of_flight (hs : ∀ id, s.flights id = none)
    (h : exec (step c) s as = some t) {f : Flight κ ρ} (hf : t.flights id = some f) :
    ∃ n ≤ as.length, Reached c s as id n f.route f.passed f.request := by
  induction as using List.reverseRecOn generalizing t f with
  | nil =>
    cases h
    rw [hs id] at hf
    cases hf
  | append_singleton as a ih =>
    obtain ⟨u, hu, hstep⟩ := exec_snoc h
    have hlength : (as ++ [a]).length = as.length + 1 := by simp
    have hkept : ∀ {f}, u.flights id = some f →
        ∃ n ≤ (as ++ [a]).length, Reached c s (as ++ [a]) id n f.route f.passed f.request := by
      intro f hf
      obtain ⟨n, hn, hreached⟩ := ih hu hf
      exact ⟨n, by omega, hreached.append⟩
    cases a with
    | arrive id' route sent =>
      obtain ⟨_, rfl⟩ := step_arrive hstep
      by_cases hid : id = id'
      · subst hid
        simp only [Function.update_self] at hf
        cases hf
        exact ⟨as.length + 1, by omega, .arrive (taken_snoc hu)⟩
      · simp only [Function.update_of_ne hid] at hf
        exact hkept hf
    | advance id' told =>
      obtain ⟨f', stage, hf', hnext, rfl⟩ := step_advance hstep
      by_cases hid : id = id'
      · subst hid
        obtain ⟨n, hn, hreached⟩ := ih hu hf'
        cases hresult : stage u.shared told f'.request with
        | mk shared answer =>
          cases answer with
          | ok request' =>
            simp only [hresult, State.staged, Function.update_self] at hf
            cases hf
            have hpass : (stage u.shared told f'.request).2 = .ok request' := by rw [hresult]
            exact ⟨as.length + 1, by omega,
              .pass hreached.append hn (taken_snoc hu) (next?_eq_some.mp hnext).2 hpass⟩
          | error answer =>
            simp only [hresult, State.staged, Function.update_self] at hf
            cases hf
            exact ⟨n, by omega, hreached.append⟩
      · rw [staged_flights_of_ne _ hid] at hf
        exact hkept hf
    | close k told =>
      obtain ⟨_, _, rfl⟩ := step_close hstep
      exact hkept hf
    | meanwhile a =>
      obtain ⟨_, _, rfl⟩ := step_meanwhile hstep
      exact hkept hf

/-- What a log holds was written by a stage, for a request that had come that far. -/
theorem written_by_stage {β : Type*} {log : σ → List β} (hs : ∀ id, s.flights id = none)
    (hclose : ∀ s ending answer, log (c.close s ending answer) = log s)
    (hmeanwhile : ∀ s a s', c.meanwhile s a = some s' → log s' = log s)
    (h : exec (step c) s as = some t) {b : β} (hb : b ∈ log t.shared) (hb' : b ∉ log s.shared) :
    ∃ n u id told f stage, Taken c s as n u (.advance id told) ∧ u.flights id = some f ∧
      next? c f = some stage ∧ b ∈ log (stage u.shared told f.request).1 ∧ b ∉ log u.shared ∧
        ∃ m ≤ n, Reached c s as id m f.route f.passed f.request := by
  induction as using List.reverseRecOn generalizing t with
  | nil =>
    cases h
    exact absurd hb hb'
  | append_singleton as a ih =>
    obtain ⟨u, hu, hstep⟩ := exec_snoc h
    by_cases hbefore : b ∈ log u.shared
    · obtain ⟨n, v, id, told, f, stage, htaken, hf, hnext, hin, hout, m, hmn, hreached⟩ :=
        ih hu hbefore
      exact ⟨n, v, id, told, f, stage, htaken.append, hf, hnext, hin, hout, m, hmn,
        hreached.append⟩
    · cases a with
      | arrive id route sent =>
        obtain ⟨_, rfl⟩ := step_arrive hstep
        exact absurd hb hbefore
      | advance id told =>
        obtain ⟨f, stage, hf, hnext, rfl⟩ := step_advance hstep
        rw [staged_shared] at hb
        obtain ⟨m, hm, hreached⟩ := reached_of_flight hs hu hf
        exact ⟨as.length, u, id, told, f, stage, taken_snoc hu, hf, hnext, hb, hbefore, m, hm,
          hreached.append⟩
      | close k ending =>
        obtain ⟨answer, _, rfl⟩ := step_close hstep
        rw [hclose] at hb
        exact absurd hb hbefore
      | meanwhile a =>
        obtain ⟨shared, hshared, rfl⟩ := step_meanwhile hstep
        rw [hmeanwhile _ _ _ hshared] at hb
        exact absurd hb hbefore

end Way

section Sound

variable {c : Chains κ σ τ ω α δ ρ ε} {fits : κ → ℕ → ρ → Prop} {fair : ε → Prop}
  {s t : State ι κ σ ρ ε}

/-- A request that fits its place is handed on as one that fits the next, or answered fairly. -/
structure Typed (c : Chains κ σ τ ω α δ ρ ε) (fits : κ → ℕ → ρ → Prop) (fair : ε → Prop) :
    Prop where
  arrives : ∀ route sent, fits route 0 (c.receive sent)
  handed : ∀ {route k stage}, (c.stages route)[k]? = some stage → ∀ s told request request',
    fits route k request → (stage s told request).2 = .ok request' → fits route (k + 1) request'
  answered : ∀ {route k stage}, (c.stages route)[k]? = some stage → ∀ s told request answer,
    fits route k request → (stage s told request).2 = .error answer → fair answer

/-- Every request under way fits its place, and every answer is fair. -/
structure Sound (fits : κ → ℕ → ρ → Prop) (fair : ε → Prop) (s : State ι κ σ ρ ε) : Prop where
  flights : ∀ id f, s.flights id = some f → f.answered = false → fits f.route f.passed f.request
  answers : ∀ answer ∈ s.answers, fair answer

theorem sound_start {ι κ σ ρ ε : Type*} (fits : κ → ℕ → ρ → Prop) (fair : ε → Prop) (shared : σ) :
    Sound fits fair (start shared : State ι κ σ ρ ε) := by
  refine ⟨?_, ?_⟩
  · intro id f hf
    cases hf
  · intro answer hanswer
    cases hanswer

theorem Sound.advance (ht : Typed c fits fair) (h : Sound fits fair s) {id : ι} {told : ω}
    {f : Flight κ ρ} {stage : Stage σ ω ρ ε} (hf : s.flights id = some f)
    (hnext : next? c f = some stage) :
    Sound fits fair (s.staged id f (stage s.shared told f.request)) := by
  obtain ⟨hopen, hstage⟩ := next?_eq_some.mp hnext
  have hfits := h.flights id f hf hopen
  cases hresult : stage s.shared told f.request with
  | mk shared answer =>
    cases answer with
    | ok request' =>
      refine ⟨?_, h.answers⟩
      intro id' f' hf' hopen'
      by_cases hid : id' = id
      · subst hid
        simp only [State.staged, Function.update_self] at hf'
        cases hf'
        exact ht.handed hstage s.shared told f.request request' hfits (by rw [hresult])
      · simp only [State.staged, Function.update_of_ne hid] at hf'
        exact h.flights id' f' hf' hopen'
    | error answer =>
      refine ⟨?_, ?_⟩
      · intro id' f' hf' hopen'
        by_cases hid : id' = id
        · subst hid
          simp only [State.staged, Function.update_self] at hf'
          cases hf'
          cases hopen'
        · simp only [State.staged, Function.update_of_ne hid] at hf'
          exact h.flights id' f' hf' hopen'
      · intro answer' hmem
        rcases List.mem_append.mp hmem with hbefore | hnew
        · exact h.answers answer' hbefore
        · obtain rfl := List.mem_singleton.mp hnew
          exact ht.answered hstage s.shared told f.request answer' hfits (by rw [hresult])

theorem Sound.step (ht : Typed c fits fair) {a : Action ι κ τ ω α δ} (h : Sound fits fair s)
    (hstep : step c s a = some t) : Sound fits fair t := by
  cases a with
  | arrive id route sent =>
    obtain ⟨_, rfl⟩ := step_arrive hstep
    refine ⟨?_, h.answers⟩
    intro id' f' hf' hopen'
    by_cases hid : id' = id
    · subst hid
      simp only [Function.update_self] at hf'
      cases hf'
      exact ht.arrives route sent
    · simp only [Function.update_of_ne hid] at hf'
      exact h.flights id' f' hf' hopen'
  | advance id told =>
    obtain ⟨f, stage, hf, hnext, rfl⟩ := step_advance hstep
    exact h.advance ht hf hnext
  | close k ending =>
    obtain ⟨answer, hk, rfl⟩ := step_close hstep
    exact ⟨h.flights, fun a ha => h.answers a (List.mem_of_mem_eraseIdx ha)⟩
  | meanwhile a =>
    obtain ⟨shared, hshared, rfl⟩ := step_meanwhile hstep
    exact ⟨h.flights, h.answers⟩

end Sound

section Keeping

variable {c : Chains κ σ τ ω α δ ρ ε} {fits : κ → ℕ → ρ → Prop} {fair : ε → Prop}
  {keeps : σ → Prop} {backs : σ → ε → Prop}

/-- From `s` to `s'` the state keeps its invariant and goes on backing what it backed. -/
structure Follows (keeps : σ → Prop) (backs : σ → ε → Prop) (s s' : σ) : Prop where
  keeps : keeps s → keeps s'
  backs : ∀ answer, backs s answer → backs s' answer

/-- The state keeps an invariant, and a stage gives only answers that the state it leaves backs. -/
structure Keeping (c : Chains κ σ τ ω α δ ρ ε) (fits : κ → ℕ → ρ → Prop) (fair : ε → Prop)
    (keeps : σ → Prop) (backs : σ → ε → Prop) : Prop extends Typed c fits fair where
  staged : ∀ {route : κ} {k : ℕ} {stage : Stage σ ω ρ ε}, (c.stages route)[k]? = some stage →
    ∀ s told request, keeps s → fits route k request →
      Follows keeps backs s (stage s told request).1 ∧
        ∀ answer, (stage s told request).2 = .error answer →
          backs (stage s told request).1 answer
  closed : ∀ s ending answer, Follows keeps backs s (c.close s ending answer)
  changed : ∀ s a s', c.meanwhile s a = some s' → keeps s → Follows keeps backs s s'

/-- The state keeps its invariant and backs every answer that waits. -/
structure Backed (keeps : σ → Prop) (backs : σ → ε → Prop) (s : State ι κ σ ρ ε) : Prop where
  shared : keeps s.shared
  answers : ∀ answer ∈ s.answers, backs s.shared answer

theorem Backed.step (hg : Keeping c fits fair keeps backs) {s t : State ι κ σ ρ ε}
    {a : Action ι κ τ ω α δ} (hs : Sound fits fair s) (h : Backed keeps backs s)
    (hstep : step c s a = some t) : Backed keeps backs t := by
  cases a with
  | arrive id route sent =>
    obtain ⟨_, rfl⟩ := step_arrive hstep
    exact ⟨h.shared, h.answers⟩
  | advance id told =>
    obtain ⟨f, stage, hf, hnext, rfl⟩ := step_advance hstep
    obtain ⟨hopen, hstage⟩ := next?_eq_some.mp hnext
    obtain ⟨hfollows, hanswer⟩ := hg.staged hstage s.shared told f.request h.shared
      (hs.flights id f hf hopen)
    refine ⟨by rw [staged_shared]; exact hfollows.keeps h.shared, ?_⟩
    intro answer hmem
    rw [staged_shared]
    cases hresult : stage s.shared told f.request with
    | mk shared result =>
      cases result with
      | ok request' =>
        rw [hresult] at hmem hfollows
        exact hfollows.backs answer (h.answers answer hmem)
      | error answer' =>
        rw [hresult] at hmem hfollows
        rcases List.mem_append.mp hmem with hbefore | hnew
        · exact hfollows.backs answer (h.answers answer hbefore)
        · obtain rfl := List.mem_singleton.mp hnew
          have hbacks := hanswer answer (by rw [hresult])
          rwa [hresult] at hbacks
  | close k ending =>
    obtain ⟨answer, _, rfl⟩ := step_close hstep
    have hfollows := hg.closed s.shared ending answer
    exact ⟨hfollows.keeps h.shared, fun answer' hmem =>
      hfollows.backs answer' (h.answers answer' (List.mem_of_mem_eraseIdx hmem))⟩
  | meanwhile a =>
    obtain ⟨shared, hshared, rfl⟩ := step_meanwhile hstep
    have hfollows := hg.changed _ _ _ hshared h.shared
    exact ⟨hfollows.keeps h.shared, fun answer hmem =>
      hfollows.backs answer (h.answers answer hmem)⟩

/-- In every state of every run that starts without a request, answers are fair and backed. -/
theorem sound_backed_throughout (hg : Keeping c fits fair keeps backs) {shared : σ}
    (h : keeps shared) (as : List (Action ι κ τ ω α δ)) :
    Throughout (step c) (fun s => (∀ answer ∈ s.answers, fair answer) ∧ Backed keeps backs s)
      (start shared) as := by
  have hall : Throughout (step c) (fun s => Sound fits fair s ∧ Backed keeps backs s)
      (start shared) as := by
    apply throughout_of_step
    · exact fun s a t hs hstep => ⟨hs.1.step hg.toTyped hstep, hs.2.step hg hs.1 hstep⟩
    · exact ⟨sound_start fits fair shared, h, fun answer hmem => by cases hmem⟩
  exact hall.mono fun s hs => ⟨hs.1.answers, hs.2⟩

end Keeping

section Books

variable {c : Chains κ σ τ ω α δ ρ ε} {fits : κ → ℕ → ρ → Prop} {fair : ε → Prop}
  {given kept : σ → ℕ} {weight : ε → ℕ}

/-- An answer is given with its weight, besides what is kept at once, and its closing keeps the
weight. -/
structure Booked (c : Chains κ σ τ ω α δ ρ ε) (fits : κ → ℕ → ρ → Prop) (fair : ε → Prop)
    (given kept : σ → ℕ) (weight : ε → ℕ) : Prop extends Typed c fits fair where
  given_handed : ∀ {route : κ} {k : ℕ} {stage : Stage σ ω ρ ε}, (c.stages route)[k]? = some stage →
    ∀ s told request request', (stage s told request).2 = .ok request' →
      given (stage s told request).1 = given s ∧ kept (stage s told request).1 = kept s
  given_answered : ∀ {route : κ} {k : ℕ} {stage : Stage σ ω ρ ε},
    (c.stages route)[k]? = some stage → ∀ s told request answer, fits route k request →
      (stage s told request).2 = .error answer → ∃ atOnce,
        given (stage s told request).1 = given s + weight answer + atOnce ∧
          kept (stage s told request).1 = kept s + atOnce
  close : ∀ s ending answer, fair answer → given (c.close s ending answer) = given s ∧
    kept (c.close s ending answer) = kept s + weight answer
  meanwhile : ∀ s a s', c.meanwhile s a = some s' → given s' = given s ∧ kept s' = kept s

/-- What was given is kept or waits for its closing. -/
def Balanced (given kept : σ → ℕ) (weight : ε → ℕ) (s : State ι κ σ ρ ε) : Prop :=
  given s.shared = kept s.shared + (s.answers.map weight).sum

theorem Balanced.step (hb : Booked c fits fair given kept weight) {s t : State ι κ σ ρ ε}
    {a : Action ι κ τ ω α δ} (hs : Sound fits fair s) (h : Balanced given kept weight s)
    (hstep : step c s a = some t) : Balanced given kept weight t := by
  unfold Balanced at *
  cases a with
  | arrive id route sent =>
    obtain ⟨_, rfl⟩ := step_arrive hstep
    exact h
  | advance id told =>
    obtain ⟨f, stage, hf, hnext, rfl⟩ := step_advance hstep
    obtain ⟨hopen, hstage⟩ := next?_eq_some.mp hnext
    cases hresult : stage s.shared told f.request with
    | mk shared answer =>
      have hshared : (stage s.shared told f.request).1 = shared := by rw [hresult]
      cases answer with
      | ok request' =>
        have hbooks := hb.given_handed hstage s.shared told f.request request' (by rw [hresult])
        rw [hshared] at hbooks
        simp only [State.staged]
        omega
      | error answer =>
        obtain ⟨atOnce, hbooks⟩ := hb.given_answered hstage s.shared told f.request answer
          (hs.flights id f hf hopen) (by rw [hresult])
        rw [hshared] at hbooks
        simp only [State.staged, List.map_append, List.sum_append, List.map_cons, List.map_nil,
          List.sum_cons, List.sum_nil]
        omega
  | close k ending =>
    obtain ⟨answer, hk, rfl⟩ := step_close hstep
    obtain ⟨hlt, hget⟩ := List.getElem?_eq_some_iff.mp hk
    have hsum := ((List.getElem_cons_eraseIdx_perm hlt).map weight).sum_eq
    have hclose := hb.close s.shared ending answer
      (hs.answers answer (List.mem_of_getElem? hk))
    rw [List.map_cons, List.sum_cons, hget] at hsum
    simp only
    omega
  | meanwhile a =>
    obtain ⟨shared, hshared, rfl⟩ := step_meanwhile hstep
    have hmeanwhile := hb.meanwhile _ _ _ hshared
    simp only
    omega

/-- Answers that weigh one or nothing are counted. -/
theorem sum_map_indicator (p : ε → Bool) (answers : List ε) :
    (answers.map fun a => if p a then 1 else 0).sum = answers.countP p := by
  induction answers with
  | nil => rfl
  | cons a answers ih =>
    rw [List.map_cons, List.sum_cons, ih, List.countP_cons]
    omega

end Books

end HeirsOcr.StageChain
