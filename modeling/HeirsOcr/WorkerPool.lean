import HeirsOcr.StepMachine

/-!
# Tasks with a bound on how many run

A scheduler starts tasks, and those that run take their steps in any order. Of the scheduler it is
only known that it starts the tasks in their order, each while fewer than a limit run, and the next
one at least when none runs. What a task comes to depends on its own steps alone, so every run
starts each task once and ends after the same number of steps, and what it collects is what the
tasks come to one after another.
-/
namespace HeirsOcr.WorkerPool
open StepMachine

variable {τ ρ ε : Type*}

/-- A step of a task: its next state, or what it comes to. -/
abbrev Task (τ ρ ε : Type*) := ℕ → τ → τ ⊕ Except ε ρ

/-- The tasks by their number: not yet started, running, and settled in the order they were. -/
structure Pool (τ ρ ε : Type*) where
  waiting : List (ℕ × τ)
  running : List (ℕ × τ)
  settled : List (ℕ × Except ε ρ)

/-- Which of the waiting tasks a scheduler would start, if any. -/
abbrev Scheduler (τ ρ ε : Type*) := Pool τ ρ ε → Option ℕ

/-- What a scheduler with a limit promises. -/
structure Limits (limit : ℕ) (starts : Scheduler τ ρ ε) : Prop where
  bound : ∀ {p k}, starts p = some k → p.running.length < limit
  order : ∀ {p k}, starts p = some k → k = 0
  serves : ∀ {p}, p.running = [] → p.waiting ≠ [] → (starts p).isSome

inductive Action where
  | start
  | resume (k : ℕ)
  deriving DecidableEq, Repr

section Steps

variable (starts : Scheduler τ ρ ε) (next : Task τ ρ ε)

def step (p : Pool τ ρ ε) : Action → Option (Pool τ ρ ε)
  | .start => (starts p).bind fun k => p.waiting[k]?.map fun task =>
    { p with waiting := p.waiting.eraseIdx k, running := p.running ++ [task] }
  | .resume k =>
    match p.running[k]? with
    | none => none
    | some (i, s) =>
      match next i s with
      | .inl s' => some { p with running := p.running.set k (i, s') }
      | .inr result =>
        some { p with running := p.running.eraseIdx k, settled := p.settled ++ [(i, result)] }

end Steps

/-- All tasks wait. -/
def enqueued (initial : List τ) : Pool τ ρ ε := ⟨initial.zipIdx.map Prod.swap, [], []⟩

def failure? : Except ε ρ → Option ε
  | .ok _ => none
  | .error e => some e

/-- `Promise.all`: what the first task to fail failed with, or all results in the order of the
tasks; `none` while it is pending. -/
def promiseAll (n : ℕ) (settled : List (ℕ × Except ε ρ)) : Option (Except ε (List ρ)) :=
  match settled.findSome? fun task => failure? task.2 with
  | some e => some (.error e)
  | none =>
    if settled.length = n then
      some (.ok ((List.range n).filterMap fun i => (settled.lookup i).bind Except.toOption))
    else none

/-- How many steps a task has left, and what it comes to. -/
structure Ends (next : Task τ ρ ε) (left : ℕ → τ → ℕ) (total : ℕ → τ → Except ε ρ) : Prop where
  more : ∀ {i s s'}, next i s = .inl s' → left i s = left i s' + 1 ∧ total i s = total i s'
  done : ∀ {i s result}, next i s = .inr result → left i s = 1 ∧ total i s = result

/-- Each task is in one place, and is on its way to its result. -/
structure Accounted (limit : ℕ) (total : ℕ → τ → Except ε ρ) (results : List (Except ε ρ))
    (p : Pool τ ρ ε) : Prop where
  bounded : p.running.length ≤ limit
  once : (p.waiting.map Prod.fst ++ p.running.map Prod.fst ++ p.settled.map Prod.fst).Perm
    (List.range results.length)
  underway : ∀ task ∈ p.waiting ++ p.running, results[task.1]? = some (total task.1 task.2)
  settled : ∀ task ∈ p.settled, results[task.1]? = some task.2

/-- The steps left: a task that waits is still to be started. -/
def work (left : ℕ → τ → ℕ) (p : Pool τ ρ ε) : ℕ :=
  (p.waiting.map fun task => left task.1 task.2 + 1).sum +
    (p.running.map fun task => left task.1 task.2).sum

section Runs

variable {limit : ℕ} {starts : Scheduler τ ρ ε} {next : Task τ ρ ε} {left : ℕ → τ → ℕ}
  {total : ℕ → τ → Except ε ρ}
  {results : List (Except ε ρ)} {initial : List τ} {p q : Pool τ ρ ε}

/-- The task started is the next one, and there was a place for it. -/
theorem step_start (hlimits : Limits limit starts) (h : step starts next p .start = some q) :
    ∃ task rest, p.waiting = task :: rest ∧ p.running.length < limit ∧
      q = { p with waiting := rest, running := p.running ++ [task] } := by
  obtain ⟨k, hstarts, hstarted⟩ := Option.bind_eq_some_iff.mp h
  obtain ⟨task, htask, rfl⟩ := Option.map_eq_some_iff.mp hstarted
  obtain rfl := hlimits.order hstarts
  cases hwaiting : p.waiting with
  | nil => simp [hwaiting] at htask
  | cons first rest =>
    rw [hwaiting, List.getElem?_cons_zero, Option.some.injEq] at htask
    exact ⟨first, rest, rfl, hlimits.bound hstarts, by rw [htask, List.eraseIdx_cons_zero]⟩

theorem step_resume {k : ℕ} (h : step starts next p (.resume k) = some q) :
    ∃ i s, p.running[k]? = some (i, s) ∧
      ((∃ s', next i s = .inl s' ∧ q = { p with running := p.running.set k (i, s') }) ∨
        ∃ result, next i s = .inr result ∧
          q = { p with
            running := p.running.eraseIdx k
            settled := p.settled ++ [(i, result)] }) := by
  simp only [step] at h
  split at h
  · cases h
  · rename_i i s hrunning
    refine ⟨i, s, hrunning, ?_⟩
    split at h
    · rename_i s' hnext
      exact .inl ⟨s', hnext, (Option.some.inj h).symm⟩
    · rename_i result hnext
      exact .inr ⟨result, hnext, (Option.some.inj h).symm⟩

theorem Accounted.step (hlimits : Limits limit starts) (hends : Ends next left total)
    (h : Accounted limit total results p) {a : Action} (hstep : step starts next p a = some q) :
    Accounted limit total results q := by
  cases a with
  | start =>
    obtain ⟨task, rest, hwaiting, hlimit, rfl⟩ := step_start hlimits hstep
    refine ⟨by simpa using hlimit, ?_, ?_, h.settled⟩
    · refine List.Perm.trans ?_ h.once
      rw [hwaiting]
      simp only [List.map_cons, List.map_append, List.map_nil]
      apply List.Perm.append_right
      rw [← List.append_assoc]
      exact List.perm_append_comm
    · intro t ht
      apply h.underway
      rw [hwaiting]
      simp only [List.mem_append, List.mem_cons, List.not_mem_nil, or_false] at ht ⊢
      tauto
  | resume k =>
    obtain ⟨i, s, hrunning, ⟨s', hnext, rfl⟩ | ⟨result, hnext, rfl⟩⟩ := step_resume hstep
    · have hmem := List.mem_of_getElem? hrunning
      obtain ⟨hk, hget⟩ := List.getElem?_eq_some_iff.mp hrunning
      refine ⟨by simpa using h.bounded, ?_, ?_, h.settled⟩
      · have hset := (List.set_perm_cons_eraseIdx hk (i, s')).map Prod.fst
        have hrest := (List.getElem_cons_eraseIdx_perm hk).map Prod.fst
        rw [hget, List.map_cons] at hrest
        rw [List.map_cons] at hset
        exact (((hset.trans hrest).append_left _).append_right _).trans h.once
      · intro t ht
        rcases List.mem_append.mp ht with hwaiting | hset
        · exact h.underway t (List.mem_append_left _ hwaiting)
        · rcases List.mem_or_eq_of_mem_set hset with hbefore | rfl
          · exact h.underway t (List.mem_append_right _ hbefore)
          · rw [h.underway (i, s) (List.mem_append_right _ hmem), (hends.more hnext).2]
    · have hmem := List.mem_of_getElem? hrunning
      obtain ⟨hk, hget⟩ := List.getElem?_eq_some_iff.mp hrunning
      refine ⟨(List.length_eraseIdx_le _ _).trans h.bounded, ?_, ?_, ?_⟩
      · refine List.Perm.trans ?_ h.once
        have hrest := (List.getElem_cons_eraseIdx_perm hk).map Prod.fst
        rw [hget, List.map_cons] at hrest
        rw [List.map_append, List.map_singleton, List.append_assoc, List.append_assoc]
        apply List.Perm.append_left
        refine List.Perm.trans ?_ (hrest.append_right _)
        rw [← List.append_assoc]
        exact List.perm_append_comm
      · intro t ht
        rcases List.mem_append.mp ht with hwaiting | herased
        · exact h.underway t (List.mem_append_left _ hwaiting)
        · exact h.underway t (List.mem_append_right _ (List.mem_of_mem_eraseIdx herased))
      · intro t ht
        rcases List.mem_append.mp ht with hbefore | hnew
        · exact h.settled t hbefore
        · obtain rfl := List.mem_singleton.mp hnew
          rw [h.underway (i, s) (List.mem_append_right _ hmem), (hends.done hnext).2]

/-- Every step is one step less to take. -/
theorem work_step (hlimits : Limits limit starts) (hends : Ends next left total) {a : Action}
    (hstep : step starts next p a = some q) : work left p = work left q + 1 := by
  cases a with
  | start =>
    obtain ⟨task, rest, hwaiting, _, rfl⟩ := step_start hlimits hstep
    simp only [work, hwaiting, List.map_cons, List.sum_cons, List.map_append, List.sum_append,
      List.map_nil, List.sum_nil]
    omega
  | resume k =>
    obtain ⟨i, s, hrunning, hresumed⟩ := step_resume hstep
    obtain ⟨hk, hget⟩ := List.getElem?_eq_some_iff.mp hrunning
    have hsum := ((List.getElem_cons_eraseIdx_perm hk).map fun task =>
      left task.1 task.2).sum_eq
    rw [hget, List.map_cons, List.sum_cons] at hsum
    dsimp only at hsum
    rcases hresumed with ⟨s', hnext, rfl⟩ | ⟨result, hnext, rfl⟩
    · have hset := ((List.set_perm_cons_eraseIdx hk (i, s')).map fun task =>
        left task.1 task.2).sum_eq
      rw [List.map_cons, List.sum_cons] at hset
      dsimp only at hset
      have hmore := (hends.more hnext).1
      simp only [work]
      omega
    · have hdone := (hends.done hnext).1
      simp only [work]
      omega

/-- A run takes as many steps as it leaves less to take. -/
theorem Accounted.run (hlimits : Limits limit starts) (hends : Ends next left total)
    (h : Accounted limit total results p) {as : List Action}
    (hrun : exec (WorkerPool.step starts next) p as = some q) :
    Accounted limit total results q ∧ as.length + work left q = work left p := by
  induction as generalizing p with
  | nil =>
    cases hrun
    exact ⟨h, by simp⟩
  | cons a as ih =>
    cases hstep : WorkerPool.step starts next p a with
    | none => simp [exec, hstep] at hrun
    | some p' =>
      rw [exec_cons_of_step as hstep] at hrun
      obtain ⟨haccounted, hwork⟩ := ih (h.step hlimits hends hstep) hrun
      have hone := work_step hlimits hends hstep
      rw [List.length_cons]
      exact ⟨haccounted, by omega⟩

theorem accounted_enqueued (limit : ℕ) (total : ℕ → τ → Except ε ρ) (initial : List τ) :
    Accounted limit total (initial.mapIdx total) (enqueued initial) where
  bounded := Nat.zero_le _
  once := by
    simp only [enqueued, List.map_map, List.map_nil, List.append_nil, List.length_mapIdx]
    have hfst : (Prod.fst ∘ Prod.swap : τ × ℕ → ℕ) = Prod.snd := rfl
    rw [hfst, List.zipIdx_map_snd, List.range_eq_range']
  underway := by
    intro task htask
    rw [enqueued, List.append_nil] at htask
    obtain ⟨⟨s, i⟩, hmem, rfl⟩ := List.mem_map.mp htask
    have hget := List.mk_mem_zipIdx_iff_getElem?.mp hmem
    rw [List.getElem?_mapIdx, Prod.fst_swap, Prod.snd_swap, hget, Option.map_some]
  settled := by
    intro task htask
    cases htask

theorem filterMap_getElem? {α : Type*} (l : List α) :
    (List.range l.length).filterMap (fun i => l[i]?) = l := by
  induction l using List.reverseRecOn with
  | nil => rfl
  | append_singleton l a ih =>
    rw [List.length_append, List.length_singleton, List.range_succ, List.filterMap_append]
    have hfirst : (List.range l.length).filterMap (fun i => (l ++ [a])[i]?) = l := by
      refine Eq.trans (List.filterMap_congr fun i hi => ?_) ih
      exact List.getElem?_append_left (List.mem_range.mp hi)
    rw [hfirst]
    simp

theorem failure?_eq_none {result : Except ε ρ} : failure? result = none ↔ ∃ v, result = .ok v := by
  cases result with
  | ok v => simp [failure?]
  | error e => simp [failure?]

theorem failure?_eq_some {result : Except ε ρ} {e : ε} :
    failure? result = some e ↔ result = .error e := by
  cases result with
  | ok v => simp [failure?]
  | error e => simp [failure?]

/-- Tasks that came to values one after another came to these values. -/
theorem mapM_ok (rs : List ρ) : (rs.map (Except.ok : ρ → Except ε ρ)).mapM id = .ok rs := by
  induction rs with
  | nil => rfl
  | cons r rs ih =>
    rw [List.map_cons, List.mapM_cons, ih]
    rfl

theorem mapM_error {results : List (Except ε ρ)} {e : ε} (h : .error e ∈ results) :
    ∃ e', results.mapM id = .error e' := by
  induction results with
  | nil => cases h
  | cons result results ih =>
    rw [List.mapM_cons]
    cases result with
    | error e' => exact ⟨e', rfl⟩
    | ok v =>
      obtain ⟨e', he'⟩ := ih (by simpa using h)
      exact ⟨e', by rw [he']; rfl⟩

/-- When all are settled, the numbers of the settled tasks are all numbers. -/
theorem Accounted.all (h : Accounted limit total results p)
    (hlength : p.settled.length = results.length) :
    (p.settled.map Prod.fst).Perm (List.range results.length) ∧ p.waiting = [] ∧
      p.running = [] := by
  have hsum := h.once.length_eq
  simp only [List.length_append, List.length_map, List.length_range] at hsum
  have hwaiting : p.waiting = [] := List.eq_nil_of_length_eq_zero (by omega)
  have hrunning : p.running = [] := List.eq_nil_of_length_eq_zero (by omega)
  refine ⟨?_, hwaiting, hrunning⟩
  have honce := h.once
  simpa only [hwaiting, hrunning, List.map_nil, List.nil_append] using honce

theorem Accounted.promiseAll_ok (h : Accounted limit total results p) {rs : List ρ}
    (hcollected : promiseAll results.length p.settled = some (.ok rs)) :
    results = rs.map .ok := by
  simp only [promiseAll] at hcollected
  cases hfailed : p.settled.findSome? fun task => failure? task.2 with
  | some e => simp [hfailed] at hcollected
  | none =>
    simp only [hfailed] at hcollected
    split_ifs at hcollected with hlength
    cases hcollected
    have hok := List.findSome?_eq_none_iff.mp hfailed
    obtain ⟨hperm, _⟩ := h.all hlength
    rw [List.map_filterMap]
    refine (filterMap_getElem? results).symm.trans (List.filterMap_congr fun i hi => ?_)
    obtain ⟨⟨i', result⟩, hmem, rfl⟩ := List.mem_map.mp (hperm.mem_iff.mpr hi)
    have hlookup : ∃ result', p.settled.lookup i' = some result' := by
      cases hnone : p.settled.lookup i' with
      | some result' => exact ⟨result', rfl⟩
      | none =>
        have habsent := List.lookup_eq_none_iff.mp hnone (i', result) hmem
        simp at habsent
    obtain ⟨result', hresult'⟩ := hlookup
    have hmem' : (i', result') ∈ p.settled := by
      obtain ⟨before, behind, hsplit, _⟩ := List.lookup_eq_some_iff.mp hresult'
      rw [hsplit]
      exact List.mem_append_right _ List.mem_cons_self
    obtain ⟨v, hv⟩ := failure?_eq_none.mp (hok _ hmem')
    dsimp only at hv
    subst hv
    dsimp only
    rw [hresult', Option.bind_some, h.settled _ hmem']
    rfl

theorem Accounted.promiseAll_error (h : Accounted limit total results p) {e : ε}
    (hcollected : promiseAll results.length p.settled = some (.error e)) :
    .error e ∈ results := by
  simp only [promiseAll] at hcollected
  cases hfailed : p.settled.findSome? fun task => failure? task.2 with
  | none =>
    simp only [hfailed] at hcollected
    split_ifs at hcollected
    cases hcollected
  | some e' =>
    simp only [hfailed] at hcollected
    cases hcollected
    obtain ⟨task, hmem, hfailure⟩ := List.exists_of_findSome?_eq_some hfailed
    have hsettled := h.settled task hmem
    rw [failure?_eq_some.mp hfailure] at hsettled
    exact List.mem_of_getElem? hsettled

/-- As long as nothing is collected a step can be taken. -/
theorem Accounted.progress (hlimits : Limits limit starts)
    (h : Accounted limit total results p)
    (hpending : promiseAll results.length p.settled = none) :
    ∃ a q, WorkerPool.step starts next p a = some q := by
  cases hrunning : p.running with
  | cons task rest =>
    obtain ⟨i, s⟩ := task
    cases hnext : next i s with
    | inl s' => exact ⟨.resume 0, _, by simp [WorkerPool.step, hrunning, hnext]; rfl⟩
    | inr result => exact ⟨.resume 0, _, by simp [WorkerPool.step, hrunning, hnext]; rfl⟩
  | nil =>
    cases hwaiting : p.waiting with
    | cons task rest =>
      obtain ⟨k, hstarts⟩ := Option.isSome_iff_exists.mp
        (hlimits.serves hrunning (by simp [hwaiting]))
      obtain rfl := hlimits.order hstarts
      exact ⟨.start, _, by simp [WorkerPool.step, hstarts, hwaiting]; rfl⟩
    | nil =>
      exfalso
      have hsum := h.once.length_eq
      simp only [hrunning, hwaiting, List.length_append, List.length_map, List.length_range,
        List.length_nil, Nat.zero_add] at hsum
      simp only [promiseAll, hsum, if_true] at hpending
      split at hpending
      · cases hpending
      · cases hpending

/-- What a run has collected is what the tasks come to one after another; it fails with what one
of them comes to, if that sequence fails. No run is stuck before, and none takes more steps than
the tasks have. -/
structure Collected (limit : ℕ) (starts : Scheduler τ ρ ε) (next : Task τ ρ ε)
    (results : List (Except ε ρ)) (steps : ℕ) (as : List Action) (p : Pool τ ρ ε) : Prop where
  bounded : p.running.length ≤ limit
  ok : ∀ rs, promiseAll results.length p.settled = some (.ok rs) → results.mapM id = .ok rs
  error : ∀ e, promiseAll results.length p.settled = some (.error e) →
    .error e ∈ results ∧ ∃ e', results.mapM id = .error e'
  progress : promiseAll results.length p.settled = none →
    ∃ a q, WorkerPool.step starts next p a = some q
  ends : as.length ≤ steps

theorem collected_of_exec (hlimits : Limits limit starts) (hends : Ends next left total)
    {as : List Action} (hrun : exec (step starts next) (enqueued initial) as = some p) :
    Collected limit starts next (initial.mapIdx total)
      (work left (enqueued initial : Pool τ ρ ε)) as p := by
  obtain ⟨haccounted, hwork⟩ := (accounted_enqueued limit total initial).run hlimits hends hrun
  refine ⟨haccounted.bounded, ?_, ?_, haccounted.progress hlimits, by omega⟩
  · intro rs hrs
    rw [haccounted.promiseAll_ok hrs]
    exact mapM_ok rs
  · intro e he
    have hmem := haccounted.promiseAll_error he
    exact ⟨hmem, mapM_error hmem⟩

end Runs

end HeirsOcr.WorkerPool
