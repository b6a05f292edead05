import HeirsOcr.KeyedTable

/-!
# Rows put back into a table

A program issues one statement after the other and stops at the first that fails. A failed
statement has not run, or it has and only its answer was lost. Rows copied out of a table
are put back one at a time by upserts; after each of them the table holds the columns of
the rows put back so far, and in every other key the row it had.
-/
namespace HeirsOcr.RowReplay
open KeyedTable

/-- How a statement ends: it ran at a time, it ran and the answer was lost, or it did not
run. -/
inductive Answer (τ : Type*) where
  | done (now : τ)
  | lost (now : τ)
  | refused
  deriving DecidableEq, Repr

/-- How many statements this one adds to those that ran. -/
def Answer.ran {τ : Type*} : Answer τ → ℕ
  | .done _ | .lost _ => 1
  | .refused => 0

section Replay

variable {ι σ τ : Type*} (execute : ι → τ → σ → Option σ) (answer : ℕ → Answer τ)

/-- The statements in order, the first of them answered by `answer i`, and whether all of them
succeeded. A statement that `execute` takes to nothing is one the store cannot run. -/
def replay : ℕ → List ι → σ → σ × Bool
  | _, [], s => (s, true)
  | i, statement :: rest, s =>
    match answer i with
    | .refused => (s, false)
    | .lost now => ((execute statement now s).getD s, false)
    | .done now =>
      match execute statement now s with
      | none => (s, false)
      | some t => replay (i + 1) rest t

variable {execute answer}

/-- What no statement undoes still holds when the statements stop. -/
theorem replay_keeps {Q : σ → Prop}
    (hkeep : ∀ statement now s t, Q s → execute statement now s = some t → Q t) {i : ℕ}
    {statements : List ι} {s : σ} (hs : Q s) : Q (replay execute answer i statements s).1 := by
  induction statements generalizing i s with
  | nil => exact hs
  | cons statement rest ih =>
    unfold replay
    cases answer i with
    | refused => exact hs
    | lost now =>
      cases hexecute : execute statement now s with
      | none => simpa [hexecute] using hs
      | some t => simpa [hexecute] using hkeep statement now s t hs hexecute
    | done now =>
      cases hexecute : execute statement now s with
      | none => simpa [hexecute] using hs
      | some t => simpa [hexecute] using ih (hkeep statement now s t hs hexecute)

variable (execute) in
/-- Every statement can run, and `P m` holds once `m` of them have. -/
def Advances (statements : List ι) (P : ℕ → σ → Prop) : Prop :=
  ∀ m statement now s, statements[m]? = some statement → P m s →
    ∃ t, execute statement now s = some t ∧ P (m + 1) t

variable {statements : List ι} {P : ℕ → σ → Prop}

/-- The first `n` of them succeed. -/
theorem replay_drop (hstep : Advances execute statements P) {first n : ℕ}
    (hn : n ≤ statements.length)
    (hdone : ∀ i < n, ∃ now, answer (first + i) = .done now) {s : σ} (hs : P 0 s) :
    ∃ t, replay execute answer first statements s =
      replay execute answer (first + n) (statements.drop n) t ∧ P n t := by
  induction n with
  | zero => exact ⟨s, rfl, hs⟩
  | succ n ih =>
    obtain ⟨t, ht, hP⟩ := ih (by omega) fun i hi => hdone i (by omega)
    obtain ⟨now, hnow⟩ := hdone n (by omega)
    have hlt : n < statements.length := by omega
    obtain ⟨u, hu, hPu⟩ := hstep n statements[n] now t (List.getElem?_eq_getElem hlt) hP
    refine ⟨u, ?_, hPu⟩
    rw [ht, List.drop_eq_getElem_cons hlt]
    simp only [replay, hnow, hu, Nat.add_assoc]

/-- All of them succeed. -/
theorem replay_done (hstep : Advances execute statements P) {first : ℕ}
    (hdone : ∀ i, ∃ now, answer (first + i) = .done now) {s : σ} (hs : P 0 s) :
    ∃ t, replay execute answer first statements s = (t, true) ∧ P statements.length t := by
  obtain ⟨t, ht, hP⟩ := replay_drop hstep le_rfl (fun i _ => hdone i) hs
  rw [List.drop_length] at ht
  exact ⟨t, ht, hP⟩

/-- All before the `n`th succeed, and it fails. -/
theorem replay_fails (hstep : Advances execute statements P) {first n : ℕ}
    (hn : n < statements.length)
    (hdone : ∀ i < n, ∃ now, answer (first + i) = .done now)
    (hfail : ∀ now, answer (first + n) ≠ .done now) {s : σ} (hs : P 0 s) :
    ∃ t, replay execute answer first statements s = (t, false) ∧
      P (n + (answer (first + n)).ran) t := by
  obtain ⟨t, ht, hP⟩ := replay_drop hstep hn.le hdone hs
  rw [List.drop_eq_getElem_cons hn] at ht
  cases hanswer : answer (first + n) with
  | done now => exact absurd hanswer (hfail now)
  | refused => exact ⟨t, by rw [ht]; simp only [replay, hanswer], hP⟩
  | lost now =>
    obtain ⟨u, hu, hPu⟩ := hstep n statements[n] now t (List.getElem?_eq_getElem hn) hP
    exact ⟨u, by rw [ht]; simp only [replay, hanswer, hu, Option.getD_some], hPu⟩

end Replay

section Restored

variable {ρ κ γ : Type*} [DecidableEq κ] {key : ρ → κ} {columns : ρ → γ}

/-- `restored` is `present` with the columns of `captured` put back and nothing else changed. -/
structure Restored (columns : ρ → γ) (captured : List ρ) (present restored : Table key) :
    Prop where
  back : ∀ row ∈ captured, (restored.find? (key row)).map columns = some (columns row)
  others : ∀ k, k ∉ captured.map key → restored.find? k = present.find? k

variable {captured : List ρ} {present restored again source : Table key}

theorem Restored.none (t : Table key) : Restored columns [] t t where
  back _ hrow := absurd hrow List.not_mem_nil
  others _ _ := rfl

/-- One more row of a table is put back. -/
theorem Restored.next {m : ℕ} {row new : ρ} {merge : ρ → ρ → ρ}
    {hm : ∀ old, key (merge old new) = key old} (hrow : source.rows[m]? = some row)
    (hkey : key new = key row) (hnew : columns new = columns row)
    (hmerge : ∀ old, key old = key row → columns (merge old new) = columns row)
    (h : Restored columns (source.rows.take m) present restored) :
    Restored columns (source.rows.take (m + 1)) present (restored.upsert new merge hm) := by
  have htake : source.rows.take (m + 1) = source.rows.take m ++ [row] := by
    rw [List.take_add_one, hrow, Option.toList_some]
  have hfresh : key row ∉ (source.rows.take m).map key := by
    have hnodup := ((List.take_sublist (m + 1) source.rows).map key).nodup source.nodup
    rw [htake, List.map_append, List.map_singleton] at hnodup
    exact fun hmem => List.disjoint_of_nodup_append hnodup hmem List.mem_cons_self
  rw [htake]
  constructor
  · intro r hr
    rw [Table.find?_upsert]
    rcases List.mem_append.mp hr with hold | hlast
    · have hne : key new ≠ key r := by
        rw [hkey]
        exact fun heq => hfresh (heq ▸ List.mem_map_of_mem hold)
      rw [if_neg hne]
      exact h.back r hold
    · obtain rfl := List.mem_singleton.mp hlast
      rw [if_pos hkey]
      cases hfind : restored.find? (key r) with
      | none => exact congrArg some hnew
      | some old => exact congrArg some (hmerge old (Table.key_of_find? hfind))
  · intro k hk
    rw [List.map_append, List.mem_append, not_or, List.map_singleton, List.mem_singleton] at hk
    rw [Table.find?_upsert, if_neg (by rw [hkey]; exact Ne.symm hk.2)]
    exact h.others k hk.1

/-- To go on after a part of the rows was put back is to put all of them back. -/
theorem Restored.resume {part : List ρ} (hpart : part ⊆ captured)
    (h : Restored columns part present restored) (h' : Restored columns captured restored again) :
    Restored columns captured present again where
  back := h'.back
  others k hk := by
    have hnot : k ∉ part.map key := fun hmem => hk (List.map_subset key hpart hmem)
    rw [h'.others k hk, h.others k hnot]

/-- To put rows back that are back already changes no column. -/
theorem Restored.same_columns (h : Restored columns captured present restored)
    (h' : Restored columns captured restored again) (k : κ) :
    (again.find? k).map columns = (restored.find? k).map columns := by
  by_cases hk : k ∈ captured.map key
  · obtain ⟨row, hrow, rfl⟩ := List.mem_map.mp hk
    rw [h'.back row hrow, h.back row hrow]
  · rw [h'.others k hk]

end Restored

end HeirsOcr.RowReplay
