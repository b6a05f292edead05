import HeirsOcr.Backups

/-!
# A restore that fails midway

A restore commits each of its statements by itself. When the store fails at one of them the
call throws, and what the statements before it did stays: the first rows of the backup, in
the order plans, subscriptions, settings, are put back and the others are not. A restore
that goes through later puts all of them back.
-/
namespace HeirsOcr.RestoreFailure
open KeyedTable Json RowReplay StepMachine Backups

variable {N τ : Type} {toISOString : τ → String} {byteLength : Value N → ℕ}
  {s t u : Store N τ} {id : String} {answer : ℕ → Answer τ}

/-- How many rows are put back when the `k`th query, the `SELECT` being the first, fails:
those before it, and its own when only its answer was lost. -/
def rowsBack (answer : ℕ → Answer τ) : ℕ → ℕ
  | 0 => 0
  | k + 1 => k + (answer (k + 1)).ran

/-- The `k`th query of a restore is the first to fail. -/
theorem restoreBackup_fails (hb : BackupOf toISOString s id t) {k : ℕ}
    (hk : k ≤ (captured toISOString s).length) (hdone : ∀ i < k, ∃ now, answer i = .done now)
    (hfail : ∀ now, answer k ≠ .done now) :
    ∃ u, restoreBackup toISOString answer t id = (u, .failed) ∧
      RestoredUpTo (rowsBack answer k) s t u := by
  cases k with
  | zero =>
    refine ⟨t, ?_, restoredUpTo_zero s t⟩
    unfold restoreBackup
    cases hanswer : answer 0 with
    | done now => exact absurd hanswer (hfail now)
    | lost now => rfl
    | refused => rfl
  | succ k =>
    obtain ⟨now, hselect⟩ := hdone 0 (by omega)
    have hbefore : ∀ i < k, ∃ now, answer (1 + i) = .done now := fun i hi =>
      hdone (1 + i) (by omega)
    rw [Nat.add_comm k 1] at hfail
    have hrun : ∃ u, replay execute answer 1 (captured toISOString s) t = (u, false) ∧
        RestoredUpTo (k + (answer (1 + k)).ran) s t u :=
      replay_fails (advances_execute s t) (by omega) hbefore hfail (restoredUpTo_zero s t)
    obtain ⟨u, hreplay, hrestored⟩ := hrun
    have heq := restoreBackup_eq hb hselect
    rw [hreplay] at heq
    rw [Nat.add_comm 1 k] at hrestored
    exact ⟨u, heq, hrestored⟩

/-- When the store fails at a query of a restore, the call reports it, the rows before it are
put back and no other row is touched; and a restore that does not fail completes it. -/
theorem failed_restore_resumes {s' : Store N τ} {actor : String} {note : Option String} {now : τ}
    {manifest : BackupManifest}
    (hcreate : createBackup toISOString byteLength s id actor note now = some (manifest, s'))
    {as : List (Action N τ)} (hlater : exec (step toISOString byteLength) s' as = some t) {k : ℕ}
    (hk : k ≤ (captured toISOString s).length) (hdone : ∀ i < k, ∃ now, answer i = .done now)
    (hfail : ∀ now, answer k ≠ .done now) :
    ∃ u, restoreBackup toISOString answer t manifest.id = (u, .failed) ∧
      RestoredUpTo (rowsBack answer k) s t u ∧
      ∀ answer' : ℕ → Answer τ, (∀ i, ∃ now, answer' i = .done now) →
        ∃ v, restoreBackup toISOString answer' u manifest.id = (v, .applied (countsOf s)) ∧
          RestoredFrom s t v := by
  have hb := backupOf_exec (backupOf_createBackup hcreate) hlater
  obtain ⟨u, hu, hrestored⟩ := restoreBackup_fails hb hk hdone hfail
  refine ⟨u, hu, hrestored, fun answer' hdone' => ?_⟩
  have hbu := hb.restoreBackup answer
  rw [hu] at hbu
  obtain ⟨v, hv, hall, -⟩ := restoreBackup_done hbu hdone'
  exact ⟨v, hv, hrestored.resume hall⟩

/-- The connection fails at the third query, after the plan has been put back. -/
def failingThird : ℕ → Answer ℕ
  | 0 => .done 5
  | 1 => .done 6
  | _ => .refused

theorem failed_restore_resumes_catalog :
    ∃ manifest s' t, createBackup Nat.repr (fun _ => 2) catalog "b1" "admin1" none 3 =
        some (manifest, s') ∧ exec (step Nat.repr fun _ => 2) s' [edited] = some t ∧
      ∃ u, restoreBackup Nat.repr failingThird t manifest.id = (u, .failed) ∧
        RestoredUpTo (rowsBack failingThird 2) catalog t u ∧
        ∀ answer' : ℕ → Answer ℕ, (∀ i, ∃ now, answer' i = .done now) →
          ∃ v, restoreBackup Nat.repr answer' u manifest.id = (v, .applied (countsOf catalog)) ∧
            RestoredFrom catalog t v := by
  obtain ⟨⟨manifest, s'⟩, hcreate⟩ : ∃ created,
      createBackup Nat.repr (fun _ => 2) catalog "b1" "admin1" none 3 = some created := ⟨_, rfl⟩
  obtain ⟨t, hlater⟩ : ∃ t, exec (step Nat.repr fun _ => 2) s' [edited] = some t := ⟨_, rfl⟩
  have hdone : ∀ i < 2, ∃ now, failingThird i = .done now
    | 0, _ => ⟨5, rfl⟩
    | 1, _ => ⟨6, rfl⟩
  exact ⟨manifest, s', t, hcreate, hlater,
    failed_restore_resumes hcreate hlater (by decide) hdone fun now h => by cases h⟩

/-- The deleted plan is back when the restore fails, and so the plans are not what they
were. -/
theorem failed_restore_keeps_a_plan :
    let run := exec (step Nat.repr fun _ => 2) catalog
      [.createBackup "b1" "admin1" none 3, edited, .restoreBackup failingThird "b1"]
    let before := exec (step Nat.repr fun _ => 2) catalog
      [.createBackup "b1" "admin1" none 3, edited]
    before.map (fun t => (restoreBackup Nat.repr failingThird t "b1").2) = some .failed ∧
      before.map (fun t => (t.plans.find? "starter").map PlanRow.tier) = some none ∧
      run.map (fun u => (u.plans.find? "starter").map PlanRow.tier) = some (some "starter") := by
  decide +kernel

end HeirsOcr.RestoreFailure
