import HeirsOcr.Mfa

/-!
# Enabled means proved

A row that is enabled should hold the secret a code was verified against when it was
enabled. The two writes that can break this look at nothing: `beginEnrolment` replaces
the secret and clears the flag, `confirmEnrolment` sets the flag beside whatever secret
is stored by then. The property holds in a run exactly when neither is overtaken.
-/
namespace HeirsOcr.Mfa
open StepMachine Totp

/-- An enabled row holds the secret proved by the confirmation that enabled it. -/
def EnabledProved (d : Digests) (s : Account) : Prop :=
  s.row.enabled → ∃ secret, s.row.secret = some secret ∧ s.proved = some secret ∧
    Proved d secret

/-- The row stops being enabled only by `disableMfa`. -/
def StaysEnabled (s : Account) (a : Action) (t : Account) : Prop :=
  s.row.enabled → ¬t.row.enabled → a = .disableMfa

/-- Every confirmation under way has verified a code against its secret. -/
def CallsProved (d : Digests) (s : Account) : Prop :=
  ∀ secret counter minted, .confirmEnrolment secret counter minted ∈ s.calls → Proved d secret

/-- The condition of a write: a secret is stored only while the row is not enabled, and
a confirmation that enables the row finds the secret it verified. -/
def WriteCurrent (row : MfaRow) : Write → Prop
  | .beginEnrolment _ => row.enabled = false
  | .confirmEnrolment secret _ _ => row.enabled ∨ row.secret = some secret
  | _ => True

def WritesCurrent (s : Account) : Action → Prop
  | .write i => ∀ w ∈ s.calls[i]?, WriteCurrent s.row w
  | _ => True

instance (row : MfaRow) : DecidablePred (WriteCurrent row)
  | .beginEnrolment _ => inferInstanceAs (Decidable (row.enabled = false))
  | .confirmEnrolment secret _ _ =>
    inferInstanceAs (Decidable (row.enabled ∨ row.secret = some secret))
  | .totp _ | .recovery .. | .regenerateRecoveryCodes _ => inferInstanceAs (Decidable True)

instance (s : Account) : DecidablePred (WritesCurrent s)
  | .write i => inferInstanceAs (Decidable (∀ w ∈ s.calls[i]?, WriteCurrent s.row w))
  | .beginEnrolment _ | .confirmEnrolment .. | .verifyMfa .. | .regenerateRecoveryCodes _
  | .disableMfa | .lose _ => inferInstanceAs (Decidable True)

theorem callsProved_step {d : Digests} {s t : Account} {a : Action} (hs : CallsProved d s)
    (h : step d s a = some t) : CallsProved d t := by
  intro secret counter minted hmem
  rcases step_cases h with ⟨i, w, -, -, rfl⟩ | ⟨-, rfl⟩ | ⟨-, calls, rfl, hcalls⟩
  · rw [run_calls] at hmem
    exact hs secret counter minted (List.mem_of_mem_eraseIdx hmem)
  · exact hs secret counter minted hmem
  · rcases hcalls _ hmem with hold | hread
    · exact hs secret counter minted hold
    · cases a with
      | confirmEnrolment code at' draws =>
        obtain ⟨secret', counter', minted', hw, -, hp⟩ := readConfirm_eq_some hread
        cases hw
        exact hp
      | beginEnrolment random =>
        simp only [readRow, readBegin] at hread
        split_ifs at hread
        cases hread
      | regenerateRecoveryCodes draws =>
        simp only [readRow, readRegenerate] at hread
        split_ifs at hread <;> simp at hread
      | verifyMfa code at' =>
        rcases readVerify_eq_some hread with ⟨c, hw, -⟩ | ⟨hw, -⟩ <;> cases hw
      | disableMfa => cases hread
      | write i => cases hread
      | lose i => cases hread

/-- The step lemma: out of a good state, a step leads to a good one without clearing the
flag exactly under its condition. -/
theorem enabledProved_step_iff {d : Digests} {s t : Account} {a : Action}
    (hs : EnabledProved d s) (hc : CallsProved d s) (h : step d s a = some t) :
    EnabledProved d t ∧ StaysEnabled s a t ↔ WritesCurrent s a := by
  rcases step_cases h with ⟨i, w, rfl, hw, rfl⟩ | ⟨rfl, rfl⟩ | ⟨hno, calls, rfl, -⟩
  · have hmem : w ∈ s.calls := List.mem_of_getElem? hw
    have hcond : WritesCurrent s (.write i) ↔ WriteCurrent s.row w := by
      simp [WritesCurrent, hw]
    rw [hcond]
    cases w with
    | beginEnrolment secret =>
      constructor
      · rintro ⟨-, hstay⟩
        by_contra hen
        have hon : s.row.enabled = true := by simpa [WriteCurrent] using hen
        have hdis := hstay hon (by simp [runWrite])
        cases hdis
      · intro hoff
        refine ⟨fun he => ?_, fun he => ?_⟩
        · cases he
        · rw [show s.row.enabled = false from hoff] at he
          cases he
    | confirmEnrolment secret counter minted =>
      have hproved := hc secret counter minted hmem
      constructor
      · rintro ⟨hgood, -⟩
        by_cases hen : s.row.enabled
        · exact Or.inl hen
        · obtain ⟨p, hsecret, hp, -⟩ := hgood rfl
          simp only [Account.run, hen, Bool.false_eq_true, if_false, Option.some.injEq] at hp
          subst hp
          exact Or.inr hsecret
      · intro hok
        refine ⟨fun _ => ?_, fun _ hoff => absurd rfl hoff⟩
        by_cases hen : s.row.enabled
        · obtain ⟨p, hsecret, hp, hpp⟩ := hs hen
          exact ⟨p, hsecret, by simpa [Account.run, hen] using hp, hpp⟩
        · have hsecret := hok.resolve_left hen
          exact ⟨secret, hsecret, by simp [Account.run, hen], hproved⟩
    | regenerateRecoveryCodes minted =>
      exact iff_of_true ⟨hs, fun hon hoff => absurd hon hoff⟩ trivial
    | totp counter => exact iff_of_true ⟨hs, fun hon hoff => absurd hon hoff⟩ trivial
    | recovery submitted stored =>
      exact iff_of_true ⟨hs, fun hon hoff => absurd hon hoff⟩ trivial
  · refine iff_of_true ⟨fun he => ?_, fun _ _ => rfl⟩ trivial
    cases he
  · refine iff_of_true ⟨hs, fun hon hoff => absurd hon hoff⟩ ?_
    cases a with
    | write i => exact absurd rfl (hno i)
    | _ => trivial

/-- In a run every enabled row holds the secret its confirmation proved, and the flag
falls only by `disableMfa`, exactly when no write of an enrolment is overtaken: a secret
is stored only while the row is not enabled, and a confirmation that enables the row
finds the secret it verified. -/
theorem enabled_proved_iff (d : Digests) (s : Account) (as : List Action)
    (hs : EnabledProved d s) (hc : CallsProved d s) :
    Along (step d) (fun s a t => EnabledProved d t ∧ StaysEnabled s a t) s as ↔
      Guarded (step d) WritesCurrent s as := by
  refine along_iff_guarded (I := fun s => EnabledProved d s ∧ CallsProved d s) ?_ ?_ ⟨hs, hc⟩
  · exact fun s a t hI ht => enabledProved_step_iff hI.1 hI.2 ht
  · intro s a t hI ha ht
    exact ⟨((enabledProved_step_iff hI.1 hI.2 ht).mpr ha).1, callsProved_step hI.2 ht⟩

/-- A row whose secret waits for its confirming code. -/
def pendingAccount : Account where
  row := ⟨some rfcSecret, false, none, none⟩
  calls := []
  accepted := []
  gone := []
  proved := none

/-- The code of counter one confirms the pending secret. -/
theorem enabled_proved_confirmed :
    Along (step rfcDigests) (fun s a t => EnabledProved rfcDigests t ∧ StaysEnabled s a t)
      pendingAccount [.confirmEnrolment "287 082" 59000 fun _ _ => 0, .write 0] :=
  (enabled_proved_iff rfcDigests pendingAccount _ nofun nofun).mpr (by decide)

/-- While a confirmation is under way a second enrolment begins and stores its secret,
and the confirmation then enables a secret no code was verified against. -/
theorem begin_overtakes_confirm :
    ¬Along (step rfcDigests) (fun s a t => EnabledProved rfcDigests t ∧ StaysEnabled s a t)
      pendingAccount
      [.confirmEnrolment "287 082" 59000 fun _ _ => 0, .beginEnrolment (List.replicate 20 0),
        .write 1, .write 0] := by
  intro h
  have hweak : Along (step rfcDigests)
      (fun _ _ t => t.row.enabled = true → t.row.secret = t.proved) pendingAccount
      [.confirmEnrolment "287 082" 59000 fun _ _ => 0, .beginEnrolment (List.replicate 20 0),
        .write 1, .write 0] := by
    refine h.mono fun s a t ht hen => ?_
    obtain ⟨secret, hsecret, hproved, -⟩ := ht.1 hen
    rw [hsecret, hproved]
  exact absurd hweak (by decide)

end HeirsOcr.Mfa
