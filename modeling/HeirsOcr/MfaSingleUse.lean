import HeirsOcr.Mfa

/-!
# Each factor is accepted once

A verification that has read the row will be accepted, whatever is written before its own
write. Two verifications that overlap can therefore spend one counter or one recovery
code twice, and a recovery that overlaps another write stores the list it read over the
newer one. In runs whose writes find what their calls read, every factor is accepted at
most once, the counter only grows, and no code comes back.
-/
namespace HeirsOcr.Mfa
open StepMachine

/-- The calls the property speaks about: verifications, regenerations, their writes. -/
def secondFactorCall : Action → Prop
  | .verifyMfa .. | .regenerateRecoveryCodes _ | .write _ | .lose _ => True
  | .beginEnrolment _ | .confirmEnrolment .. | .disableMfa => False

/-- The condition of a write: a counter is above the stored one, a recovery finds the
list it read, and regenerated codes are new. -/
def WriteInOrder (s : Account) : Write → Prop
  | .totp counter => ∀ l ∈ s.row.lastCounter, l < counter
  | .recovery _ stored => codes s.row = stored
  | .regenerateRecoveryCodes minted =>
    minted.Nodup ∧ ∀ h ∈ minted, h ∉ codes s.row ∧ h ∉ s.gone
  | _ => True

def WritesInOrder (s : Account) : Action → Prop
  | .write i => ∀ w ∈ s.calls[i]?, WriteInOrder s w
  | _ => True

instance : DecidablePred secondFactorCall
  | .verifyMfa .. | .regenerateRecoveryCodes _ | .write _ | .lose _ =>
    inferInstanceAs (Decidable True)
  | .beginEnrolment _ | .confirmEnrolment .. | .disableMfa => inferInstanceAs (Decidable False)

instance (s : Account) : DecidablePred (WriteInOrder s)
  | .totp counter => inferInstanceAs (Decidable (∀ l ∈ s.row.lastCounter, l < counter))
  | .recovery _ stored => inferInstanceAs (Decidable (codes s.row = stored))
  | .regenerateRecoveryCodes minted =>
    inferInstanceAs (Decidable (minted.Nodup ∧ ∀ h ∈ minted, h ∉ codes s.row ∧ h ∉ s.gone))
  | .beginEnrolment _ | .confirmEnrolment .. => inferInstanceAs (Decidable True)

instance (s : Account) : DecidablePred (WritesInOrder s)
  | .write i => inferInstanceAs (Decidable (∀ w ∈ s.calls[i]?, WriteInOrder s w))
  | .beginEnrolment _ | .confirmEnrolment .. | .verifyMfa .. | .regenerateRecoveryCodes _
  | .disableMfa | .lose _ => inferInstanceAs (Decidable True)

/-- No factor accepted twice, and nothing spent or superseded in the stored list. -/
def UsedOnce (s : Account) : Prop :=
  s.accepted.Nodup ∧ ∀ h ∈ s.gone, h ∉ codes s.row

/-- The stored counter does not go down. -/
def CounterGrows (s t : Account) : Prop :=
  ∀ l ∈ s.row.lastCounter, ∃ l' ∈ t.row.lastCounter, l ≤ l'

instance : DecidablePred UsedOnce := fun s =>
  inferInstanceAs (Decidable (s.accepted.Nodup ∧ ∀ h ∈ s.gone, h ∉ codes s.row))

/-- What a verification or a regeneration may have left to write. -/
def secondFactorWrite : Write → Prop
  | .totp _ | .regenerateRecoveryCodes _ => True
  | .recovery submitted stored => submitted ∈ stored
  | .beginEnrolment _ | .confirmEnrolment .. => False

/-- The invariant: accepted counters are at most the stored one, accepted codes are
spent, stored codes are distinct and none of them is spent. -/
structure SingleUse (s : Account) : Prop where
  accepted_nodup : s.accepted.Nodup
  codes_nodup : (codes s.row).Nodup
  counter_le : ∀ c, .totp c ∈ s.accepted → ∃ l ∈ s.row.lastCounter, c ≤ l
  spent : ∀ h, .recovery h ∈ s.accepted → h ∈ s.gone
  gone : ∀ h ∈ s.gone, h ∉ codes s.row
  calls : ∀ w ∈ s.calls, secondFactorWrite w

theorem SingleUse.usedOnce {s : Account} (hs : SingleUse s) : UsedOnce s :=
  ⟨hs.accepted_nodup, hs.gone⟩

theorem counterGrows_refl (s : Account) : CounterGrows s s := fun l hl => ⟨l, hl, le_rfl⟩

section Run

variable {s : Account} {i : ℕ}

/-- A counter above the stored one has not been accepted before. -/
theorem singleUse_run_totp {counter : ℤ} (hs : SingleUse s)
    (hord : ∀ l ∈ s.row.lastCounter, l < counter) : SingleUse (s.run i (.totp counter)) where
  accepted_nodup := by
    refine List.nodup_cons.mpr ⟨fun hmem => ?_, hs.accepted_nodup⟩
    obtain ⟨l, hl, hle⟩ := hs.counter_le counter hmem
    have := hord l hl
    omega
  codes_nodup := hs.codes_nodup
  counter_le := by
    intro c hc
    refine ⟨counter, rfl, ?_⟩
    rcases List.mem_cons.mp hc with hc | hc
    · cases hc
      exact le_rfl
    · obtain ⟨l, hl, hle⟩ := hs.counter_le c hc
      have := hord l hl
      omega
  spent := by
    intro h hmem
    rcases List.mem_cons.mp hmem with hmem | hmem
    · cases hmem
    · exact hs.spent h hmem
  gone := hs.gone
  calls := fun w hw => hs.calls w (List.mem_of_mem_eraseIdx hw)

/-- A code that is still stored is not spent, so it has not been accepted before. -/
theorem singleUse_run_recovery {submitted : String} (hs : SingleUse s)
    (hmem : submitted ∈ codes s.row) :
    SingleUse (s.run i (.recovery submitted (codes s.row))) where
  accepted_nodup := by
    refine List.nodup_cons.mpr ⟨fun hacc => ?_, hs.accepted_nodup⟩
    exact hs.gone submitted (hs.spent submitted hacc) hmem
  codes_nodup := hs.codes_nodup.erase submitted
  counter_le := by
    intro c hc
    rcases List.mem_cons.mp hc with hc | hc
    · cases hc
    · exact hs.counter_le c hc
  spent := by
    intro h hacc
    rcases List.mem_cons.mp hacc with hacc | hacc
    · cases hacc
      exact List.mem_cons_self ..
    · exact List.mem_cons_of_mem _ (hs.spent h hacc)
  gone := by
    intro h hh hcode
    have hstored : h ≠ submitted ∧ h ∈ codes s.row := hs.codes_nodup.mem_erase_iff.mp hcode
    rcases List.mem_cons.mp hh with rfl | hh
    · exact hstored.1 rfl
    · exact hs.gone h hh hstored.2
  calls := fun w hw => hs.calls w (List.mem_of_mem_eraseIdx hw)

theorem singleUse_run_regenerate {minted : List String} (hs : SingleUse s)
    (hnodup : minted.Nodup) (hnew : ∀ h ∈ minted, h ∉ codes s.row ∧ h ∉ s.gone) :
    SingleUse (s.run i (.regenerateRecoveryCodes minted)) where
  accepted_nodup := hs.accepted_nodup
  codes_nodup := hnodup
  counter_le := hs.counter_le
  spent := fun h hacc => List.mem_append_right _ (hs.spent h hacc)
  gone := by
    intro h hh hcode
    rcases List.mem_append.mp hh with hold | hold
    · exact (hnew h hcode).1 hold
    · exact (hnew h hcode).2 hold
  calls := fun w hw => hs.calls w (List.mem_of_mem_eraseIdx hw)

end Run

/-- The read halves of the two operations leave only their own writes. -/
theorem secondFactorWrite_of_read {d : Digests} {row : MfaRow} {a : Action} {w : Write}
    (ha : secondFactorCall a) (h : readRow d row a = .ok (some w)) : secondFactorWrite w := by
  cases a with
  | verifyMfa code at' =>
    rcases readVerify_eq_some h with ⟨c, rfl, -⟩ | ⟨rfl, hmem⟩
    · trivial
    · exact hmem
  | regenerateRecoveryCodes draws =>
    simp only [readRow, readRegenerate] at h
    split_ifs at h
    · obtain rfl : Write.regenerateRecoveryCodes _ = w := by simpa using h
      trivial
    · simp at h
  | write i => cases h
  | lose i => cases h
  | beginEnrolment random => exact ha.elim
  | confirmEnrolment code at' draws => exact ha.elim
  | disableMfa => exact ha.elim

/-- The step lemma: a step in order keeps the invariant and does not lower the counter. -/
theorem singleUse_step {d : Digests} {s t : Account} {a : Action} (hs : SingleUse s)
    (hcall : secondFactorCall a) (hord : WritesInOrder s a) (h : step d s a = some t) :
    SingleUse t ∧ CounterGrows s t := by
  rcases step_cases h with ⟨i, w, rfl, hw, rfl⟩ | ⟨rfl, -⟩ | ⟨-, calls, rfl, hcalls⟩
  · have hkind := hs.calls w (List.mem_of_getElem? hw)
    have hw_ord : WriteInOrder s w := hord w hw
    cases w with
    | totp counter =>
      exact ⟨singleUse_run_totp hs hw_ord, fun l hl => ⟨counter, rfl, (hw_ord l hl).le⟩⟩
    | recovery submitted stored =>
      obtain rfl : codes s.row = stored := hw_ord
      exact ⟨singleUse_run_recovery hs hkind, counterGrows_refl s⟩
    | regenerateRecoveryCodes minted =>
      exact ⟨singleUse_run_regenerate hs hw_ord.1 hw_ord.2, counterGrows_refl s⟩
    | beginEnrolment secret => exact hkind.elim
    | confirmEnrolment secret counter minted => exact hkind.elim
  · exact hcall.elim
  · refine ⟨⟨hs.accepted_nodup, hs.codes_nodup, hs.counter_le, hs.spent, hs.gone, ?_⟩,
      counterGrows_refl s⟩
    intro w hw
    rcases hcalls w hw with hold | hread
    · exact hs.calls w hold
    · exact secondFactorWrite_of_read hcall hread

/-- In every run of verifications and regenerations, from a row with distinct recovery
codes, whose writes find what their calls read, every counter and every code is accepted
at most once, no spent or superseded code is stored again, and the counter only grows. -/
theorem factors_used_once (d : Digests) (row : MfaRow) (as : List Action)
    (hrow : (codes row).Nodup)
    (hok : Guarded (step d) (fun s a => secondFactorCall a ∧ WritesInOrder s a)
      ⟨row, [], [], [], none⟩ as) :
    Along (step d) (fun s _ t => UsedOnce t ∧ CounterGrows s t) ⟨row, [], [], [], none⟩ as := by
  have hstart : SingleUse ⟨row, [], [], [], none⟩ :=
    ⟨List.nodup_nil, hrow, nofun, nofun, nofun, nofun⟩
  refine along_of_invariant (I := SingleUse) ?_ hstart hok
  intro s a t hs ha ht
  have hstep := singleUse_step hs ha.1 ha.2 ht
  exact ⟨hstep.1, hstep.1.usedOnce, hstep.2⟩

/-- An enrolled row with two recovery codes left. -/
def enrolledRow : MfaRow where
  secret := some rfcSecret
  enabled := true
  lastCounter := none
  recoveryCodes := some [rfcDigests.sha256Hex "AAAAAAAAAA", rfcDigests.sha256Hex "BBBBBBBBBB"]

/-- One login with a TOTP, the next with a recovery code. -/
theorem factors_used_once_in_turn :
    Along (step rfcDigests) (fun s _ t => UsedOnce t ∧ CounterGrows s t)
      ⟨enrolledRow, [], [], [], none⟩
      [.verifyMfa "287082" 59000, .write 0, .verifyMfa "aaaaa-aaaaa" 59000, .write 0] :=
  factors_used_once rfcDigests enrolledRow _ (by decide) (by decide)

/-- Two verifications of one recovery code that both read before either writes are both
accepted; the same goes for one TOTP. -/
theorem factors_used_twice :
    ¬Along (step rfcDigests) (fun s _ t => UsedOnce t ∧ CounterGrows s t)
      ⟨enrolledRow, [], [], [], none⟩
      [.verifyMfa "aaaaa-aaaaa" 59000, .verifyMfa "aaaaa-aaaaa" 59000, .write 0, .write 0] ∧
    ¬Along (step rfcDigests) (fun s _ t => UsedOnce t ∧ CounterGrows s t)
      ⟨enrolledRow, [], [], [], none⟩
      [.verifyMfa "287082" 59000, .verifyMfa "287082" 59000, .write 0, .write 0] := by
  have hweak : ∀ as, Along (step rfcDigests) (fun s _ t => UsedOnce t ∧ CounterGrows s t)
      ⟨enrolledRow, [], [], [], none⟩ as →
      Along (step rfcDigests) (fun _ _ t => UsedOnce t) ⟨enrolledRow, [], [], [], none⟩ as :=
    fun as h => h.mono fun _ _ _ ht => ht.1
  refine ⟨fun h => ?_, fun h => ?_⟩
  · exact absurd (hweak _ h) (by decide)
  · exact absurd (hweak _ h) (by decide)

end HeirsOcr.Mfa
