import HeirsOcr.ArchiveRetention

/-!
# No file is left behind

In a run that nothing goes wrong in, every file in the bucket has a row, or a call or a sweep that
is not through with it. Once all of these have ended the files are those that the rows name.
-/
namespace HeirsOcr.DocumentArchive
open KeyedTable Jobs
open Providers (Buffer)

variable {s t : Store}

/-- A step that nothing goes wrong in: the answers come, the processes live and storage stays
on. -/
def Undisturbed (s : Store) : Action → Prop
  | .put _ _ upload => upload ≠ .unconfirmed
  | .record _ _ inserted => inserted
  | .die op => s.archives op = none
  | .abandon w => s.sweeps w = none
  | .advance _ accepted => s.blobStorageEnabled ∧ ∀ key, accepted key
  | _ => True

/-- Who answers for the file: a row, the call that uploaded it or the sweep that deletes it. -/
inductive AccountedFor (s : Store) (key : String) : Prop where
  | row (r : DocumentRow) (mem : r ∈ s.documents) (key_eq : r.storageKey = some key)
  | archive (op : ℕ) (a : Archive) (call : s.archives op = some a) (key_eq : a.key = some key)
  | sweep (w : ℕ) (sweep : Sweep) (run : s.sweeps w = some sweep) (mem : key ∈ sweep.stage.keys)

structure NoneLeft (s : Store) : Prop where
  accounted : ∀ key, s.objects key ≠ none → AccountedFor s key
  uploading : ∀ op a, s.archives op = some a → a.uploading → a.key = none

theorem noneLeft_fresh (now : ℤ) (enabled : Bool) (policy : RetentionPolicy) :
    NoneLeft (.fresh now enabled policy) :=
  ⟨fun _ h => absurd rfl h, by simp [Store.fresh]⟩

/-- A step that drops no file, no row, no call with a key and no sweep with keys to go. -/
theorem NoneLeft.mono (h : NoneLeft s)
    (hobjects : ∀ key, t.objects key ≠ none → s.objects key ≠ none)
    (hdocuments : ∀ r ∈ s.documents, r ∈ t.documents)
    (harchives : ∀ op, t.archives op = s.archives op ∨
      (∀ a, s.archives op = some a → a.key = none) ∧ ∀ a, t.archives op = some a → a.key = none)
    (hsweeps : ∀ w, t.sweeps w = s.sweeps w ∨
      ∀ sweep, s.sweeps w = some sweep → sweep.stage.keys = []) : NoneLeft t where
  accounted key hkey := by
    cases h.accounted key (hobjects key hkey) with
    | row r mem key_eq => exact .row r (hdocuments r mem) key_eq
    | archive op a call key_eq =>
      rcases harchives op with hsame | ⟨hnone, -⟩
      · exact .archive op a (hsame.trans call) key_eq
      · rw [hnone a call] at key_eq
        cases key_eq
    | sweep w sweep run mem =>
      rcases hsweeps w with hsame | hnil
      · exact .sweep w sweep (hsame.trans run) mem
      · rw [hnil sweep run] at mem
        cases mem
  uploading op a ha hup := by
    rcases harchives op with hsame | ⟨-, hnone⟩
    · exact h.uploading op a (hsame ▸ ha) hup
    · exact hnone a ha

/-- One call is replaced; neither the old nor the new one has a key. -/
theorem archives_update {op : ℕ} {new : Option Archive}
    (hold : ∀ a, s.archives op = some a → a.key = none) (hnew : ∀ a, new = some a → a.key = none)
    (op' : ℕ) : Function.update s.archives op new op' = s.archives op' ∨
      (∀ a, s.archives op' = some a → a.key = none) ∧
        ∀ a, Function.update s.archives op new op' = some a → a.key = none := by
  by_cases he : op' = op
  · subst he
    exact .inr ⟨hold, fun a ha => hnew a (by simpa using ha)⟩
  · exact .inl (Function.update_of_ne he _ _)

/-- One sweep without keys is replaced. -/
theorem sweeps_update {w : ℕ} {new : Option Sweep}
    (hold : ∀ sweep, s.sweeps w = some sweep → sweep.stage.keys = []) (w' : ℕ) :
    Function.update s.sweeps w new w' = s.sweeps w' ∨
      ∀ sweep, s.sweeps w' = some sweep → sweep.stage.keys = [] := by
  by_cases he : w' = w
  · exact .inr (he ▸ hold)
  · exact .inl (Function.update_of_ne he _ _)

/-- What a lookup tells about all that it can give. -/
theorem forall_eq_some {α : Type} {o : Option α} {x : α} {P : α → Prop} (ho : o = some x)
    (hx : P x) : ∀ y, o = some y → P y := by
  rintro y rfl
  cases ho
  exact hx

theorem NoneLeft.put (h : NoneLeft s) {op : ℕ} {input : RecordDocumentInput} {body : Buffer}
    {key₀ : Option String} {key : String} {upload : Upload} (hupload : upload ≠ .unconfirmed)
    (hop : s.archives op = some ⟨input, body, true, key₀⟩) :
    NoneLeft { s with
      minted := key :: s.minted
      objects := if upload = .refused then s.objects
        else Function.update s.objects key (some ⟨input.tenantId, body⟩)
      archives := Function.update s.archives op
        (some ⟨input, body, false, if upload = .stored then some key else none⟩) } := by
  have hnone : ∀ a, s.archives op = some a → a.key = none :=
    forall_eq_some hop (h.uploading op _ hop rfl)
  cases upload with
  | unconfirmed => exact absurd rfl hupload
  | refused =>
    exact h.mono (fun _ hkey => hkey) (fun _ hr => hr) (archives_update hnone (by simp))
      fun _ => .inl rfl
  | stored =>
    refine ⟨fun key' hobject => ?_, ?_⟩
    · by_cases hkey : key' = key
      · subst hkey
        exact .archive op ⟨input, body, false, some key'⟩ (by simp) rfl
      · have hobject' : s.objects key' ≠ none := by
          simpa [Function.update_of_ne hkey] using hobject
        cases h.accounted key' hobject' with
        | row r mem key_eq => exact .row r mem key_eq
        | archive op' a call key_eq =>
          have hne : op' ≠ op := by
            rintro rfl
            rw [hnone a call] at key_eq
            cases key_eq
          exact .archive op' a (by simpa [Function.update_of_ne hne] using call) key_eq
        | sweep w sweep run mem => exact .sweep w sweep run mem
    · intro op' a ha hup
      by_cases he : op' = op
      · subst he
        obtain rfl : _ = a := by simpa using ha
        cases hup
      · exact h.uploading op' a (by simpa [Function.update_of_ne he] using ha) hup

theorem NoneLeft.record (h : NoneLeft s) {op : ℕ} {input : RecordDocumentInput} {body : Buffer}
    {uploading : Bool} {key₀ : Option String} {id : String} {documents : Table DocumentRow.id}
    (hop : s.archives op = some ⟨input, body, uploading, key₀⟩)
    (hinsert : s.documents.insert (rowOf id input key₀ s.now) = some documents) :
    NoneLeft { s with
      documents := documents, archives := Function.update s.archives op none } := by
  refine ⟨fun key hobject => ?_, ?_⟩
  · cases h.accounted key hobject with
    | row r mem key_eq => exact .row r ((Table.mem_insert hinsert).mpr (.inl mem)) key_eq
    | archive op' a call key_eq =>
      by_cases he : op' = op
      · subst he
        rw [hop] at call
        cases call
        exact .row _ ((Table.mem_insert hinsert).mpr (.inr rfl)) key_eq
      · exact .archive op' a (by simpa [Function.update_of_ne he] using call) key_eq
    | sweep w sweep run mem => exact .sweep w sweep run mem
  · intro op' a ha hup
    by_cases he : op' = op
    · subst he
      simp at ha
    · exact h.uploading op' a (by simpa [Function.update_of_ne he] using ha) hup

theorem NoneLeft.purge (h : NoneLeft s) {w : ℕ} {policy : RetentionPolicy}
    (hw : s.sweeps w = some ⟨policy, .documents⟩) (days : ℕ) :
    NoneLeft { s with
      documents := s.documents.delete fun r => expired s.now days r.createdAt
      sweeps := Function.update s.sweeps w
        (some ⟨policy, .blobs (purgedKeys s.now days s.documents.rows)⟩) } := by
  refine ⟨fun key hobject => ?_, h.uploading⟩
  cases h.accounted key hobject with
  | row r mem key_eq =>
    cases hexpired : expired s.now days r.createdAt with
    | true =>
      refine .sweep w ⟨policy, .blobs (purgedKeys s.now days s.documents.rows)⟩ (by simp) ?_
      exact mem_purgedKeys.mpr ⟨r, mem, hexpired, key_eq⟩
    | false => exact .row r (Table.mem_delete.mpr ⟨mem, hexpired⟩) key_eq
  | archive op a call key_eq => exact .archive op a call key_eq
  | sweep w' sweep run mem =>
    have hne : w' ≠ w := by
      rintro rfl
      rw [hw] at run
      cases run
      cases mem
    exact .sweep w' sweep (by simpa [Function.update_of_ne hne] using run) mem

theorem NoneLeft.deleteBatch (h : NoneLeft s) {w : ℕ} {policy : RetentionPolicy}
    {keys : List String} {accepted : String → Bool} (haccepted : ∀ key, accepted key)
    (hw : s.sweeps w = some ⟨policy, .blobs keys⟩) :
    NoneLeft { s with
      objects := deleteObjects s.objects (keys.take DELETE_BATCH) accepted
      sweeps := Function.update s.sweeps w (some ⟨policy, .blobs (keys.drop DELETE_BATCH)⟩) } := by
  refine ⟨fun key hobject => ?_, h.uploading⟩
  have hleft : key ∉ keys.take DELETE_BATCH := fun hmem =>
    hobject (if_pos ⟨hmem, haccepted key⟩)
  have hobject' : s.objects key ≠ none := by
    simpa [deleteObjects, hleft] using hobject
  cases h.accounted key hobject' with
  | row r mem key_eq => exact .row r mem key_eq
  | archive op a call key_eq => exact .archive op a call key_eq
  | sweep w' sweep run mem =>
    by_cases he : w' = w
    · subst he
      rw [hw] at run
      cases run
      refine .sweep w' ⟨policy, .blobs (keys.drop DELETE_BATCH)⟩ (by simp) ?_
      have hmem : key ∈ keys.take DELETE_BATCH ++ keys.drop DELETE_BATCH := by
        rwa [List.take_append_drop]
      exact (List.mem_append.mp hmem).resolve_left hleft
    · exact .sweep w' sweep (by simpa [Function.update_of_ne he] using run) mem

theorem NoneLeft.step (h : NoneLeft s) {a : Action} (ha : Undisturbed s a)
    (hstep : step s a = some t) : NoneLeft t := by
  have hsame : ∀ op, s.archives op = s.archives op ∨
      (∀ a, s.archives op = some a → a.key = none) ∧ ∀ a, s.archives op = some a → a.key = none :=
    fun _ => .inl rfl
  have hfree : ∀ {α : Type} {o : Option α} {P : α → Prop}, o = none → ∀ x, o = some x → P x := by
    intro α o P ho x hx
    rw [ho] at hx
    cases hx
  cases step_cases hstep with
  | wait _ | putSettings _ | deploy _ | log _ _ =>
    exact h.mono (fun _ hkey => hkey) (fun _ hr => hr) hsame fun _ => .inl rfl
  | archive _ _ hfreeOp =>
    exact h.mono (fun _ hkey => hkey) (fun _ hr => hr)
      (archives_update (hfree hfreeOp) (by simp)) fun _ => .inl rfl
  | unrecordable _ _ _ | disabled _ => exact h
  | put upload hop _ => exact h.put ha hop
  | record hop hinsert => exact h.record hop hinsert
  | unrecorded _ _ => cases ha
  | die op =>
    exact h.mono (fun _ hkey => hkey) (fun _ hr => hr) (archives_update (hfree ha) (by simp))
      fun _ => .inl rfl
  | sweep hfreeSweep =>
    exact h.mono (fun _ hkey => hkey) (fun _ hr => hr) hsame (sweeps_update (hfree hfreeSweep))
  | locked _ hw | takeLock _ hw | purgeLog _ hw =>
    exact h.mono (fun _ hkey => hkey) (fun _ hr => hr) hsame
      (sweeps_update (forall_eq_some hw rfl))
  | @purge w policy _ hw => exact h.purge hw policy.documentRetentionDays
  | skipBlobs _ hw hskip =>
    have hnil := hskip.resolve_left (by simp [ha.1])
    exact h.mono (fun _ hkey => hkey) (fun _ hr => hr) hsame
      (sweeps_update (forall_eq_some hw hnil))
  | deleteBatch accepted hw => exact h.deleteBatch ha.2 hw
  | abandon w =>
    exact h.mono (fun _ hkey => hkey) (fun _ hr => hr) hsame (sweeps_update (hfree ha))

/-- In a run that nothing goes wrong in, every file in the bucket has a row, a call or a sweep that
answers for it; when no call and no sweep is under way, it has a row. -/
theorem none_left (now : ℤ) (enabled : Bool) (policy : RetentionPolicy) (as : List Action)
    (hrun : StepMachine.Guarded step Undisturbed (.fresh now enabled policy) as) :
    StepMachine.Throughout step
      (fun s => (∀ key, s.objects key ≠ none → AccountedFor s key) ∧
        ((∀ op, s.archives op = none) → (∀ w, s.sweeps w = none) →
          ∀ key, s.objects key ≠ none ↔ ∃ r ∈ s.documents, r.storageKey = some key))
      (.fresh now enabled policy) as := by
  have h := StepMachine.throughout_of_guarded
    (I := fun s => Consistent s ∧ NoneLeft s)
    (fun s a t hs ha hstep => ⟨hs.1.step hstep, hs.2.step ha hstep⟩)
    ⟨consistent_fresh now enabled policy, noneLeft_fresh now enabled policy⟩ hrun
  refine h.mono fun s hs => ⟨hs.2.accounted, fun harchives hsweeps key => ⟨fun hobject => ?_, ?_⟩⟩
  · cases hs.2.accounted key hobject with
    | row r mem key_eq => exact ⟨r, mem, key_eq⟩
    | archive op a call _ =>
      rw [harchives op] at call
      cases call
    | sweep w sweep run _ =>
      rw [hsweeps w] at run
      cases run
  · rintro ⟨r, hr, hkey⟩
    obtain ⟨o, ho, -, -⟩ := hs.1.backed.held r hr key hkey
    simp [ho]

theorem none_left_over_sweep :
    StepMachine.Throughout step
      (fun s => (∀ key, s.objects key ≠ none → AccountedFor s key) ∧
        ((∀ op, s.archives op = none) → (∀ w, s.sweeps w = none) →
          ∀ key, s.objects key ≠ none ↔ ∃ r ∈ s.documents, r.storageKey = some key))
      (.fresh 0 true ⟨true, 7, 7⟩) (invoiceRun ++ .wait 864000000 :: sweepRun) :=
  none_left 0 true ⟨true, 7, 7⟩ (invoiceRun ++ .wait 864000000 :: sweepRun)
    (.intro trivial <| .intro Upload.noConfusion <| .intro rfl <| .intro trivial <|
      .intro trivial <| .intro trivial <| .intro ⟨rfl, fun _ => rfl⟩ <|
      .intro ⟨rfl, fun _ => rfl⟩ <| .intro ⟨rfl, fun _ => rfl⟩ <| .intro ⟨rfl, fun _ => rfl⟩ <|
      .intro ⟨rfl, fun _ => rfl⟩ trivial)

end HeirsOcr.DocumentArchive
