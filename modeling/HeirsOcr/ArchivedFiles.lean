import HeirsOcr.DocumentArchive

/-!
# Every row has its file

Every key in use has one keeper: the call that uploads its file, the row that names it, or the sweep
that is about to delete it. A step hands a key from one keeper to the next, so the file of a row is
in the bucket whatever runs beside it.
-/
namespace HeirsOcr.DocumentArchive
open KeyedTable Jobs
open Providers (Buffer)

variable {s t : Store}

/-- The call, the row or the sweep that answers for a key. -/
inductive Keeper where
  | archive (op : ℕ)
  | row (id : String)
  | sweep (w : ℕ)

/-- The bucket has the file of this tenant, of this size. -/
def Holds (s : Store) (key tenantId : String) (byteSize : ℕ) : Prop :=
  ∃ o, s.objects key = some o ∧ o.tenantId = tenantId ∧ o.body.length = byteSize

/-- Every key in use has one keeper, and a key that a row or a call names has its file. -/
structure Kept (s : Store) (keeper : String → Option Keeper) : Prop where
  minted : ∀ key k, keeper key = some k → key ∈ s.minted
  listed : ∀ r ∈ s.documents, ∀ key, r.storageKey = some key →
    keeper key = some (.row r.id) ∧ Holds s key r.tenantId r.byteSize
  sized : ∀ op a, s.archives op = some a → a.input.byteSize = a.body.length
  held : ∀ op a key, s.archives op = some a → a.key = some key →
    keeper key = some (.archive op) ∧ s.objects key = some ⟨a.input.tenantId, a.body⟩
  doomed : ∀ w sweep key, s.sweeps w = some sweep → key ∈ sweep.stage.keys →
    keeper key = some (.sweep w)

def Consistent (s : Store) : Prop := ∃ keeper, Kept s keeper

theorem consistent_fresh (now : ℤ) (enabled : Bool) (policy : RetentionPolicy) :
    Consistent (.fresh now enabled policy) := by
  refine ⟨fun _ => none, ?_, ?_, ?_, ?_, ?_⟩
  · simp
  · intro r hr
    cases hr
  · simp [Store.fresh]
  · simp [Store.fresh]
  · simp [Store.fresh]

variable {keeper : String → Option Keeper}

/-- A change that leaves documents, files and keys alone, and no more calls or sweeps. -/
theorem Kept.mono (h : Kept s keeper) (hminted : t.minted = s.minted)
    (hdocuments : t.documents = s.documents) (hobjects : t.objects = s.objects)
    (harchives : ∀ op a, t.archives op = some a →
      a.input.byteSize = a.body.length ∧ (a.key = none ∨ s.archives op = some a))
    (hsweeps : ∀ w sweep, t.sweeps w = some sweep →
      sweep.stage.keys = [] ∨ ∃ old, s.sweeps w = some old ∧ old.stage.keys = sweep.stage.keys) :
    Kept t keeper where
  minted := hminted ▸ h.minted
  listed r hr key hkey := by
    rw [hdocuments] at hr
    simpa only [Holds, hobjects] using h.listed r hr key hkey
  sized op a ha := (harchives op a ha).1
  held op a key ha hkey := by
    rcases (harchives op a ha).2 with hnone | hold
    · rw [hnone] at hkey
      cases hkey
    · rw [hobjects]
      exact h.held op a key hold hkey
  doomed w sweep key hw hkey := by
    rcases hsweeps w sweep hw with hnil | ⟨old, hold, hkeys⟩
    · rw [hnil] at hkey
      cases hkey
    · exact h.doomed w old key hold (hkeys ▸ hkey)

/-- The uploaded file is kept by its call. -/
theorem Kept.put (h : Kept s keeper) {op : ℕ} {input : RecordDocumentInput} {body : Buffer}
    {uploading : Bool} {key₀ : Option String} {key : String} (upload : Upload)
    (hop : s.archives op = some ⟨input, body, uploading, key₀⟩) (hkey : key ∉ s.minted) :
    Kept { s with
        minted := key :: s.minted
        objects := if upload = .refused then s.objects
          else Function.update s.objects key (some ⟨input.tenantId, body⟩)
        archives := Function.update s.archives op
          (some ⟨input, body, false, if upload = .stored then some key else none⟩) }
      (Function.update keeper key (some (.archive op))) := by
  have hold : ∀ key' k, keeper key' = some k → key' ≠ key := by
    rintro key' k hk rfl
    exact hkey (h.minted key' k hk)
  have hobject : ∀ key', key' ≠ key →
      (if upload = .refused then s.objects
        else Function.update s.objects key (some ⟨input.tenantId, body⟩)) key' =
        s.objects key' := by
    intro key' hne
    split_ifs
    · rfl
    · rw [Function.update_of_ne hne]
  refine ⟨?_, ?_, ?_, ?_, ?_⟩
  · intro key' k hk
    by_cases he : key' = key
    · exact he ▸ List.mem_cons_self
    · rw [Function.update_of_ne he] at hk
      exact List.mem_cons_of_mem _ (h.minted key' k hk)
  · intro r hr key' hkey'
    obtain ⟨hk, hholds⟩ := h.listed r hr key' hkey'
    have hne := hold key' _ hk
    rw [Function.update_of_ne hne]
    refine ⟨hk, ?_⟩
    simpa only [Holds, hobject key' hne] using hholds
  · intro op' a ha
    by_cases he : op' = op
    · subst he
      obtain rfl : _ = a := by simpa using ha
      exact h.sized op' ⟨input, body, uploading, key₀⟩ hop
    · exact h.sized op' a (by simpa [Function.update_of_ne he] using ha)
  · intro op' a key' ha hkey'
    by_cases he : op' = op
    · subst he
      obtain rfl : _ = a := by simpa using ha
      cases upload <;> simp at hkey'
      subst hkey'
      simp
    · have ha' : s.archives op' = some a := by simpa [Function.update_of_ne he] using ha
      obtain ⟨hk, ho⟩ := h.held op' a key' ha' hkey'
      have hne := hold key' _ hk
      rw [Function.update_of_ne hne]
      exact ⟨hk, (hobject key' hne).trans ho⟩
  · intro w sweep key' hw hkey'
    have hk := h.doomed w sweep key' hw hkey'
    rw [Function.update_of_ne (hold key' _ hk)]
    exact hk

/-- The row takes over the key of its call. -/
theorem Kept.record (h : Kept s keeper) {op : ℕ} {input : RecordDocumentInput} {body : Buffer}
    {uploading : Bool} {key₀ : Option String} {id : String} {documents : Table DocumentRow.id}
    (hop : s.archives op = some ⟨input, body, uploading, key₀⟩)
    (hinsert : s.documents.insert (rowOf id input key₀ s.now) = some documents) :
    Kept { s with documents := documents, archives := Function.update s.archives op none }
      (fun key => if key₀ = some key then some (.row id) else keeper key) := by
  have hold : ∀ key k, keeper key = some k → k ≠ .archive op → key₀ ≠ some key := by
    rintro key k hk hne rfl
    rw [(h.held op _ key hop rfl).1] at hk
    exact hne (Option.some.inj hk).symm
  refine ⟨?_, ?_, ?_, ?_, ?_⟩
  · intro key k hk
    split_ifs at hk with he
    · exact h.minted key _ (h.held op _ key hop he).1
    · exact h.minted key k hk
  · intro r hr key hkey
    rcases (Table.mem_insert hinsert).mp hr with hr | rfl
    · obtain ⟨hk, hholds⟩ := h.listed r hr key hkey
      rw [if_neg (hold key _ hk (by simp))]
      exact ⟨hk, hholds⟩
    · have hkey : key₀ = some key := hkey
      obtain ⟨-, ho⟩ := h.held op _ key hop hkey
      rw [if_pos hkey]
      exact ⟨rfl, _, ho, rfl, (h.sized op _ hop).symm⟩
  · intro op' a ha
    by_cases he : op' = op
    · subst he
      simp at ha
    · exact h.sized op' a (by simpa [Function.update_of_ne he] using ha)
  · intro op' a key ha hkey
    by_cases he : op' = op
    · subst he
      simp at ha
    · obtain ⟨hk, ho⟩ := h.held op' a key (by simpa [Function.update_of_ne he] using ha) hkey
      rw [if_neg (hold key _ hk (by simpa using he))]
      exact ⟨hk, ho⟩
  · intro w sweep key hw hkey
    have hk := h.doomed w sweep key hw hkey
    rw [if_neg (hold key _ hk (by simp))]
    exact hk

theorem mem_purgedKeys {now : ℤ} {days : ℕ} {rows : List DocumentRow} {key : String} :
    key ∈ purgedKeys now days rows ↔
      ∃ r ∈ rows, expired now days r.createdAt ∧ r.storageKey = some key := by
  simp [purgedKeys, and_assoc]

/-- The sweep takes over the keys of the rows it deletes. -/
theorem Kept.purge (h : Kept s keeper) (w days : ℕ) (policy : RetentionPolicy) :
    Kept { s with
        documents := s.documents.delete fun r => expired s.now days r.createdAt
        sweeps := Function.update s.sweeps w
          (some ⟨policy, .blobs (purgedKeys s.now days s.documents.rows)⟩) }
      (fun key => if key ∈ purgedKeys s.now days s.documents.rows then some (.sweep w)
        else keeper key) := by
  have hrow : ∀ key ∈ purgedKeys s.now days s.documents.rows,
      ∃ r ∈ s.documents, expired s.now days r.createdAt ∧ keeper key = some (.row r.id) := by
    intro key hkey
    obtain ⟨r, hr, hexpired, hk⟩ := mem_purgedKeys.mp hkey
    exact ⟨r, hr, hexpired, (h.listed r hr key hk).1⟩
  have hold : ∀ key k, keeper key = some k → (∀ id, k ≠ .row id) →
      key ∉ purgedKeys s.now days s.documents.rows := by
    intro key k hk hne hkey
    obtain ⟨r, -, -, hr⟩ := hrow key hkey
    rw [hr] at hk
    exact hne r.id (Option.some.inj hk).symm
  refine ⟨?_, ?_, ?_, ?_, ?_⟩
  · intro key k hk
    split_ifs at hk with he
    · obtain ⟨r, -, -, hr⟩ := hrow key he
      exact h.minted key _ hr
    · exact h.minted key k hk
  · intro r hr key hkey
    obtain ⟨hr, hyoung⟩ := Table.mem_delete.mp hr
    obtain ⟨hk, hholds⟩ := h.listed r hr key hkey
    have hnot : key ∉ purgedKeys s.now days s.documents.rows := by
      intro hmem
      obtain ⟨r', hr', hexpired, hk'⟩ := hrow key hmem
      rw [hk] at hk'
      have hid : r.id = r'.id := by simpa using hk'
      rw [Table.eq_of_key_eq hr hr' hid, hexpired] at hyoung
      cases hyoung
    rw [if_neg hnot]
    exact ⟨hk, hholds⟩
  · exact h.sized
  · intro op a key ha hkey
    obtain ⟨hk, ho⟩ := h.held op a key ha hkey
    rw [if_neg (hold key _ hk (by simp))]
    exact ⟨hk, ho⟩
  · intro w' sweep key hw hkey
    by_cases he : w' = w
    · subst he
      obtain rfl : _ = sweep := by simpa using hw
      exact if_pos hkey
    · have hk := h.doomed w' sweep key (by simpa [Function.update_of_ne he] using hw) hkey
      rw [if_neg (hold key _ hk (by simp))]
      exact hk

/-- The files a sweep deletes are named by no row and by no call. -/
theorem Kept.deleteBatch (h : Kept s keeper) {w : ℕ} {sweep : Sweep} {keys : List String}
    (accepted : String → Bool) (hw : s.sweeps w = some sweep) (hkeys : sweep.stage = .blobs keys) :
    Kept { s with
        objects := deleteObjects s.objects (keys.take DELETE_BATCH) accepted
        sweeps := Function.update s.sweeps w
          (some ⟨sweep.policy, .blobs (keys.drop DELETE_BATCH)⟩) } keeper := by
  have hdoomed : ∀ key ∈ keys, keeper key = some (.sweep w) := fun key hkey =>
    h.doomed w sweep key hw (by simpa [hkeys, Stage.keys] using hkey)
  have hobject : ∀ key k, keeper key = some k → k ≠ .sweep w →
      deleteObjects s.objects (keys.take DELETE_BATCH) accepted key = s.objects key := by
    intro key k hk hne
    refine if_neg ?_
    rintro ⟨hmem, -⟩
    rw [hdoomed key (List.mem_of_mem_take hmem)] at hk
    exact hne (Option.some.inj hk).symm
  refine ⟨h.minted, ?_, h.sized, ?_, ?_⟩
  · intro r hr key hkey
    obtain ⟨hk, hholds⟩ := h.listed r hr key hkey
    refine ⟨hk, ?_⟩
    simpa only [Holds, hobject key _ hk (by simp)] using hholds
  · intro op a key ha hkey
    obtain ⟨hk, ho⟩ := h.held op a key ha hkey
    exact ⟨hk, (hobject key _ hk (by simp)).trans ho⟩
  · intro w' sweep' key hw' hkey
    by_cases he : w' = w
    · subst he
      obtain rfl : _ = sweep' := by simpa using hw'
      exact hdoomed key (List.mem_of_mem_drop hkey)
    · exact h.doomed w' sweep' key (by simpa [Function.update_of_ne he] using hw') hkey

theorem Consistent.step (h : Consistent s) {a : Action} (hstep : step s a = some t) :
    Consistent t := by
  obtain ⟨keeper, h⟩ := h
  have hsame : ∀ op a, s.archives op = some a →
      a.input.byteSize = a.body.length ∧ (a.key = none ∨ s.archives op = some a) :=
    fun op a ha => ⟨h.sized op a ha, .inr ha⟩
  have hkept : ∀ w sweep, s.sweeps w = some sweep →
      sweep.stage.keys = [] ∨ ∃ old, s.sweeps w = some old ∧ old.stage.keys = sweep.stage.keys :=
    fun w sweep hw => .inr ⟨sweep, hw, rfl⟩
  have hdropped : ∀ op₀ op a, Function.update s.archives op₀ none op = some a →
      a.input.byteSize = a.body.length ∧ (a.key = none ∨ s.archives op = some a) := by
    intro op₀ op a ha
    by_cases he : op = op₀
    · subst he
      simp at ha
    · exact hsame op a (by simpa [Function.update_of_ne he] using ha)
  -- A sweep whose stage has no keys to keep.
  have hstage : ∀ (w₀ : ℕ) (new : Option Sweep), (∀ sweep, new = some sweep →
        sweep.stage.keys = []) → ∀ w sweep, Function.update s.sweeps w₀ new w = some sweep →
      sweep.stage.keys = [] ∨ ∃ old, s.sweeps w = some old ∧ old.stage.keys = sweep.stage.keys := by
    intro w₀ new hnew w sweep hw
    by_cases he : w = w₀
    · subst he
      exact .inl (hnew sweep (by simpa using hw))
    · exact hkept w sweep (by simpa [Function.update_of_ne he] using hw)
  cases step_cases hstep with
  | wait _ | putSettings _ | deploy _ | log _ _ =>
    exact ⟨keeper, h.mono rfl rfl rfl hsame hkept⟩
  | @archive op input body hfree =>
    refine ⟨keeper, h.mono rfl rfl rfl ?_ hkept⟩
    intro op' a ha
    by_cases he : op' = op
    · subst he
      obtain rfl : _ = a := by simpa using ha
      exact ⟨rfl, .inl rfl⟩
    · exact hsame op' a (by simpa [Function.update_of_ne he] using ha)
  | unrecordable _ _ _ | disabled _ => exact ⟨keeper, h⟩
  | put upload hop hkey => exact ⟨_, h.put upload hop hkey⟩
  | record hop hinsert => exact ⟨_, h.record hop hinsert⟩
  | unrecorded op _ | die op => exact ⟨keeper, h.mono rfl rfl rfl (hdropped op) hkept⟩
  | @sweep w _ => exact ⟨keeper, h.mono rfl rfl rfl hsame (hstage w _ (by simp [Stage.keys]))⟩
  | @locked w _ _ _ | abandon w => exact ⟨keeper, h.mono rfl rfl rfl hsame (hstage w _ (by simp))⟩
  | @takeLock w _ _ _ | @skipBlobs w _ _ _ _ _ =>
    exact ⟨keeper, h.mono rfl rfl rfl hsame (hstage w _ (by simp [Stage.keys]))⟩
  | @purge w policy _ _ => exact ⟨_, h.purge w policy.documentRetentionDays policy⟩
  | deleteBatch accepted hw => exact ⟨keeper, h.deleteBatch accepted hw rfl⟩
  | @purgeLog w _ table _ _ =>
    refine ⟨keeper, h.mono rfl rfl rfl hsame (hstage w _ ?_)⟩
    cases table <;> simp [LogTable.next, Stage.keys]

/-- A row that names a file has it to itself, and a link that is handed out leads to the file of a
document of the tenant who asked. -/
structure Backed (s : Store) : Prop where
  held : ∀ r ∈ s.documents, ∀ key, r.storageKey = some key → Holds s key r.tenantId r.byteSize
  own : ∀ r ∈ s.documents, ∀ r' ∈ s.documents, ∀ key, r.storageKey = some key →
    r'.storageKey = some key → r = r'
  link : ∀ tenantId id signed key fileName, download s tenantId id signed = .link key fileName →
    ∃ r ∈ s.documents, r.id = id ∧ r.tenantId = tenantId ∧ r.fileName = fileName ∧
      r.storageKey = some key ∧ Holds s key tenantId r.byteSize

theorem Consistent.backed (h : Consistent s) : Backed s := by
  obtain ⟨keeper, h⟩ := h
  refine ⟨fun r hr key hkey => (h.listed r hr key hkey).2, ?_, ?_⟩
  · intro r hr r' hr' key hkey hkey'
    have hk := (h.listed r hr key hkey).1
    rw [(h.listed r' hr' key hkey').1] at hk
    have hid : r'.id = r.id := by simpa using hk
    exact Table.eq_of_key_eq hr hr' hid.symm
  · intro tenantId id signed key fileName hlink
    rw [download] at hlink
    split at hlink
    · cases hlink
    · rename_i doc hfind
      obtain ⟨hdoc, rfl⟩ := Table.find?_eq_some.mp hfind
      split at hlink
      · cases hlink
      · rename_i htenant
        rw [not_not] at htenant
        split at hlink
        · cases hlink
        · rename_i stored hstored
          split_ifs at hlink
          cases hlink
          have hholds := (h.listed doc hdoc key hstored).2
          exact ⟨doc, hdoc, rfl, htenant, rfl, hstored, htenant ▸ hholds⟩

theorem backed_throughout (now : ℤ) (enabled : Bool) (policy : RetentionPolicy)
    (as : List Action) :
    StepMachine.Throughout step Backed (.fresh now enabled policy) as :=
  (StepMachine.throughout_of_step (fun _ _ _ h => h.step) (consistent_fresh now enabled policy)
    as).mono fun _ => Consistent.backed

end HeirsOcr.DocumentArchive
