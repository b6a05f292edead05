import HeirsOcr.ArchivedFiles

/-!
# What the sweep keeps

A step inserts a row, writes a log, or drops what has expired under the policy that its sweep has
read. So rows, their files and the audit log stay for as long as every policy in force keeps
them.
-/
namespace HeirsOcr.DocumentArchive
open KeyedTable Jobs

variable {s t : Store}

/-- What a step can do to rows, files and logs. -/
inductive Effect (s t : Store) : Prop where
  | none (documents : t.documents = s.documents) (objects : t.objects = s.objects)
      (logs : t.logs = s.logs) (now : s.now ≤ t.now)
  | put (key : String) (o : StoredObject) (fresh : key ∉ s.minted)
      (documents : t.documents = s.documents)
      (objects : t.objects = Function.update s.objects key (some o))
      (logs : t.logs = s.logs) (now : t.now = s.now)
  | insert (row : DocumentRow) (documents : s.documents.insert row = some t.documents)
      (objects : t.objects = s.objects) (logs : t.logs = s.logs) (now : t.now = s.now)
  | log (table : LogTable) (row : LogRow) (documents : t.documents = s.documents)
      (objects : t.objects = s.objects)
      (logs : t.logs = Function.update s.logs table (row :: s.logs table)) (now : t.now = s.now)
  | purge (w : ℕ) (sweep : Sweep) (sweeps : s.sweeps w = some sweep)
      (documents : t.documents = s.documents.delete fun r =>
        expired s.now sweep.policy.documentRetentionDays r.createdAt)
      (objects : t.objects = s.objects) (logs : t.logs = s.logs) (now : t.now = s.now)
  | deleteBatch (w : ℕ) (sweep : Sweep) (batch : List String) (accepted : String → Bool)
      (sweeps : s.sweeps w = some sweep) (keys : ∀ key ∈ batch, key ∈ sweep.stage.keys)
      (documents : t.documents = s.documents)
      (objects : t.objects = deleteObjects s.objects batch accepted)
      (logs : t.logs = s.logs) (now : t.now = s.now)
  | purgeLog (w : ℕ) (sweep : Sweep) (table : LogTable) (sweeps : s.sweeps w = some sweep)
      (documents : t.documents = s.documents) (objects : t.objects = s.objects)
      (logs : t.logs = Function.update s.logs table
        (purgeLogOlderThan s.now (sweep.policy.days table) (s.logs table)))
      (now : t.now = s.now)

theorem effect_of_step {a : Action} (hstep : step s a = some t) : Effect s t := by
  cases step_cases hstep with
  | wait ms => exact .none rfl rfl rfl (by simp)
  | putSettings _ | deploy _ | archive _ _ _ | unrecordable _ _ _ | unrecorded _ _ | die _
  | sweep _ | disabled _ | locked _ _ | takeLock _ _ | skipBlobs _ _ _ | abandon _ =>
    exact .none rfl rfl rfl le_rfl
  | @put _ _ _ _ key upload _ hkey =>
    by_cases hupload : upload = .refused
    · exact .none rfl (if_pos hupload) rfl le_rfl
    · exact .put key _ hkey rfl (if_neg hupload) rfl rfl
  | record _ hinsert => exact .insert _ hinsert rfl rfl rfl
  | log table id => exact .log table _ rfl rfl rfl rfl
  | @purge w _ _ hw => exact .purge w _ hw rfl rfl rfl rfl
  | @deleteBatch w _ keys accepted hw =>
    exact .deleteBatch w _ (keys.take DELETE_BATCH) accepted hw
      (fun key hkey => List.mem_of_mem_take hkey) rfl rfl rfl rfl
  | @purgeLog w _ table _ hw => exact .purgeLog w _ table hw rfl rfl rfl rfl

/-- A policy that keeps documents and audit events at least as long. -/
def Keeps (floor policy : RetentionPolicy) : Prop :=
  floor.documentRetentionDays ≤ policy.documentRetentionDays ∧
    floor.auditRetentionDays ≤ policy.auditRetentionDays

instance (floor policy : RetentionPolicy) : Decidable (Keeps floor policy) :=
  inferInstanceAs (Decidable (_ ∧ _))

variable {floor : RetentionPolicy}

theorem Keeps.days {policy : RetentionPolicy} (h : Keeps floor policy) (table : LogTable) :
    floor.days table ≤ policy.days table := by
  cases table
  · exact h.2
  · exact h.1
  · exact h.1

/-- Rows younger than the floor, with their files, and log rows younger than it are still there. -/
structure Retains (floor : RetentionPolicy) (s t : Store) : Prop where
  now : s.now ≤ t.now
  documents : ∀ r ∈ s.documents,
    t.now - floor.documentRetentionDays * DAY_MS ≤ r.createdAt → r ∈ t.documents ∧
      ∀ key, r.storageKey = some key → t.objects key = s.objects key
  logs : ∀ table, ∀ r ∈ s.logs table,
    t.now - floor.days table * DAY_MS ≤ r.createdAt → r ∈ t.logs table

theorem Retains.refl (floor : RetentionPolicy) (s : Store) : Retains floor s s :=
  ⟨le_rfl, fun _ hr _ => ⟨hr, fun _ _ => rfl⟩, fun _ _ hr _ => hr⟩

theorem Retains.trans {u : Store} (hst : Retains floor s t) (htu : Retains floor t u) :
    Retains floor s u where
  now := hst.now.trans htu.now
  documents r hr hyoung := by
    obtain ⟨hr', hobjects⟩ := hst.documents r hr (by linarith [htu.now])
    obtain ⟨hr'', hobjects'⟩ := htu.documents r hr' hyoung
    exact ⟨hr'', fun key hkey => (hobjects' key hkey).trans (hobjects key hkey)⟩
  logs table r hr hyoung :=
    htu.logs table r (hst.logs table r hr (by linarith [htu.now])) hyoung

theorem not_expired_of_le {now createdAt : ℤ} {days days' : ℕ} (hdays : days ≤ days')
    (h : now - days * DAY_MS ≤ createdAt) : expired now days' createdAt = false := by
  have hday : (days : ℤ) ≤ days' := by exact_mod_cast hdays
  have hms : (days : ℤ) * DAY_MS ≤ days' * DAY_MS := by
    rw [DAY_MS]
    omega
  rw [expired, decide_eq_false_iff_not]
  linarith

/-- The policies that sweeps go by. -/
def Lenient (floor : RetentionPolicy) (s : Store) : Prop :=
  Keeps floor s.policy ∧ ∀ w sweep, s.sweeps w = some sweep → Keeps floor sweep.policy

def KeepsFloor (floor : RetentionPolicy) (_ : Store) (a : Action) : Prop :=
  ∀ policy, a = .putSettings policy → Keeps floor policy

theorem Effect.retains (h : Effect s t) (hs : Consistent s) (hlenient : Lenient floor s) :
    Retains floor s t := by
  obtain ⟨keeper, hkept⟩ := hs
  cases h with
  | none documents objects logs now =>
    exact ⟨now, fun r hr _ => ⟨documents ▸ hr, fun key _ => by rw [objects]⟩,
      fun table r hr _ => logs ▸ hr⟩
  | put key o fresh documents objects logs now =>
    refine ⟨now.ge, fun r hr _ => ⟨documents ▸ hr, fun key' hkey => ?_⟩, fun table r hr _ =>
      logs ▸ hr⟩
    have hminted := hkept.minted key' _ (hkept.listed r hr key' hkey).1
    have hne : key' ≠ key := by
      rintro rfl
      exact fresh hminted
    rw [objects, Function.update_of_ne hne]
  | insert row documents objects logs now =>
    exact ⟨now.ge, fun r hr _ => ⟨(Table.mem_insert documents).mpr (.inl hr), fun key _ => by
      rw [objects]⟩, fun table r hr _ => logs ▸ hr⟩
  | log table row documents objects logs now =>
    refine ⟨now.ge, fun r hr _ => ⟨documents ▸ hr, fun key _ => by rw [objects]⟩,
      fun table' r hr _ => ?_⟩
    rw [logs]
    by_cases he : table' = table
    · subst he
      simp [hr]
    · rwa [Function.update_of_ne he]
  | purge w sweep sweeps documents objects logs now =>
    refine ⟨now.ge, fun r hr hyoung => ⟨?_, fun key _ => by rw [objects]⟩, fun table r hr _ =>
      logs ▸ hr⟩
    rw [documents, Table.mem_delete]
    rw [now] at hyoung
    exact ⟨hr, not_expired_of_le (hlenient.2 w sweep sweeps).1 hyoung⟩
  | deleteBatch w sweep batch accepted sweeps keys documents objects logs now =>
    refine ⟨now.ge, fun r hr _ => ⟨documents ▸ hr, fun key hkey => ?_⟩, fun table r hr _ =>
      logs ▸ hr⟩
    rw [objects, deleteObjects, if_neg]
    rintro ⟨hmem, -⟩
    have hk := hkept.doomed w sweep key sweeps (keys key hmem)
    rw [(hkept.listed r hr key hkey).1] at hk
    cases hk
  | purgeLog w sweep table sweeps documents objects logs now =>
    refine ⟨now.ge, fun r hr _ => ⟨documents ▸ hr, fun key _ => by rw [objects]⟩,
      fun table' r hr hyoung => ?_⟩
    rw [logs]
    by_cases he : table' = table
    · subst he
      rw [now] at hyoung
      have hkeep := not_expired_of_le ((hlenient.2 w sweep sweeps).days table') hyoung
      simp [purgeLogOlderThan, hr, hkeep]
    · rwa [Function.update_of_ne he]

theorem Lenient.step (h : Lenient floor s) {a : Action} (ha : KeepsFloor floor s a)
    (hstep : step s a = some t) : Lenient floor t := by
  obtain ⟨hpolicy, hsweeps⟩ := h
  have hset : ∀ (w₀ : ℕ) (new : Option Sweep), (∀ sweep, new = some sweep →
        Keeps floor sweep.policy) →
      ∀ w sweep, Function.update s.sweeps w₀ new w = some sweep → Keeps floor sweep.policy := by
    intro w₀ new hnew w sweep hw
    by_cases he : w = w₀
    · subst he
      exact hnew sweep (by simpa using hw)
    · exact hsweeps w sweep (by simpa [Function.update_of_ne he] using hw)
  cases step_cases hstep with
  | putSettings policy => exact ⟨ha policy rfl, hsweeps⟩
  | wait _ | deploy _ | archive _ _ _ | unrecordable _ _ _ | put _ _ _ | record _ _
  | unrecorded _ _ | die _ | log _ _ | disabled _ => exact ⟨hpolicy, hsweeps⟩
  | @locked w _ _ _ | abandon w => exact ⟨hpolicy, hset w none (by simp)⟩
  | @sweep w _ => exact ⟨hpolicy, hset w _ (by simpa using hpolicy)⟩
  | @takeLock w _ _ hw | @purge w _ _ hw | @skipBlobs w _ _ _ hw _ | @deleteBatch w _ _ _ hw =>
    exact ⟨hpolicy, hset w _ (by simpa using hsweeps w _ hw)⟩
  | @purgeLog w _ table _ hw =>
    refine ⟨hpolicy, hset w _ ?_⟩
    intro sweep hsweep
    obtain ⟨_, _, rfl⟩ := Option.map_eq_some_iff.mp hsweep
    exact hsweeps w ⟨_, .log table⟩ hw

/-- Whatever the sweeps of a run do, a document and a log row stay for as long as every policy in
force would keep them. -/
theorem recent_kept (now : ℤ) (enabled : Bool) (policy : RetentionPolicy) (as bs : List Action)
    (hpolicy : Keeps floor policy)
    (hkeeps : ∀ p, .putSettings p ∈ as ++ bs → Keeps floor p)
    (hs : StepMachine.exec step (.fresh now enabled policy) as = some s)
    (ht : StepMachine.exec step s bs = some t) : Retains floor s t := by
  have hrun : ∀ (as : List Action) {s t : Store}, (∀ p, .putSettings p ∈ as → Keeps floor p) →
      Consistent s → Lenient floor s → StepMachine.exec step s as = some t →
      Consistent t ∧ Lenient floor t ∧ Retains floor s t := by
    intro as
    induction as with
    | nil =>
      intro s t _ hs hlenient ht
      cases ht
      exact ⟨hs, hlenient, .refl floor s⟩
    | cons a as ih =>
      intro s t hall hs hlenient ht
      cases hstep : step s a with
      | none => simp [StepMachine.exec, hstep] at ht
      | some u =>
        rw [StepMachine.exec_cons_of_step as hstep] at ht
        have ha : KeepsFloor floor s a := fun p hp => hall p (by simp [hp])
        obtain ⟨ht', hl', hr⟩ := ih (fun p hp => hall p (List.mem_cons_of_mem a hp))
          (hs.step hstep) (hlenient.step ha hstep) ht
        exact ⟨ht', hl', ((effect_of_step hstep).retains hs hlenient).trans hr⟩
  obtain ⟨hs', hl, -⟩ := hrun as (fun p hp => hkeeps p (List.mem_append_left bs hp))
    (consistent_fresh now enabled policy) ⟨hpolicy, by simp [Store.fresh]⟩ hs
  exact (hrun bs (fun p hp => hkeeps p (List.mem_append_right as hp)) hs' hl ht).2.2

/-- An invoice archived while the window is a week. -/
def invoiceRun : List Action :=
  [.archive 0 ⟨"acme", .RECEIPT_PARSING, .standard, "invoice.pdf", 0, 1, .success, none, none, none⟩
    [37, 80, 68, 70], .put 0 "documents/acme/1/invoice.pdf" .stored, .record 0 "d1" true]

/-- A sweep that meets nothing in its way. -/
def sweepRun : List Action :=
  [.sweep 0, .takeLock 0 false, .advance 0 fun _ => true, .advance 0 fun _ => true,
    .advance 0 fun _ => true, .advance 0 fun _ => true, .advance 0 fun _ => true]

theorem recent_kept_over_sweep :
    Retains ⟨true, 7, 7⟩
      ((StepMachine.exec step (.fresh 0 true ⟨true, 7, 7⟩) invoiceRun).get rfl)
      ((StepMachine.exec step (.fresh 0 true ⟨true, 7, 7⟩) (invoiceRun ++ .wait 86400000 ::
        sweepRun)).get rfl) :=
  recent_kept 0 true ⟨true, 7, 7⟩ invoiceRun (.wait 86400000 :: sweepRun) (by decide)
    (by simp [invoiceRun, sweepRun]) rfl rfl

end HeirsOcr.DocumentArchive
