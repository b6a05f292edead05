import HeirsOcr.Subscriptions

/-!
# The terms an operator set stay set

Metering only counts: the record it computes has the plan, status, trial and
cancellation of the record it read, with at most a document less in the trial. What it
read may be older than the operator's last put, and the write then restores the older
terms. In runs where every metering write goes out on a record read after the last put,
the terms in the row are those of that put.
-/
namespace HeirsOcr.Billing
open KeyedTable StepMachine

/-- The same trial, with no more documents remaining. -/
structure BurnedDown (put trial : TrialWindow) : Prop where
  rest : { trial with documentsRemaining := put.documentsRemaining } = put
  bounded : trial.documentsRemaining.isSome = put.documentsRemaining.isSome
  remaining : ∀ n ∈ put.documentsRemaining, ∀ m ∈ trial.documentsRemaining, m ≤ n

/-- The fields an operator's put decides. -/
structure SameTerms (put sub : Subscription) : Prop where
  plan : sub.plan = put.plan
  status : sub.status = put.status
  cancelAtPeriodEnd : sub.cancelAtPeriodEnd = put.cancelAtPeriodEnd
  trial : Option.Rel BurnedDown put.trial sub.trial

theorem BurnedDown.refl (trial : TrialWindow) : BurnedDown trial trial where
  rest := rfl
  bounded := rfl
  remaining n hn m hm := by
    obtain rfl : n = m := Option.some.inj (hn.symm.trans hm)
    exact le_rfl

theorem SameTerms.refl (sub : Subscription) : SameTerms sub sub where
  plan := rfl
  status := rfl
  cancelAtPeriodEnd := rfl
  trial := by
    cases sub.trial with
    | none => exact .none
    | some trial => exact .some (.refl trial)

/-- Metering a document keeps the terms. -/
theorem SameTerms.recorded {put sub : Subscription} (h : SameTerms put sub) (data : Metering) :
    SameTerms put (recorded sub data) where
  plan := h.plan
  status := h.status
  cancelAtPeriodEnd := h.cancelAtPeriodEnd
  trial := by
    have htrial := h.trial
    simp only [Billing.recorded]
    by_cases htr : effectiveStatus sub data.now = .trialing
    · rw [if_pos htr]
      cases hs : sub.trial with
      | none => simpa [hs] using htrial
      | some trial =>
        rw [hs] at htrial
        cases hp : put.trial with
        | none =>
          rw [hp] at htrial
          cases htrial
        | some window =>
          rw [hp] at htrial
          obtain ⟨hburn⟩ := htrial
          refine .some ⟨hburn.rest, by simpa using hburn.bounded, fun n hn m hm => ?_⟩
          obtain ⟨k, hk, rfl⟩ := Option.map_eq_some_iff.mp hm
          have hle := hburn.remaining n hn k hk
          have hpos := (trialing_of_effectiveStatus htr hs).2 k hk
          omega
    · rw [if_neg htr]
      exact htrial

/-- Every row holds the terms of its tenant's last put. -/
def TermsHold (s : BillingStore) : Prop :=
  ∀ tenantId, ∀ put ∈ s.lastPut tenantId,
    ∃ sub ∈ s.subscriptions.find? tenantId, SameTerms put sub

/-- The condition of a write: the record was read after the operator's last put. -/
def WriteFresh (s : BillingStore) : Call → Prop
  | .write _ next version => version = s.version next.tenantId
  | _ => True

def WritesFresh (s : BillingStore) : Action → Prop
  | .proceed i => ∀ call ∈ s.calls[i]?, WriteFresh s call
  | _ => True

instance (s : BillingStore) : DecidablePred (WriteFresh s)
  | .write _ next version => inferInstanceAs (Decidable (version = s.version next.tenantId))
  | .selected .. | .drop .. => inferInstanceAs (Decidable True)

instance (s : BillingStore) : DecidablePred (WritesFresh s)
  | .proceed i => inferInstanceAs (Decidable (∀ call ∈ s.calls[i]?, WriteFresh s call))
  | .resolve .. | .put .. | .lose _ | .wait _ => inferInstanceAs (Decidable True)

/-- What was read of a tenant `version` puts into the run: it belongs to the tenant, and
has the terms of the last put if none has come since. -/
def SnapshotOk (s : BillingStore) (tenantId : String) (found : Option Subscription)
    (version : ℕ) : Prop :=
  version ≤ s.version tenantId ∧
    ∀ sub ∈ found, sub.tenantId = tenantId ∧
      (version = s.version tenantId → ∀ put ∈ s.lastPut tenantId, SameTerms put sub)

def CallOk (s : BillingStore) : Call → Prop
  | .selected _ tenantId found version _ => SnapshotOk s tenantId found version
  | .write _ next version => SnapshotOk s next.tenantId (some next) version
  | .drop _ _ => True

/-- The invariant: rows hold their terms, and whatever is cached or carried by a call is
a snapshot of them. -/
structure StoreOk (s : BillingStore) : Prop where
  rows : TermsHold s
  cached : ∀ p tenantId e, s.caches p tenantId = some e →
    SnapshotOk s tenantId e.subscription e.version
  calls : ∀ call ∈ s.calls, CallOk s call

theorem SnapshotOk.recorded {s : BillingStore} {tenantId : String} {sub : Subscription}
    {version : ℕ} (h : SnapshotOk s tenantId (some sub) version) (data : Metering) :
    SnapshotOk s (recorded sub data).tenantId (some (recorded sub data)) version := by
  obtain ⟨hle, hsub⟩ := h
  obtain ⟨rfl, hterms⟩ := hsub sub rfl
  refine ⟨hle, fun next hnext => ?_⟩
  obtain rfl := Option.some.inj hnext
  exact ⟨rfl, fun hv put hput => (hterms hv put hput).recorded data⟩

theorem find?_upsertSubscription (t : Table Subscription.tenantId) (sub : Subscription)
    (tenantId : String) :
    (upsertSubscription t sub).find? tenantId =
      if sub.tenantId = tenantId then some sub else t.find? tenantId := by
  rw [upsertSubscription, Table.find?_upsert]
  split_ifs with hk
  · cases hf : t.find? tenantId with
    | none => rfl
    | some old =>
      have hold := Table.key_of_find? hf
      simp only [Option.elim, hold, ← hk]
  · rfl

section Steps

variable {s : BillingStore} {p : ℕ} {tenantId : String}

theorem storeOk_push {call : Call} (hs : StoreOk s) (hc : CallOk s call) :
    StoreOk (s.push call) where
  rows := hs.rows
  cached := hs.cached
  calls := by
    intro c hmem
    rcases List.mem_append.mp hmem with hmem | hmem
    · exact hs.calls c hmem
    · rw [List.mem_singleton.mp hmem]
      exact hc

theorem storeOk_meter {found : Option Subscription} {version : ℕ} {data : Option Metering}
    (hs : StoreOk s) (hf : SnapshotOk s tenantId found version) :
    StoreOk (s.meter p found version data) := by
  cases data with
  | none => exact hs
  | some data =>
    cases found with
    | none => exact hs
    | some sub => exact storeOk_push hs (hf.recorded data)

/-- A row read now is a snapshot of the present version. -/
theorem snapshotOk_find? (hs : StoreOk s) (tenantId : String) :
    SnapshotOk s tenantId (s.subscriptions.find? tenantId) (s.version tenantId) := by
  refine ⟨le_rfl, fun sub hsub => ⟨Table.key_of_find? hsub, fun _ put hput => ?_⟩⟩
  obtain ⟨sub', hsub', hterms⟩ := hs.rows tenantId put hput
  obtain rfl : sub' = sub := Option.some.inj (hsub'.symm.trans hsub)
  exact hterms

theorem storeOk_resolve {meter : Option Metering} (hs : StoreOk s) :
    StoreOk (s.resolve p tenantId meter) := by
  unfold BillingStore.resolve
  split
  · rename_i hit hhit
    have hentry := (Option.filter_eq_some_iff.mp hhit).1
    exact storeOk_meter hs (hs.cached p tenantId hit hentry)
  · exact storeOk_push hs (snapshotOk_find? hs tenantId)

theorem storeOk_setCache {e : Option CacheEntry} (hs : StoreOk s)
    (he : ∀ entry ∈ e, SnapshotOk s tenantId entry.subscription entry.version) :
    StoreOk (s.setCache p tenantId e) where
  rows := hs.rows
  cached := by
    intro q t entry hentry
    simp only [BillingStore.setCache] at hentry
    by_cases hq : q = p
    · subst hq
      rw [Function.update_self] at hentry
      by_cases ht : t = tenantId
      · subst ht
        rw [Function.update_self] at hentry
        exact he entry hentry
      · rw [Function.update_of_ne ht] at hentry
        exact hs.cached q t entry hentry
    · rw [Function.update_of_ne hq] at hentry
      exact hs.cached q t entry hentry
  calls := hs.calls

theorem storeOk_forget {i : ℕ} (hs : StoreOk s) : StoreOk (s.forget i) where
  rows := hs.rows
  cached := hs.cached
  calls := fun call hmem => hs.calls call (List.mem_of_mem_eraseIdx hmem)

/-- A put makes every snapshot of its tenant an old one. -/
theorem snapshotOk_put {sub : Subscription} {found : Option Subscription} {version : ℕ}
    (h : SnapshotOk s tenantId found version) :
    SnapshotOk (s.put p sub) tenantId found version := by
  obtain ⟨hle, hfound⟩ := h
  by_cases hk : tenantId = sub.tenantId
  · subst hk
    refine ⟨?_, fun r hr => ⟨(hfound r hr).1, fun hv => ?_⟩⟩
    · simp only [BillingStore.put, Function.update_self]
      omega
    · simp only [BillingStore.put, Function.update_self] at hv
      omega
  · refine ⟨?_, fun r hr => ⟨(hfound r hr).1, fun hv put hput => ?_⟩⟩
    · simpa only [BillingStore.put, Function.update_of_ne hk] using hle
    · simp only [BillingStore.put, Function.update_of_ne hk] at hv hput
      exact (hfound r hr).2 hv put hput

theorem storeOk_put {sub : Subscription} (hs : StoreOk s) : StoreOk (s.put p sub) where
  rows := by
    intro t put hput
    simp only [BillingStore.put, find?_upsertSubscription] at hput ⊢
    by_cases hk : t = sub.tenantId
    · subst hk
      rw [Function.update_self] at hput
      obtain rfl := Option.some.inj hput
      exact ⟨sub, by simp, .refl sub⟩
    · rw [Function.update_of_ne hk] at hput
      rw [if_neg (Ne.symm hk)]
      exact hs.rows t put hput
  cached := fun q t e he => snapshotOk_put (hs.cached q t e he)
  calls := by
    intro call hmem
    rcases List.mem_append.mp hmem with hmem | hmem
    · have hcall := hs.calls call hmem
      cases call with
      | selected q t found version meter => exact snapshotOk_put hcall
      | write q next version => exact snapshotOk_put hcall
      | drop q t => trivial
    · rw [List.mem_singleton.mp hmem]
      trivial

/-- A metering write of a fresh record leaves the terms as they are. -/
theorem storeOk_write {next : Subscription} {version : ℕ} (hs : StoreOk s)
    (hcall : CallOk s (.write p next version)) (hv : version = s.version next.tenantId)
    (ttl : ℕ) : StoreOk (s.proceed ttl (.write p next version)) where
  rows := by
    intro t put hput
    simp only [BillingStore.proceed, find?_upsertSubscription]
    by_cases hk : next.tenantId = t
    · rw [if_pos hk]
      exact ⟨next, rfl, (hcall.2 next rfl).2 hv put (hk ▸ hput)⟩
    · rw [if_neg hk]
      exact hs.rows t put hput
  cached := hs.cached
  calls := by
    intro call hmem
    rcases List.mem_append.mp hmem with hmem | hmem
    · exact hs.calls call hmem
    · rw [List.mem_singleton.mp hmem]
      trivial

end Steps

variable {ttl : ℕ}

/-- The step lemma. -/
theorem storeOk_step {s t : BillingStore} {a : Action} (hs : StoreOk s) (ha : WritesFresh s a)
    (h : step ttl s a = some t) : StoreOk t := by
  cases a with
  | resolve p tenantId meter =>
    obtain rfl := Option.some.inj h
    exact storeOk_resolve hs
  | put p sub =>
    obtain rfl := Option.some.inj h
    exact storeOk_put hs
  | proceed i =>
    obtain ⟨call, hcall, rfl⟩ := Option.map_eq_some_iff.mp h
    have hok := hs.calls call (List.mem_of_getElem? hcall)
    cases call with
    | selected p tenantId found version meter =>
      refine storeOk_meter (storeOk_setCache (storeOk_forget hs) fun entry hentry => ?_) hok
      obtain rfl := Option.some.inj hentry
      exact hok
    | write p next version =>
      exact storeOk_write (storeOk_forget hs) hok (ha _ hcall) ttl
    | drop p tenantId =>
      refine storeOk_setCache (storeOk_forget hs) fun entry hentry => ?_
      cases hentry
  | lose i =>
    obtain rfl := Option.some.inj h
    exact storeOk_forget hs
  | wait ms =>
    obtain rfl := Option.some.inj h
    exact ⟨hs.rows, hs.cached, hs.calls⟩

/-- In every run whose metering writes go out on records read after the operator's last
put, the plan, status, trial and cancellation of every row are those of that put, the
trial with no more documents remaining than it had. -/
theorem terms_hold (ttl : ℕ) (s : BillingStore) (as : List Action) (hs : StoreOk s)
    (hok : Guarded (step ttl) WritesFresh s as) : Throughout (step ttl) TermsHold s as :=
  (throughout_of_guarded (fun _ _ _ hI ha ht => storeOk_step hI ha ht) hs hok).mono
    fun _ h => h.rows

/-- A plan that charges per document. -/
def planOf (id : String) (unitPrice : ℤ) : SubscriptionPlan where
  id := id
  name := id
  tier := .payg
  description := none
  billing := .per_document ⟨unitPrice, .NGN⟩ none none
  entitlements := ⟨[], .standard, [], ⟨none, none, none, none, none, 30⟩⟩
  trial := none
  hidden := false

def enrolment (plan : SubscriptionPlan) (now : ℤ) : Subscription where
  id := "sub_" ++ plan.id
  tenantId := "acme"
  plan := plan
  status := .active
  trial := none
  currentPeriodStart := now
  currentPeriodEnd := now + 30 * DAY_MS
  cancelAtPeriodEnd := false
  canceledAt := none
  usage := ⟨0, 0, 0, 0⟩
  payment := ⟨.manual, none, none, false⟩
  createdAt := now
  updatedAt := now

/-- A tenant on the old plan, and nothing cached. -/
def onOldPlan : BillingStore where
  subscriptions := ⟨[enrolment (planOf "old" 5000) 0], by decide⟩
  caches _ _ := none
  now := 1000
  calls := []
  version _ := 0
  lastPut _ := none

theorem storeOk_onOldPlan : StoreOk onOldPlan where
  rows := by
    intro tenantId put h
    cases h
  cached := by
    intro p tenantId e h
    cases h
  calls := by
    intro call h
    cases h

def document : Metering := ⟨2, some 900, 1000⟩

/-- A new plan, and then a document metered by the process that set it. -/
theorem terms_hold_metered :
    Throughout (step 60) TermsHold onOldPlan
      [.put 0 (enrolment (planOf "new" 9000) 1000), .proceed 0, .resolve 0 "acme" (some document),
        .proceed 0, .proceed 0, .proceed 0] :=
  terms_hold 60 onOldPlan _ storeOk_onOldPlan (by decide)

/-- Another process has cached the old plan; it meters a document from its cache after
the operator set the new one, and the row is back on the old plan. -/
theorem metering_restores_old_plan :
    ¬Throughout (step 60) TermsHold onOldPlan
      [.resolve 1 "acme" none, .proceed 0, .put 0 (enrolment (planOf "new" 9000) 1000),
        .proceed 0, .resolve 1 "acme" (some document), .proceed 0] := by
  intro h
  have hplan : Throughout (step 60)
      (fun s => ∀ put ∈ s.lastPut "acme",
        (s.subscriptions.find? "acme").any fun sub => sub.plan.id = put.plan.id) onOldPlan
      [.resolve 1 "acme" none, .proceed 0, .put 0 (enrolment (planOf "new" 9000) 1000),
        .proceed 0, .resolve 1 "acme" (some document), .proceed 0] := by
    refine h.mono fun s hs put hput => ?_
    obtain ⟨sub, hsub, hterms⟩ := hs "acme" put hput
    rw [Option.mem_def.mp hsub]
    simp [hterms.plan]
  exact absurd hplan (by decide)

end HeirsOcr.Billing
