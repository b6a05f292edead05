import HeirsOcr.TenantAuth

/-!
# Organisations an operator shut out

An organisation that is shut out stays so while one of its disabled rows is left and
none is added. The runs below are restricted to those steps, and to requests that no
stale cache entry answers. Caches within one process are never stale, since every
change made there drops what it touches.
-/
namespace HeirsOcr.TenantAuth
open KeyedTable StepMachine TenantKeys

/-- The organisation has keys and none of them is enabled. -/
def Shut (tenants : TenantTable) (org : String) : Prop :=
  (∃ row ∈ tenants, row.tenantId = org) ∧ ∀ row ∈ tenants, row.tenantId = org → row.disabled

theorem orgDisabled_iff {tenants : TenantTable} {org : String} :
    orgDisabled tenants org ↔ Shut tenants org := by
  have hlen : 0 < (orgRows tenants org).length ↔ ∃ row ∈ tenants, row.tenantId = org := by
    rw [List.length_pos_iff_exists_mem]
    simp
  have hnone : ((orgRows tenants org).filter fun row => !row.disabled).length = 0 ↔
      ∀ row ∈ tenants, row.tenantId = org → row.disabled := by
    rw [List.length_eq_zero_iff, List.filter_eq_nil_iff]
    simp
  simp only [orgDisabled, Shut, gt_iff_lt, Bool.and_eq_true, decide_eq_true_eq, beq_iff_eq, hlen,
    hnone]

theorem noneEnabled_iff {tenants : TenantTable} {org : String} :
    noneEnabled tenants org ↔ ∀ row ∈ tenants, row.tenantId = org → row.disabled := by
  simp [noneEnabled]

theorem hasOtherRow_iff {tenants : TenantTable} {org keyHash : String} :
    hasOtherRow tenants org keyHash ↔
      ∃ row ∈ tenants, row.tenantId = org ∧ row.keyHash ≠ keyHash := by
  simp [hasOtherRow, and_assoc]

/-- A shut organisation stays shut when its rows stay or are disabled, one of them at
least stays, and none is added. -/
theorem Shut.of_rows {tenants tenants' : TenantTable} {org : String} (h : Shut tenants org)
    (hkeep : ∃ row ∈ tenants', row.tenantId = org)
    (hrows : ∀ row ∈ tenants', row.tenantId = org →
      row.disabled ∨ ∃ old ∈ tenants, old.tenantId = org ∧ old.disabled = row.disabled) :
    Shut tenants' org := by
  refine ⟨hkeep, fun row hrow horg => ?_⟩
  rcases hrows row hrow horg with hd | ⟨old, hold, holdorg, hd⟩
  · exact hd
  · rw [← hd]
    exact h.2 old hold holdorg

section Writes

variable {tenants : TenantTable} {org keyHash : String}

/-- A new row of another organisation. -/
theorem shut_upsert {new : TenantRow} (h : Shut tenants org)
    (hnew : tenants.find? new.keyHash = none) (horg : new.tenantId ≠ org) :
    Shut (tenants.upsert new (fun old new => { new with keyHash := old.keyHash }) fun _ => rfl)
      org := by
  obtain ⟨row, hrow, hro⟩ := h.1
  have hkept : row.keyHash ≠ new.keyHash := Table.find?_eq_none.mp hnew row hrow
  refine h.of_rows ⟨row, mem_put.mpr (Or.inl ⟨hrow, hkept⟩), hro⟩ fun r hr hrorg => ?_
  rcases mem_put.mp hr with ⟨hold, -⟩ | rfl
  · exact Or.inr ⟨r, hold, hrorg, rfl⟩
  · exact absurd hrorg horg

theorem shut_updateTenantByHash {patch : TenantPatch} (h : Shut tenants org)
    (hd : patch.disabled = some false →
      ∀ row ∈ tenants, row.keyHash = keyHash → row.tenantId ≠ org) :
    Shut (updateTenantByHash tenants keyHash patch) org := by
  have hpatch : ∀ row : TenantRow, (patched patch row).tenantId = row.tenantId := fun _ => rfl
  obtain ⟨row, hrow, hro⟩ := h.1
  refine h.of_rows ⟨_, Table.mem_update.mpr ⟨row, hrow, rfl⟩, ?_⟩ fun r hr hrorg => ?_
  · split_ifs <;> simp [hpatch, hro]
  · obtain ⟨old, hold, rfl⟩ := Table.mem_update.mp hr
    by_cases hk : old.keyHash = keyHash
    · have hold_org : old.tenantId = org := by simpa [hk, hpatch] using hrorg
      cases hpd : patch.disabled with
      | none => exact Or.inr ⟨old, hold, hold_org, by simp [hk, patched, hpd]⟩
      | some b =>
        cases b with
        | true => exact Or.inl (by simp [hk, patched, hpd])
        | false => exact absurd hold_org (hd hpd old hold hk)
    · have hsame : (if decide (old.keyHash = keyHash) = true then patched patch old else old)
          = old := by simp [hk]
      rw [hsame] at hrorg ⊢
      exact Or.inr ⟨old, hold, hrorg, rfl⟩

/-- A row is deleted, and if it is one of the organisation another one is left. -/
theorem shut_revokeByHash (h : Shut tenants org)
    (hother : ∀ row ∈ tenants, row.keyHash = keyHash → row.tenantId = org →
      hasOtherRow tenants org keyHash) :
    Shut (revokeByHash tenants keyHash) org := by
  have hleft : ∃ row ∈ tenants, row.tenantId = org ∧ row.keyHash ≠ keyHash := by
    obtain ⟨row, hrow, hro⟩ := h.1
    by_cases hk : row.keyHash = keyHash
    · exact hasOtherRow_iff.mp (hother row hrow hk hro)
    · exact ⟨row, hrow, hro, hk⟩
  obtain ⟨row, hrow, hro, hk⟩ := hleft
  refine h.of_rows ⟨row, Table.mem_delete.mpr ⟨hrow, by simpa using hk⟩, hro⟩
    fun r hr hrorg => ?_
  exact Or.inr ⟨r, (Table.mem_delete.mp hr).1, hrorg, rfl⟩

end Writes

/-- Whoever is shut out is so by the registry as well. -/
def ShutHolds (s : Service) : Prop := ∀ org ∈ s.shutOut, Shut s.tenants org

theorem mem_reopen {s : Service} {org o : String} :
    o ∈ (s.reopen org).shutOut ↔ o ∈ s.shutOut ∧ o ≠ org := by
  simp [Service.reopen]

/-- An organisation the operator closes is shut when a row of it is left. -/
theorem shutHolds_closing {s : Service} {org : String} (h : ShutHolds s)
    (hrow : ∃ row ∈ s.tenants, row.tenantId = org) : ShutHolds (s.closing org) := by
  unfold Service.closing
  split_ifs with hn
  · intro o ho
    rcases List.mem_cons.mp ho with rfl | ho
    · exact ⟨hrow, noneEnabled_iff.mp hn⟩
    · exact h o ho
  · exact h

theorem shutHolds_reopen {s : Service} {org : String}
    (h : ∀ o ∈ s.shutOut, o ≠ org → Shut s.tenants o) : ShutHolds (s.reopen org) := by
  intro o ho
  obtain ⟨ho, hne⟩ := mem_reopen.mp ho
  exact h o ho hne

section Operations

variable {ttl : ℕ} {s : Service} {p : ℕ} {keyHash : String}

/-- A patch that disables the key may shut its organisation out, one that enables it lets
the organisation back in, and any other leaves the rows as disabled as they were. -/
theorem shutHolds_operatorPatch {t : Service} {patch : TenantPatch} (hs : ShutHolds s)
    (h : step ttl s (.operatorPatch p keyHash patch) = some t) : ShutHolds t := by
  simp only [step] at h
  cases hf : s.tenants.find? keyHash with
  | none =>
    simp only [hf, Option.some.injEq] at h
    subst h
    exact hs
  | some row =>
    have hrow := Table.mem_of_find? hf
    have hkeep (hd : patch.disabled ≠ some false) :
        ShutHolds (s.write p keyHash (updateTenantByHash s.tenants keyHash patch)) :=
      fun o ho => shut_updateTenantByHash (hs o ho) fun hpd => absurd hpd hd
    cases hd : patch.disabled with
    | none =>
      simp only [hf, hd, Option.some.injEq] at h
      subst h
      exact hkeep (by simp [hd])
    | some disabled =>
      cases disabled with
      | true =>
        simp only [hf, hd, Option.some.injEq] at h
        subst h
        have hmem : patched patch row ∈ updateTenantByHash s.tenants keyHash patch :=
          Table.mem_update.mpr ⟨row, hrow, by simp [Table.key_of_find? hf]⟩
        exact shutHolds_closing (hkeep (by simp [hd])) ⟨_, hmem, rfl⟩
      | false =>
        simp only [hf, hd, Option.some.injEq] at h
        subst h
        refine shutHolds_reopen fun o ho hne => ?_
        refine shut_updateTenantByHash (hs o ho) fun _ r hr hk horg => hne ?_
        have hrr : r = row := Table.eq_of_key_eq hr hrow (hk.trans (Table.key_of_find? hf).symm)
        rw [← horg, hrr]

theorem shutHolds_operatorRevoke {row : TenantRow} (hs : ShutHolds s)
    (hf : s.tenants.find? keyHash = some row)
    (hother : hasOtherRow s.tenants row.tenantId keyHash) :
    ShutHolds ((s.write p keyHash (revokeByHash s.tenants keyHash)).closing row.tenantId) := by
  obtain ⟨r, hr, hrorg, hrk⟩ := hasOtherRow_iff.mp hother
  refine shutHolds_closing (fun o ho => ?_) ⟨r, ?_, hrorg⟩
  · refine shut_revokeByHash (hs o ho) fun r' hr' hk horg => ?_
    have hrr : r' = row :=
      Table.eq_of_key_eq hr' (Table.mem_of_find? hf) (hk.trans (Table.key_of_find? hf).symm)
    rw [← horg, hrr]
    exact hother
  · exact Table.mem_delete.mpr ⟨hr, by simpa using hrk⟩

theorem shutHolds_portalDelete {session : TenantSession} {tenants : TenantTable}
    (hs : ShutHolds s) (hd : deleteApiKeys s.tenants session keyHash = .ok tenants)
    (hother : session.tenantId ∈ s.shutOut →
      hasOtherRow s.tenants session.tenantId keyHash) :
    ShutHolds (s.write p keyHash tenants) := by
  obtain ⟨⟨row, hrow, hk⟩, rfl⟩ := deleteApiKeys_eq_ok hd
  obtain ⟨hrow, hsession⟩ := mem_orgRows.mp hrow
  intro o ho
  refine shut_revokeByHash (hs o ho) fun r hr hrk horg => ?_
  have hrr : r = row := Table.eq_of_key_eq hr hrow (hrk.trans hk.symm)
  have horg' : session.tenantId = o := by rw [← hsession, ← hrr, horg]
  rw [← horg']
  exact hother (by rw [horg']; exact ho)

end Operations

variable {ttl : ℕ}

/-- The step lemma: under its condition a step leaves every organisation that is shut
out with disabled rows only, and at least one. -/
theorem shutHolds_step {s t : Service} {a : Action} (hs : ShutHolds s) (ha : RowsKept s a)
    (h : step ttl s a = some t) : ShutHolds t := by
  cases a with
  | operatorCreate p keyHash tenant =>
    simp only [step] at h
    split_ifs at h with hsome
    obtain rfl := Option.some.inj h
    have hnew : s.tenants.find? keyHash = none := by simpa using hsome
    exact shutHolds_reopen fun o ho hne => shut_upsert (hs o ho) hnew (Ne.symm hne)
  | operatorPatch p keyHash patch => exact shutHolds_operatorPatch hs h
  | operatorRevoke p keyHash =>
    simp only [step] at h
    cases hf : s.tenants.find? keyHash with
    | none =>
      simp only [hf, Option.some.injEq] at h
      subst h
      exact fun o ho => shut_revokeByHash (hs o ho) fun row hrow hk =>
        absurd hk (Table.find?_eq_none.mp hf row hrow)
    | some row =>
      simp only [hf, Option.some.injEq] at h
      subst h
      exact shutHolds_operatorRevoke hs hf (ha row hf)
  | portalCreate p session parsed keyHash =>
    simp only [step] at h
    split_ifs at h with hsome
    have hnew : s.tenants.find? keyHash = none := by simpa using hsome
    by_cases hv : validCreation session parsed s.now
    · obtain ⟨data, rfl, -, hput⟩ := postApiKeys_of_valid s.tenants keyHash hv
      simp only [hput, Option.some.injEq] at h
      subst h
      intro o ho
      refine shut_upsert (hs o ho) hnew fun hsession => ?_
      have hsession : session.tenantId = o := hsession
      exact ha (by rw [hsession]; exact ho) hv
    · obtain ⟨e, he⟩ := postApiKeys_of_invalid s.tenants keyHash hv
      simp only [he, Option.some.injEq] at h
      subst h
      exact hs
  | portalDelete p session keyHash =>
    simp only [step] at h
    cases hd : deleteApiKeys s.tenants session keyHash with
    | ok tenants =>
      simp only [hd, Option.some.injEq] at h
      subst h
      exact shutHolds_portalDelete hs hd ha
    | error e =>
      simp only [hd, Option.some.injEq] at h
      subst h
      exact hs
  | request p req =>
    obtain rfl := Option.some.inj h
    exact hs
  | wait ms =>
    obtain rfl := Option.some.inj h
    exact hs

/-- A key that no stale entry answers for resolves as its row says. -/
theorem resolveTenant_fresh {tenants : TenantTable} {c : Caches} {keyHash : String} {now : ℤ}
    (h : ∀ e ∈ live? CacheEntry.expiresAt now (c.cache keyHash),
      e.tenant = getTenantByHash tenants keyHash) :
    (resolveTenant ttl tenants c keyHash now).2 =
      (getTenantByHash tenants keyHash).bind fun tenant => ifUsable tenant now := by
  unfold resolveTenant
  cases hl : live? CacheEntry.expiresAt now (c.cache keyHash) with
  | some hit => simp only [h hit hl]
  | none => cases hg : getTenantByHash tenants keyHash <;> rfl

theorem isTenantOrgDisabled_fresh {tenants : TenantTable} {c : Caches} {org : String} {now : ℤ}
    (h : ∀ e ∈ live? OrgCacheEntry.expiresAt now (c.orgCache org),
      e.disabled = orgDisabled tenants org) :
    (isTenantOrgDisabled ttl tenants c org now).2 = orgDisabled tenants org := by
  unfold isTenantOrgDisabled
  cases hl : live? OrgCacheEntry.expiresAt now (c.orgCache org) with
  | some hit => exact h hit hl
  | none => rfl

/-- The two ways in. -/
theorem auth_eq_ok {tenants : TenantTable} {c : Caches} {req : Credentials} {now : ℤ}
    {who : Authenticated} (h : (auth ttl tenants c req now).2 = .ok who) :
    (∃ keyHash tenant, req.apiKey = some keyHash ∧
      (resolveTenant ttl tenants c keyHash now).2 = some tenant ∧
        who = ⟨tenant.tenantId, tenant.allowedFunctions⟩) ∨
    (∃ org, req.apiKey = none ∧ req.session = some org ∧
      (isTenantOrgDisabled ttl tenants c org now).2 = false ∧ who = ⟨org, none⟩) := by
  unfold auth at h
  cases hk : req.apiKey with
  | some keyHash =>
    left
    rcases hr : resolveTenant ttl tenants c keyHash now with ⟨c', _ | tenant⟩
    · simp [hk, hr] at h
    · simp only [hk, hr, Except.ok.injEq] at h
      exact ⟨keyHash, tenant, rfl, by rw [hr], h.symm⟩
  | none =>
    right
    cases hsess : req.session with
    | none => simp [hk, hsess] at h
    | some org =>
      rcases hd : isTenantOrgDisabled ttl tenants c org now with ⟨c', _ | _⟩
      · simp only [hk, hsess, hd, Except.ok.injEq] at h
        exact ⟨org, rfl, rfl, by rw [hd], h.symm⟩
      · simp [hk, hsess, hd] at h

theorem ifUsable_eq_some {tenant tenant' : Tenant} {now : ℤ}
    (h : ifUsable tenant now = some tenant') :
    tenant' = tenant ∧ tenant.disabled ≠ some true := by
  unfold ifUsable at h
  split_ifs at h with hu
  refine ⟨(Option.some.inj h).symm, fun hd => hu ?_⟩
  simp [hd]

/-- A request answered from nothing stale is not admitted for a shut organisation. -/
theorem notAdmitted_of_shutHolds {s : Service} {a : Action} (hs : ShutHolds s)
    (ha : AnswersFresh s a) : NotAdmitted ttl s a := by
  cases a with
  | request p req =>
    intro who hwho hout
    have hshut := hs _ hout
    rcases auth_eq_ok hwho with ⟨keyHash, tenant, hk, hres, rfl⟩ | ⟨org, -, hsess, hd, rfl⟩
    · rw [resolveTenant_fresh (ha.1 keyHash hk)] at hres
      obtain ⟨found, hfound, hu⟩ := Option.bind_eq_some_iff.mp hres
      obtain ⟨row, hrow, rfl⟩ := Option.map_eq_some_iff.mp hfound
      obtain ⟨rfl, hnd⟩ := ifUsable_eq_some hu
      have hdis : row.disabled = true := hshut.2 row (Table.mem_of_find? hrow) rfl
      exact hnd (congrArg some hdis)
    · rw [isTenantOrgDisabled_fresh (ha.2 org hsess)] at hd
      rw [orgDisabled_iff.mpr hshut] at hd
      cases hd
  | _ => trivial

/-- Whatever is live in the caches agrees with the registry. -/
def Agrees (tenants : TenantTable) (c : Caches) (now : ℤ) : Prop :=
  (∀ keyHash, ∀ e ∈ live? CacheEntry.expiresAt now (c.cache keyHash),
    e.tenant = getTenantByHash tenants keyHash) ∧
  ∀ org, ∀ e ∈ live? OrgCacheEntry.expiresAt now (c.orgCache org),
    e.disabled = orgDisabled tenants org

/-- The step does not write the registry from another process than `p`. -/
def writesAt (p : ℕ) : Action → Prop
  | .operatorCreate q .. | .operatorPatch q .. | .operatorRevoke q .. | .portalCreate q ..
  | .portalDelete q .. => q = p
  | .request .. | .wait _ => True

/-- What is live later is live now. -/
theorem mem_live?_of_le {ε : Type} {expiresAt : ε → ℤ} {now later : ℤ} {entry : Option ε} {e : ε}
    (hle : now ≤ later) (he : e ∈ live? expiresAt later entry) :
    e ∈ live? expiresAt now entry := by
  obtain ⟨hentry, hlive⟩ := Option.filter_eq_some_iff.mp he
  refine Option.filter_eq_some_iff.mpr ⟨hentry, ?_⟩
  simp only [decide_eq_true_eq] at hlive ⊢
  omega

theorem mem_live?_update {κ ε : Type} [DecidableEq κ] {expiresAt : ε → ℤ} {now : ℤ}
    {f : κ → Option ε} {k k' : κ} {v : Option ε} {e : ε}
    (h : e ∈ live? expiresAt now (Function.update f k v k')) :
    (k' = k ∧ v = some e) ∨ (k' ≠ k ∧ e ∈ live? expiresAt now (f k')) := by
  by_cases hk : k' = k
  · subst hk
    rw [Function.update_self] at h
    exact Or.inl ⟨rfl, (Option.filter_eq_some_iff.mp h).1⟩
  · rw [Function.update_of_ne hk] at h
    exact Or.inr ⟨hk, h⟩

/-- A write drops the one entry it makes stale. -/
theorem agrees_drop {tenants tenants' : TenantTable} {c : Caches} {now : ℤ} {keyHash : String}
    (h : Agrees tenants c now)
    (hother : ∀ k, k ≠ keyHash → tenants'.find? k = tenants.find? k) :
    Agrees tenants' (c.drop keyHash) now := by
  refine ⟨fun k e he => ?_, fun org e he => ?_⟩
  · rcases mem_live?_update he with ⟨-, hv⟩ | ⟨hk, he⟩
    · cases hv
    · rw [h.1 k e he, getTenantByHash, getTenantByHash, hother k hk]
  · cases he

theorem agrees_resolveTenant (ttl : ℕ) {tenants : TenantTable} {c : Caches} {now : ℤ}
    (keyHash : String) (h : Agrees tenants c now) :
    Agrees tenants (resolveTenant ttl tenants c keyHash now).1 now := by
  have hset : ∀ e : CacheEntry, e.tenant = getTenantByHash tenants keyHash →
      Agrees tenants (c.set keyHash e) now := by
    refine fun e he => ⟨fun k e' he' => ?_, h.2⟩
    rcases mem_live?_update he' with ⟨rfl, hv⟩ | ⟨-, he'⟩
    · obtain rfl := Option.some.inj hv
      exact he
    · exact h.1 k e' he'
  unfold resolveTenant
  cases live? CacheEntry.expiresAt now (c.cache keyHash) with
  | some hit => exact h
  | none => cases hg : getTenantByHash tenants keyHash <;> exact hset _ hg.symm

theorem agrees_isTenantOrgDisabled (ttl : ℕ) {tenants : TenantTable} {c : Caches} {now : ℤ}
    (org : String) (h : Agrees tenants c now) :
    Agrees tenants (isTenantOrgDisabled ttl tenants c org now).1 now := by
  unfold isTenantOrgDisabled
  cases live? OrgCacheEntry.expiresAt now (c.orgCache org) with
  | some hit => exact h
  | none =>
    refine ⟨h.1, fun o e he => ?_⟩
    rcases mem_live?_update he with ⟨rfl, hv⟩ | ⟨-, he⟩
    · obtain rfl := Option.some.inj hv
      rfl
    · exact h.2 o e he

theorem agrees_auth {tenants : TenantTable} {c : Caches} {now : ℤ} (req : Credentials)
    (h : Agrees tenants c now) : Agrees tenants (auth ttl tenants c req now).1 now := by
  unfold auth
  cases req.apiKey with
  | some keyHash =>
    have hres := agrees_resolveTenant ttl keyHash h
    rcases hr : resolveTenant ttl tenants c keyHash now with ⟨c', _ | tenant⟩ <;>
      simpa only [hr] using hres
  | none =>
    cases req.session with
    | none => exact h
    | some org =>
      have hres := agrees_isTenantOrgDisabled ttl org h
      rcases hd : isTenantOrgDisabled ttl tenants c org now with ⟨c', _ | _⟩ <;>
        simpa only [hd] using hres

/-- What `p` reads and what it cached, after a step. -/
def AgreesAt (p : ℕ) (s : Service) : Prop := Agrees s.tenants (s.caches p) s.now

theorem agreesAt_write {p : ℕ} {s : Service} {keyHash : String} {tenants : TenantTable}
    (hs : AgreesAt p s) (hother : ∀ k, k ≠ keyHash → tenants.find? k = s.tenants.find? k) :
    AgreesAt p (s.write p keyHash tenants) := by
  have hcache : (s.write p keyHash tenants).caches p = (s.caches p).drop keyHash :=
    Function.update_self ..
  rw [AgreesAt, hcache]
  exact agrees_drop hs hother

theorem agreesAt_closing {p : ℕ} {s : Service} {org : String} (hs : AgreesAt p s) :
    AgreesAt p (s.closing org) := by
  unfold Service.closing
  split_ifs <;> exact hs

theorem find?_put_of_ne {tenants : TenantTable} {new : TenantRow} {k : String}
    {hm : ∀ old : TenantRow, ({ new with keyHash := old.keyHash } : TenantRow).keyHash =
      old.keyHash} (hk : k ≠ new.keyHash) :
    (tenants.upsert new (fun old new => { new with keyHash := old.keyHash }) hm).find? k =
      tenants.find? k := by
  rw [Table.find?_upsert, if_neg (Ne.symm hk)]

theorem find?_update_of_ne {tenants : TenantTable} {keyHash k : String} {patch : TenantPatch}
    (hk : k ≠ keyHash) :
    (updateTenantByHash tenants keyHash patch).find? k = tenants.find? k := by
  unfold updateTenantByHash
  rw [Table.find?_update]
  cases hf : tenants.find? k with
  | none => rfl
  | some row =>
    have hne : row.keyHash ≠ keyHash := by rw [Table.key_of_find? hf]; exact hk
    simp [hne]

theorem find?_revoke_of_ne {tenants : TenantTable} {keyHash k : String} (hk : k ≠ keyHash) :
    (revokeByHash tenants keyHash).find? k = tenants.find? k := by
  unfold revokeByHash
  rw [Table.find?_delete]
  cases hf : tenants.find? k with
  | none => rfl
  | some row =>
    have hne : row.keyHash ≠ keyHash := by rw [Table.key_of_find? hf]; exact hk
    simp [Option.filter, hne]

/-- The caches of the one process that writes the registry never go stale. -/
theorem agreesAt_step {p : ℕ} {s t : Service} {a : Action} (hs : AgreesAt p s)
    (ha : writesAt p a) (h : step ttl s a = some t) : AgreesAt p t := by
  cases a with
  | operatorCreate q keyHash tenant =>
    obtain rfl : q = p := ha
    simp only [step] at h
    split_ifs at h
    obtain rfl := Option.some.inj h
    exact agreesAt_write hs fun k hk => find?_put_of_ne hk
  | operatorPatch q keyHash patch =>
    obtain rfl : q = p := ha
    have hput : AgreesAt q (s.write q keyHash (updateTenantByHash s.tenants keyHash patch)) :=
      agreesAt_write hs fun k hk => find?_update_of_ne hk
    simp only [step] at h
    split at h
    · obtain rfl := Option.some.inj h
      exact hs
    · split at h
      · obtain rfl := Option.some.inj h
        exact hput
      · obtain rfl := Option.some.inj h
        exact hput
      · obtain rfl := Option.some.inj h
        exact agreesAt_closing hput
  | operatorRevoke q keyHash =>
    obtain rfl : q = p := ha
    have hput : AgreesAt q (s.write q keyHash (revokeByHash s.tenants keyHash)) :=
      agreesAt_write hs fun k hk => find?_revoke_of_ne hk
    simp only [step] at h
    split at h
    · obtain rfl := Option.some.inj h
      exact hput
    · obtain rfl := Option.some.inj h
      exact agreesAt_closing hput
  | portalCreate q session parsed keyHash =>
    obtain rfl : q = p := ha
    simp only [step] at h
    split_ifs at h
    by_cases hv : validCreation session parsed s.now
    · obtain ⟨data, rfl, -, hput⟩ := postApiKeys_of_valid s.tenants keyHash hv
      simp only [hput, Option.some.injEq] at h
      subst h
      exact agreesAt_write hs fun k hk => find?_put_of_ne hk
    · obtain ⟨e, he⟩ := postApiKeys_of_invalid s.tenants keyHash hv
      simp only [he, Option.some.injEq] at h
      subst h
      exact hs
  | portalDelete q session keyHash =>
    obtain rfl : q = p := ha
    simp only [step] at h
    split at h
    · rename_i tenants hd
      obtain rfl := Option.some.inj h
      obtain ⟨-, rfl⟩ := deleteApiKeys_eq_ok hd
      exact agreesAt_write hs fun k hk => find?_revoke_of_ne hk
    · obtain rfl := Option.some.inj h
      exact hs
  | request q req =>
    obtain rfl := Option.some.inj h
    by_cases hq : p = q
    · subst hq
      simp only [AgreesAt, Function.update_self]
      exact agrees_auth req hs
    · simp only [AgreesAt, Function.update_of_ne hq]
      exact hs
  | wait ms =>
    obtain rfl := Option.some.inj h
    have hlater : s.now ≤ s.now + ms := by omega
    exact ⟨fun k e he => hs.1 k e (mem_live?_of_le hlater he),
      fun org e he => hs.2 org e (mem_live?_of_le hlater he)⟩

/-- Where one process serves everything, the rows alone decide. -/
theorem shut_out_not_admitted_one_process {p : ℕ} {s : Service} {as : List Action}
    (hs : ShutHolds s) (hc : AgreesAt p s)
    (hok : Guarded (step ttl)
      (fun s a => RowsKept s a ∧ writesAt p a ∧ ∀ q req, a = .request q req → q = p) s as) :
    Along (step ttl) (fun s a _ => NotAdmitted ttl s a) s as := by
  have hstep : ∀ s a t, ShutHolds s ∧ AgreesAt p s →
      RowsKept s a ∧ writesAt p a ∧ (∀ q req, a = .request q req → q = p) →
        step ttl s a = some t → (ShutHolds t ∧ AgreesAt p t) ∧ NotAdmitted ttl s a := by
    rintro s a t ⟨hs, hc⟩ ⟨hrows, hwrites, hreq⟩ ht
    refine ⟨⟨shutHolds_step hs hrows ht, agreesAt_step hc hwrites ht⟩, ?_⟩
    apply notAdmitted_of_shutHolds hs
    cases a with
    | request q req =>
      obtain rfl := hreq q req rfl
      exact ⟨fun k _ => hc.1 k, fun org _ => hc.2 org⟩
    | _ => trivial
  exact along_of_invariant hstep ⟨hs, hc⟩ hok

theorem auth_apiKey {tenants : TenantTable} {c : Caches} {keyHash : String} {now : ℤ}
    {tenant : Tenant} (h : (resolveTenant ttl tenants c keyHash now).2 = some tenant)
    (session : Option String) :
    (auth ttl tenants c ⟨some keyHash, session⟩ now).2 =
      .ok ⟨tenant.tenantId, tenant.allowedFunctions⟩ := by
  rcases hr : resolveTenant ttl tenants c keyHash now with ⟨c', _ | found⟩
  · simp [hr] at h
  · obtain rfl : found = tenant := by simpa [hr] using h
    simp [auth, hr]

theorem auth_session {tenants : TenantTable} {c : Caches} {org : String} {now : ℤ}
    (h : (isTenantOrgDisabled ttl tenants c org now).2 = false) :
    (auth ttl tenants c ⟨none, some org⟩ now).2 = .ok ⟨org, none⟩ := by
  rcases hd : isTenantOrgDisabled ttl tenants c org now with ⟨c', _ | _⟩
  · simp [auth, hd]
  · simp [hd] at h

/-- A key made in the portal is admitted at once, shut out or not. -/
theorem admitted_after_portalCreate {p : ℕ} {s t : Service} {session : TenantSession}
    {parsed : Except String CreateKey} {keyHash : String}
    (hout : session.tenantId ∈ s.shutOut) (hv : validCreation session parsed s.now)
    (h : step ttl s (.portalCreate p session parsed keyHash) = some t) :
    ¬NotAdmitted ttl t (.request p ⟨some keyHash, none⟩) := by
  simp only [step] at h
  split_ifs at h
  obtain ⟨data, rfl, hexp, hput⟩ := postApiKeys_of_valid s.tenants keyHash hv
  simp only [hput, Option.some.injEq] at h
  have hrow : t.tenants.find? keyHash = some (portalRow s.tenants session data keyHash s.now) := by
    subst h
    exact Table.find?_key (mem_put.mpr (Or.inr rfl))
  have hcache : (t.caches p).cache keyHash = none := by
    subst h
    simp [Service.write, Caches.drop]
  have hnow : t.now = s.now := by rw [← h]; rfl
  have hshut : t.shutOut = s.shutOut := by rw [← h]; rfl
  have hexpired : isTenantKeyExpired
      (rowToTenant (portalRow s.tenants session data keyHash s.now)) t.now = false := by
    cases he : data.expiresAt with
    | none => simp [isTenantKeyExpired, rowToTenant, portalRow, he]
    | some e =>
      have := hexp e he
      simp [isTenantKeyExpired, rowToTenant, portalRow, he, hnow, this]
  have hres : (resolveTenant ttl t.tenants (t.caches p) keyHash t.now).2 =
      some (rowToTenant (portalRow s.tenants session data keyHash s.now)) := by
    rw [resolveTenant_fresh (by simp [hcache, live?])]
    simp only [getTenantByHash, hrow, Option.map_some, Option.bind_some, ifUsable, hexpired]
    rfl
  intro hnot
  exact hnot _ (auth_apiKey hres none) (hshut ▸ hout)

/-- With no row left nothing says that the organisation was turned off. -/
theorem admitted_without_rows {p : ℕ} {s : Service} {org : String} (hout : org ∈ s.shutOut)
    (hrows : ∀ row ∈ s.tenants, row.tenantId ≠ org)
    (hc : (s.caches p).orgCache org = none) :
    ¬NotAdmitted ttl s (.request p ⟨none, some org⟩) := by
  have hopen : orgDisabled s.tenants org = false := by
    rw [← Bool.not_eq_true, orgDisabled_iff]
    rintro ⟨⟨row, hrow, horg⟩, -⟩
    exact hrows row hrow horg
  have hdis : (isTenantOrgDisabled ttl s.tenants (s.caches p) org s.now).2 = false := by
    rw [isTenantOrgDisabled_fresh (by simp [hc, live?]), hopen]
  intro hnot
  exact hnot _ (auth_session hdis) hout

/-- In every run whose steps meet the condition, no request of an organisation that is
shut out is admitted. -/
theorem shut_out_not_admitted (ttl : ℕ) (s : Service) (as : List Action) (hs : ShutHolds s)
    (hok : Guarded (step ttl) KeepsShut s as) :
    Along (step ttl) (fun s a _ => NotAdmitted ttl s a) s as :=
  along_of_invariant
    (fun _ _ _ hI ha ht => ⟨shutHolds_step hI ha.1 ht, notAdmitted_of_shutHolds hI ha.2⟩) hs hok

/-- An organisation with one enabled key, and nothing cached. -/
def oneKey : Service where
  tenants := ⟨[⟨"k1", "acme", some "Acme", false, none, none, none, none, 0⟩], by decide⟩
  caches := fun _ => .empty
  now := 1000
  shutOut := []

/-- The operator's patch that disables a key. -/
def disable : TenantPatch := ⟨none, none, none, none, some true⟩

/-- The operator disables the key, and neither the key nor a session gets in. -/
theorem shut_out_not_admitted_disabled :
    Along (step 60) (fun s a _ => NotAdmitted 60 s a) oneKey
      [.operatorPatch 0 "k1" disable, .request 0 ⟨some "k1", none⟩,
        .request 0 ⟨none, some "acme"⟩] :=
  shut_out_not_admitted 60 oneKey _ (by simp [ShutHolds, oneKey]) (by decide)

/-- The operator disables the only key, but its owner makes another in the portal and
calls with it; the operator revokes the only key, and a session is admitted. -/
theorem shut_out_admitted :
    ¬Along (step 60) (fun s a _ => NotAdmitted 60 s a) oneKey
      [.operatorPatch 0 "k1" disable, .portalCreate 0 acmeOwner (.ok ⟨none, none⟩) "k2",
        .request 0 ⟨some "k2", none⟩] ∧
    ¬Along (step 60) (fun s a _ => NotAdmitted 60 s a) oneKey
      [.operatorRevoke 0 "k1", .request 0 ⟨none, some "acme"⟩] := by
  decide

end HeirsOcr.TenantAuth
