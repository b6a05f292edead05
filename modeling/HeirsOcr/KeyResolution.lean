import HeirsOcr.ReadCache
import HeirsOcr.TenantAuth

/-!
# A changed key in the process that changed it

`resolveTenant` looks into the cache, awaits a `SELECT` and then stores what it read. A
revoke drops the cached entry before its `DELETE`, an update after its `UPDATE`. Between
any two of these steps other calls of the process may run, so a lookup can put back a
record that is no longer in the table, and a lookup that finds it there answers it. A
change takes effect at once in every run whose lookups store the record the row holds at
that moment, and whose deletes find no such record cached.
-/
namespace HeirsOcr.KeyResolution
open KeyedTable StepMachine TenantKeys TenantAuth

/-- The calls that change a row by its hash; `revokeApiKey` hashes its key and is then
`revokeByHash`. -/
inductive Change where
  | revoke
  | update (patch : TenantPatch)
  deriving DecidableEq, Repr

/-- Where a call that changes a row is: before its statement, after it with the number of
changes of the row so far, or after an update that found no row. -/
inductive Stage where
  | waiting
  | wrote (index : ℕ)
  | noRow
  deriving DecidableEq, Repr

structure Mutation where
  keyHash : String
  change : Change
  stage : Stage
  deriving DecidableEq, Repr

/-- A `resolveTenant` past a cache miss: the changes of the row that had returned when it
started, and what its `SELECT` answered, once it did. -/
structure Lookup where
  keyHash : String
  since : ℕ
  read : Option (Option Tenant)
  deriving DecidableEq, Repr

/-- What a `resolveTenant` returned. -/
structure Answer where
  keyHash : String
  since : ℕ
  tenant : Option Tenant
  deriving DecidableEq, Repr

/-- The table, the caches of the process, its calls under way, and three logs: what the
changes left of each row, in order, the last of them to have returned, counted from one,
and the answers of `resolveTenant`. -/
structure Process where
  tenants : TenantTable
  caches : Caches
  now : ℤ
  lookups : List Lookup
  mutations : List Mutation
  written : String → List (Option Tenant)
  returned : String → ℕ
  answers : List Answer

inductive Action where
  | resolveTenant (keyHash : String)
  /-- The `SELECT` of the `i`th lookup. -/
  | select (i : ℕ)
  /-- The rest of the `i`th lookup: it stores what it read and returns. -/
  | store (i : ℕ)
  | mutate (keyHash : String) (change : Change)
  /-- The statement of the `i`th change. -/
  | execute (i : ℕ)
  /-- The rest of the `i`th change: an update drops the cached entry, and the call returns. -/
  | finish (i : ℕ)
  /-- A query rejected and its call threw. -/
  | failLookup (i : ℕ)
  | failMutation (i : ℕ)
  | wait (ms : ℕ)

def startMutation (s : Process) (keyHash : String) (change : Change) : Process :=
  { s with
    caches :=
      match change with
      | .revoke => s.caches.drop keyHash
      | .update _ => s.caches
    mutations := s.mutations ++ [⟨keyHash, change, .waiting⟩] }

/-- A statement left `tenant` in the row. -/
def Process.log (s : Process) (keyHash : String) (tenant : Option Tenant) : Process :=
  { s with written := Function.update s.written keyHash (s.written keyHash ++ [tenant]) }

def Process.setStage (s : Process) (i : ℕ) (m : Mutation) (stage : Stage) : Process :=
  { s with mutations := s.mutations.set i { m with stage := stage } }

def executeMutation (s : Process) (i : ℕ) (m : Mutation) : Process :=
  let index := (s.written m.keyHash).length + 1
  match m.change with
  | .revoke =>
    (Process.log { s with tenants := revokeByHash s.tenants m.keyHash } m.keyHash none).setStage
      i m (.wrote index)
  | .update patch =>
    match s.tenants.find? m.keyHash with
    | none => s.setStage i m .noRow
    | some row =>
      (Process.log { s with tenants := updateTenantByHash s.tenants m.keyHash patch } m.keyHash
        (some (rowToTenant (patched patch row)))).setStage i m (.wrote index)

def finishMutation (s : Process) (i : ℕ) (m : Mutation) : Option Process :=
  match m.stage with
  | .waiting => none
  | .noRow => some { s with mutations := s.mutations.eraseIdx i }
  | .wrote index => some { s with
      caches :=
        match m.change with
        | .revoke => s.caches
        | .update _ => s.caches.drop m.keyHash
      mutations := s.mutations.eraseIdx i
      returned := Function.update s.returned m.keyHash (max (s.returned m.keyHash) index) }

variable (API_KEY_CACHE_TTL_SECONDS : ℕ)

/-- The cache entry for what a lookup read. -/
def entryOf (now : ℤ) : Option Tenant → CacheEntry
  | none => ⟨none, now + negativeTtlMs API_KEY_CACHE_TTL_SECONDS⟩
  | some tenant => ⟨some tenant, now + cacheTtlMs API_KEY_CACHE_TTL_SECONDS⟩

def startLookup (s : Process) (keyHash : String) : Process :=
  match live? CacheEntry.expiresAt s.now (s.caches.cache keyHash) with
  | some hit => { s with
      answers := s.answers ++
        [⟨keyHash, s.returned keyHash, hit.tenant.bind fun tenant => ifUsable tenant s.now⟩] }
  | none => { s with lookups := s.lookups ++ [⟨keyHash, s.returned keyHash, none⟩] }

def storeLookup (s : Process) (i : ℕ) (l : Lookup) : Option Process :=
  l.read.map fun tenant =>
    { s with
      caches := s.caches.set l.keyHash (entryOf API_KEY_CACHE_TTL_SECONDS s.now tenant)
      lookups := s.lookups.eraseIdx i
      answers := s.answers ++
        [⟨l.keyHash, l.since, tenant.bind fun tenant => ifUsable tenant s.now⟩] }

def step (s : Process) : Action → Option Process
  | .resolveTenant keyHash => some (startLookup s keyHash)
  | .select i =>
    s.lookups[i]?.map fun l =>
      { s with
        lookups := s.lookups.set i { l with read := some (getTenantByHash s.tenants l.keyHash) } }
  | .store i => s.lookups[i]?.bind (storeLookup API_KEY_CACHE_TTL_SECONDS s i)
  | .mutate keyHash change => some (startMutation s keyHash change)
  | .execute i =>
    s.mutations[i]?.bind fun m =>
      if m.stage = .waiting then some (executeMutation s i m) else none
  | .finish i => s.mutations[i]?.bind (finishMutation s i)
  | .failLookup i => some { s with lookups := s.lookups.eraseIdx i }
  | .failMutation i => some { s with mutations := s.mutations.eraseIdx i }
  | .wait ms => some { s with now := s.now + ms }

section Alone

variable {s : Process} {keyHash : String}

/-- A lookup that hits is `resolveTenant`. -/
theorem step_resolveTenant_hit
    (hhit : live? CacheEntry.expiresAt s.now (s.caches.cache keyHash) ≠ none) :
    ∃ t, step API_KEY_CACHE_TTL_SECONDS s (.resolveTenant keyHash) = some t ∧
      t.lookups = s.lookups ∧
      (t.caches, t.answers) =
        let (caches, tenant) := TenantAuth.resolveTenant API_KEY_CACHE_TTL_SECONDS s.tenants
          s.caches keyHash s.now
        (caches, s.answers ++ [⟨keyHash, s.returned keyHash, tenant⟩]) := by
  obtain ⟨hit, hhit⟩ := Option.ne_none_iff_exists'.mp hhit
  refine ⟨_, rfl, ?_⟩
  simp only [startLookup, TenantAuth.resolveTenant, hhit, and_self]

/-- The steps of a lookup that misses, with nothing in between, are `resolveTenant`. -/
theorem exec_resolveTenant_miss
    (hmiss : live? CacheEntry.expiresAt s.now (s.caches.cache keyHash) = none) :
    ∃ t, exec (step API_KEY_CACHE_TTL_SECONDS) s
        [.resolveTenant keyHash, .select s.lookups.length, .store s.lookups.length] = some t ∧
      t.lookups = s.lookups ∧
      (t.caches, t.answers) =
        let (caches, tenant) := TenantAuth.resolveTenant API_KEY_CACHE_TTL_SECONDS s.tenants
          s.caches keyHash s.now
        (caches, s.answers ++ [⟨keyHash, s.returned keyHash, tenant⟩]) := by
  simp only [exec, step, startLookup, hmiss, List.getElem?_concat_length, Option.map_some,
    List.set_append_right _ _ le_rfl, Nat.sub_self, List.set_cons_zero, Option.bind_some,
    storeLookup]
  refine ⟨_, rfl, ?_, ?_⟩
  · rw [List.eraseIdx_append_of_length_le le_rfl]
    simp
  · simp only [TenantAuth.resolveTenant, hmiss]
    cases getTenantByHash s.tenants keyHash <;> rfl

end Alone

/-- The `index`th change of the row, or a later one, left `tenant` in it. -/
def LeftSince (s : Process) (keyHash : String) (index : ℕ) (tenant : Tenant) : Prop :=
  index = 0 ∨ some tenant ∈ (s.written keyHash).drop (index - 1)

instance (s : Process) (keyHash : String) (index : ℕ) : DecidablePred (LeftSince s keyHash index) :=
  fun tenant => inferInstanceAs <| Decidable <|
    index = 0 ∨ some tenant ∈ (s.written keyHash).drop (index - 1)

/-- No answer is a record from before a change that had returned when its lookup started. -/
def TakesEffect (s : Process) : Prop :=
  ∀ a ∈ s.answers, ∀ tenant ∈ a.tenant, LeftSince s a.keyHash a.since tenant

instance : DecidablePred TakesEffect := fun s => inferInstanceAs <| Decidable <|
  ∀ a ∈ s.answers, ∀ tenant ∈ a.tenant, LeftSince s a.keyHash a.since tenant

/-- The record a lookup of the key would be answered from the cache. -/
def cachedTenant (caches : Caches) (now : ℤ) (keyHash : String) : Option Tenant :=
  (live? CacheEntry.expiresAt now (caches.cache keyHash)).bind CacheEntry.tenant

/-- The condition of a step: a lookup stores the record the row holds at that moment, and
a `DELETE` finds no record of its key in the cache. -/
def CachesCurrent (s : Process) : Action → Prop
  | .store i => ∀ l ∈ s.lookups[i]?, ∀ tenant ∈ l.read.join,
      getTenantByHash s.tenants l.keyHash = some tenant
  | .execute i => ∀ m ∈ s.mutations[i]?, m.change = .revoke →
      cachedTenant s.caches s.now m.keyHash = none
  | _ => True

instance (s : Process) : DecidablePred (CachesCurrent s)
  | .store i => inferInstanceAs <| Decidable <| ∀ l ∈ s.lookups[i]?, ∀ tenant ∈ l.read.join,
      getTenantByHash s.tenants l.keyHash = some tenant
  | .execute i => inferInstanceAs <| Decidable <|
      ∀ m ∈ s.mutations[i]?, m.change = .revoke → cachedTenant s.caches s.now m.keyHash = none
  | .resolveTenant _ | .select _ | .mutate .. | .finish _ | .failLookup _ | .failMutation _
  | .wait _ => inferInstanceAs (Decidable True)

/-- The invariant. A row holds what its last change left; a deleted one stays away, from
the cache too; and a cached record is no older than the last change that has returned. -/
structure Fresh (s : Process) : Prop where
  row : ∀ k, ∀ tenant ∈ (s.written k).getLast?, getTenantByHash s.tenants k = tenant
  revoked : ∀ k, none ∈ s.written k →
    getTenantByHash s.tenants k = none ∧ cachedTenant s.caches s.now k = none
  cached : ∀ k, ∀ tenant ∈ cachedTenant s.caches s.now k, LeftSince s k (s.returned k) tenant
  returned : ∀ k, s.returned k ≤ (s.written k).length
  since : ∀ l ∈ s.lookups, l.since ≤ s.returned l.keyHash
  wrote : ∀ m ∈ s.mutations, ∀ index, m.stage = .wrote index →
    index ≤ (s.written m.keyHash).length ∧ (m.change = .revoke → none ∈ s.written m.keyHash)
  answers : TakesEffect s

section Steps

variable {API_KEY_CACHE_TTL_SECONDS : ℕ} {s t : Process} {keyHash : String} {tenant : Tenant}

theorem LeftSince.anti {index index' : ℕ} (h : LeftSince s keyHash index tenant)
    (hle : index' ≤ index) : LeftSince s keyHash index' tenant := by
  rcases h with rfl | hmem
  · exact Or.inl (by omega)
  · exact Or.inr (List.drop_subset_drop_left _ (by omega) hmem)

/-- The record in the row was left by its last change. -/
theorem Fresh.leftSince_row (hs : Fresh s) (hrow : getTenantByHash s.tenants keyHash = some tenant)
    {index : ℕ} (hle : index ≤ (s.written keyHash).length) :
    LeftSince s keyHash index tenant := by
  rcases Nat.eq_zero_or_pos index with rfl | hpos
  · exact Or.inl rfl
  · right
    cases hlast : (s.written keyHash).getLast? with
    | none =>
      have hnil : s.written keyHash = [] := List.getLast?_eq_none_iff.mp hlast
      rw [hnil] at hle
      simp at hle
      omega
    | some value =>
      have hvalue : value = some tenant := by rw [← hrow, hs.row keyHash value hlast]
      rw [← hvalue]
      exact ReadCache.mem_drop_of_getLast? hlast (by omega)

/-- The calls under way and the answers may change by themselves. -/
theorem Fresh.calls (hs : Fresh s) {lookups : List Lookup} {mutations : List Mutation}
    {answers : List Answer} (hl : ∀ l ∈ lookups, l.since ≤ s.returned l.keyHash)
    (hm : ∀ m ∈ mutations, ∀ index, m.stage = .wrote index →
      index ≤ (s.written m.keyHash).length ∧ (m.change = .revoke → none ∈ s.written m.keyHash))
    (ha : ∀ a ∈ answers, ∀ tenant ∈ a.tenant, LeftSince s a.keyHash a.since tenant) :
    Fresh { s with lookups := lookups, mutations := mutations, answers := answers } :=
  ⟨hs.row, hs.revoked, hs.cached, hs.returned, hl, hm, ha⟩

/-- A record that comes into the cache is the one in the row. -/
theorem Fresh.caching (hs : Fresh s) (caches : Caches) (now : ℤ)
    (h : ∀ k, ∀ tenant ∈ cachedTenant caches now k,
      cachedTenant s.caches s.now k = some tenant ∨ getTenantByHash s.tenants k = some tenant) :
    Fresh { s with caches := caches, now := now } where
  row := hs.row
  revoked := by
    intro k hk
    obtain ⟨hrow, hcached⟩ := hs.revoked k hk
    refine ⟨hrow, Option.eq_none_iff_forall_not_mem.mpr fun tenant ht => ?_⟩
    rcases h k tenant ht with hold | hnew
    · rw [hcached] at hold
      cases hold
    · rw [hrow] at hnew
      cases hnew
  cached := by
    intro k tenant ht
    rcases h k tenant ht with hold | hnew
    · exact hs.cached k tenant hold
    · exact hs.leftSince_row hnew (hs.returned k)
  returned := hs.returned
  since := hs.since
  wrote := hs.wrote
  answers := hs.answers

theorem live?_mono {ε : Type} {expiresAt : ε → ℤ} {now now' : ℤ} {entry : Option ε} {e : ε}
    (hle : now ≤ now') (h : live? expiresAt now' entry = some e) :
    live? expiresAt now entry = some e := by
  obtain ⟨rfl, hlive⟩ := Option.filter_eq_some_iff.mp h
  have hlive : now' < expiresAt e := of_decide_eq_true hlive
  exact Option.filter_eq_some_iff.mpr ⟨rfl, decide_eq_true (by omega)⟩

theorem fresh_wait (hs : Fresh s) (ms : ℕ) : Fresh { s with now := s.now + ms } := by
  refine hs.caching s.caches (s.now + ms) fun k tenant ht => Or.inl ?_
  obtain ⟨e, he, htenant⟩ := Option.bind_eq_some_iff.mp ht
  have hold : live? CacheEntry.expiresAt s.now (s.caches.cache k) = some e :=
    live?_mono (by omega) he
  exact Option.bind_eq_some_iff.mpr ⟨e, hold, htenant⟩

theorem cachedTenant_drop (caches : Caches) (now : ℤ) (k : String) :
    cachedTenant (caches.drop keyHash) now k =
      if k = keyHash then none else cachedTenant caches now k := by
  unfold cachedTenant Caches.drop
  by_cases hk : k = keyHash
  · subst hk
    simp [live?]
  · simp [hk]

theorem fresh_drop (hs : Fresh s) (keyHash : String) :
    Fresh { s with caches := s.caches.drop keyHash } := by
  refine hs.caching (s.caches.drop keyHash) s.now fun k tenant ht => Or.inl ?_
  rw [cachedTenant_drop] at ht
  split_ifs at ht
  · cases ht
  · exact ht

theorem fresh_set (hs : Fresh s) {read : Option Tenant}
    (hread : ∀ tenant ∈ read, getTenantByHash s.tenants keyHash = some tenant) :
    Fresh { s with
      caches := s.caches.set keyHash (entryOf API_KEY_CACHE_TTL_SECONDS s.now read) } := by
  refine hs.caching _ s.now fun k tenant ht => ?_
  simp only [cachedTenant, Caches.set] at ht
  by_cases hk : k = keyHash
  · subst hk
    rw [Function.update_self] at ht
    obtain ⟨e, he, htenant⟩ := Option.bind_eq_some_iff.mp ht
    obtain ⟨hentry, -⟩ := Option.filter_eq_some_iff.mp he
    obtain rfl := Option.some.inj hentry
    cases read with
    | none => cases htenant
    | some record => exact Or.inr (hread tenant htenant)
  · rw [Function.update_of_ne hk] at ht
    exact Or.inl ht

theorem LeftSince.log {tenants : TenantTable} {k : String} {value : Option Tenant} {index : ℕ}
    (h : LeftSince s k index tenant) :
    LeftSince (Process.log { s with tenants := tenants } keyHash value) k index tenant := by
  rcases h with rfl | hmem
  · exact Or.inl rfl
  · right
    by_cases hk : k = keyHash
    · subst hk
      simp only [Process.log, Function.update_self, List.drop_append]
      exact List.mem_append_left _ hmem
    · simpa only [Process.log, Function.update_of_ne hk] using hmem

theorem written_sublist (tenants : TenantTable) (value : Option Tenant) (k : String) :
    (s.written k).Sublist
      ((Process.log { s with tenants := tenants } keyHash value).written k) := by
  by_cases hk : k = keyHash
  · subst hk
    simp [Process.log]
  · simp [Process.log, hk]

/-- A statement writes a row: a record only over a record, and nothing only when no record
of the key is cached. -/
theorem fresh_log (hs : Fresh s) {tenants : TenantTable} {value : Option Tenant}
    (hrow : ∀ k, getTenantByHash tenants k =
      if k = keyHash then value else getTenantByHash s.tenants k)
    (hnone : value = none → cachedTenant s.caches s.now keyHash = none)
    (hover : none ∈ s.written keyHash → value = none) :
    Fresh (Process.log { s with tenants := tenants } keyHash value) where
  row := by
    intro k tenant ht
    have hk := hrow k
    by_cases he : k = keyHash
    · subst he
      rw [if_pos rfl] at hk
      simp only [Process.log, Function.update_self, List.getLast?_concat] at ht
      obtain rfl := Option.some.inj ht
      exact hk
    · rw [if_neg he] at hk
      simp only [Process.log, Function.update_of_ne he] at ht
      exact hk.trans (hs.row k tenant ht)
  revoked := by
    intro k hmem
    have hk := hrow k
    by_cases he : k = keyHash
    · subst he
      rw [if_pos rfl] at hk
      have hvalue : value = none := by
        simp only [Process.log, Function.update_self, List.mem_append, List.mem_singleton] at hmem
        exact hmem.elim hover Eq.symm
      exact ⟨hk.trans hvalue, hnone hvalue⟩
    · rw [if_neg he] at hk
      simp only [Process.log, Function.update_of_ne he] at hmem
      exact ⟨hk.trans (hs.revoked k hmem).1, (hs.revoked k hmem).2⟩
  cached := fun k tenant ht => (hs.cached k tenant ht).log
  returned := fun k => (hs.returned k).trans (written_sublist _ _ k).length_le
  since := hs.since
  wrote := by
    intro m hm index hindex
    obtain ⟨hle, hrevoke⟩ := hs.wrote m hm index hindex
    exact ⟨hle.trans (written_sublist _ _ m.keyHash).length_le,
      fun hc => (written_sublist _ _ _).subset (hrevoke hc)⟩
  answers := fun a ha tenant ht => (hs.answers a ha tenant ht).log

theorem fresh_setStage (hs : Fresh s) {i : ℕ} {m : Mutation} {stage : Stage}
    (hstage : ∀ index, stage = .wrote index → index ≤ (s.written m.keyHash).length ∧
      (m.change = .revoke → none ∈ s.written m.keyHash)) : Fresh (s.setStage i m stage) := by
  refine hs.calls hs.since (fun m' hm' => ?_) hs.answers
  rcases List.mem_or_eq_of_mem_set hm' with hold | rfl
  · exact hs.wrote m' hold
  · exact hstage

theorem getTenantByHash_revokeByHash (tenants : TenantTable) (k : String) :
    getTenantByHash (revokeByHash tenants keyHash) k =
      if k = keyHash then none else getTenantByHash tenants k := by
  unfold getTenantByHash revokeByHash
  rw [Table.find?_delete]
  cases hf : tenants.find? k with
  | none => simp
  | some row =>
    have hkey : row.keyHash = k := Table.key_of_find? hf
    by_cases hk : k = keyHash <;> simp [Option.filter, hkey, hk]

theorem getTenantByHash_updateTenantByHash {tenants : TenantTable} {row : TenantRow}
    (hrow : tenants.find? keyHash = some row) (patch : TenantPatch) (k : String) :
    getTenantByHash (updateTenantByHash tenants keyHash patch) k =
      if k = keyHash then some (rowToTenant (patched patch row))
      else getTenantByHash tenants k := by
  unfold getTenantByHash updateTenantByHash
  rw [Table.find?_update]
  by_cases hk : k = keyHash
  · subst hk
    have hkey : row.keyHash = k := Table.key_of_find? hrow
    simp [hrow, hkey]
  · rw [if_neg hk]
    cases hf : tenants.find? k with
    | none => rfl
    | some row' =>
      have hkey : row'.keyHash = k := Table.key_of_find? hf
      simp [hkey, hk]

theorem written_log_length (tenants : TenantTable) (value : Option Tenant) :
    ((Process.log { s with tenants := tenants } keyHash value).written keyHash).length =
      (s.written keyHash).length + 1 := by
  simp [Process.log]

theorem fresh_executeMutation {i : ℕ} {m : Mutation} (hs : Fresh s)
    (hdelete : m.change = .revoke → cachedTenant s.caches s.now m.keyHash = none) :
    Fresh (executeMutation s i m) := by
  unfold executeMutation
  cases hc : m.change with
  | revoke =>
    have hlog : Fresh (Process.log { s with tenants := revokeByHash s.tenants m.keyHash }
        m.keyHash none) :=
      fresh_log hs (getTenantByHash_revokeByHash s.tenants) (fun _ => hdelete hc) fun _ => rfl
    refine fresh_setStage hlog fun index hindex => ⟨?_, fun _ => ?_⟩
    · cases hindex
      rw [written_log_length]
    · simp [Process.log]
  | update patch =>
    cases hf : s.tenants.find? m.keyHash with
    | none => exact fresh_setStage hs fun index hindex => by cases hindex
    | some row =>
      have hpresent : none ∉ s.written m.keyHash := by
        intro hmem
        have hgone := (hs.revoked m.keyHash hmem).1
        simp [getTenantByHash, hf] at hgone
      have hlog : Fresh (Process.log
          { s with tenants := updateTenantByHash s.tenants m.keyHash patch } m.keyHash
          (some (rowToTenant (patched patch row)))) :=
        fresh_log hs (getTenantByHash_updateTenantByHash hf patch) (fun hnone => by cases hnone)
          fun hmem => absurd hmem hpresent
      refine fresh_setStage hlog fun index hindex => ⟨?_, fun hrevoke => ?_⟩
      · cases hindex
        rw [written_log_length]
      · rw [hc] at hrevoke
        cases hrevoke

/-- A change returns when no record of its key is cached. -/
theorem fresh_return (hs : Fresh s) {index : ℕ} (hindex : index ≤ (s.written keyHash).length)
    (hcached : cachedTenant s.caches s.now keyHash = none) :
    Fresh { s with
      returned := Function.update s.returned keyHash (max (s.returned keyHash) index) } where
  row := hs.row
  revoked := hs.revoked
  cached := by
    intro k tenant ht
    by_cases hk : k = keyHash
    · subst hk
      rw [hcached] at ht
      cases ht
    · simp only [Function.update_of_ne hk]
      exact hs.cached k tenant ht
  returned := by
    intro k
    have hold := hs.returned k
    by_cases hk : k = keyHash
    · subst hk
      simp only [Function.update_self]
      omega
    · simpa only [Function.update_of_ne hk] using hold
  since := by
    intro l hl
    have hold := hs.since l hl
    by_cases hk : l.keyHash = keyHash
    · simp only [hk, Function.update_self] at hold ⊢
      omega
    · simpa only [Function.update_of_ne hk] using hold
  wrote := hs.wrote
  answers := hs.answers

theorem fresh_finishMutation {i : ℕ} {m : Mutation} (hs : Fresh s) (hm : m ∈ s.mutations)
    (h : finishMutation s i m = some t) : Fresh t := by
  have hrest : ∀ m' ∈ s.mutations.eraseIdx i, m' ∈ s.mutations := fun m' hm' =>
    List.mem_of_mem_eraseIdx hm'
  unfold finishMutation at h
  cases hstage : m.stage with
  | waiting =>
    rw [hstage] at h
    cases h
  | noRow =>
    rw [hstage] at h
    obtain rfl := Option.some.inj h
    exact hs.calls hs.since (fun m' hm' => hs.wrote m' (hrest m' hm')) hs.answers
  | wrote index =>
    rw [hstage] at h
    obtain rfl := Option.some.inj h
    obtain ⟨hindex, hrevoke⟩ := hs.wrote m hm index hstage
    cases hc : m.change with
    | revoke =>
      have hnone := (hs.revoked m.keyHash (hrevoke hc)).2
      have hreturn := fresh_return hs hindex hnone
      exact hreturn.calls hreturn.since (fun m' hm' => hs.wrote m' (hrest m' hm')) hs.answers
    | update patch =>
      have hnone : cachedTenant (s.caches.drop m.keyHash) s.now m.keyHash = none := by
        rw [cachedTenant_drop, if_pos rfl]
      have hreturn := fresh_return (fresh_drop hs m.keyHash) hindex hnone
      exact hreturn.calls hreturn.since (fun m' hm' => hs.wrote m' (hrest m' hm')) hs.answers

theorem eq_of_ifUsable {record : Tenant} {now : ℤ} (h : ifUsable record now = some tenant) :
    record = tenant := by
  unfold ifUsable at h
  split_ifs at h
  exact Option.some.inj h

/-- One more answer: what it carries is the record that was looked at. -/
theorem takesEffect_answer (hs : TakesEffect s) {since : ℕ} {record : Option Tenant}
    (hrecord : ∀ tenant ∈ record, LeftSince s keyHash since tenant) :
    ∀ a ∈ s.answers ++ [⟨keyHash, since, record.bind fun tenant => ifUsable tenant s.now⟩],
      ∀ tenant ∈ a.tenant, LeftSince s a.keyHash a.since tenant := by
  intro a ha tenant ht
  rcases List.mem_append.mp ha with hold | hnew
  · exact hs a hold tenant ht
  · obtain rfl := List.mem_singleton.mp hnew
    obtain ⟨found, hfound, husable⟩ := Option.bind_eq_some_iff.mp ht
    have hsame : found = tenant := eq_of_ifUsable husable
    exact hrecord tenant (hsame ▸ hfound)

theorem fresh_startLookup (hs : Fresh s) (keyHash : String) : Fresh (startLookup s keyHash) := by
  unfold startLookup
  cases hhit : live? CacheEntry.expiresAt s.now (s.caches.cache keyHash) with
  | none =>
    refine hs.calls (fun l hl => ?_) hs.wrote hs.answers
    rcases List.mem_append.mp hl with hl | hl
    · exact hs.since l hl
    · obtain rfl := List.mem_singleton.mp hl
      exact le_rfl
  | some hit =>
    refine hs.calls hs.since hs.wrote (takesEffect_answer hs.answers fun tenant ht => ?_)
    have hcached : cachedTenant s.caches s.now keyHash = some tenant := by
      rw [cachedTenant, hhit]
      exact ht
    exact hs.cached keyHash tenant hcached

theorem fresh_storeLookup {i : ℕ} {l : Lookup} (hs : Fresh s) (hl : l ∈ s.lookups)
    (hread : ∀ tenant ∈ l.read.join, getTenantByHash s.tenants l.keyHash = some tenant)
    (h : storeLookup API_KEY_CACHE_TTL_SECONDS s i l = some t) : Fresh t := by
  obtain ⟨read, hr, rfl⟩ := Option.map_eq_some_iff.mp h
  rw [hr] at hread
  have hset : Fresh { s with
      caches := s.caches.set l.keyHash (entryOf API_KEY_CACHE_TTL_SECONDS s.now read) } :=
    fresh_set hs hread
  have hle : l.since ≤ (s.written l.keyHash).length :=
    (hs.since l hl).trans (hs.returned l.keyHash)
  exact hset.calls (fun l' hl' => hs.since l' (List.mem_of_mem_eraseIdx hl')) hs.wrote
    (takesEffect_answer hs.answers fun tenant ht => hs.leftSince_row (hread tenant ht) hle)

/-- The step lemma. -/
theorem fresh_step {a : Action} (hs : Fresh s) (ha : CachesCurrent s a)
    (h : step API_KEY_CACHE_TTL_SECONDS s a = some t) : Fresh t := by
  cases a with
  | resolveTenant keyHash =>
    obtain rfl := Option.some.inj h
    exact fresh_startLookup hs keyHash
  | select i =>
    obtain ⟨l, hl, rfl⟩ := Option.map_eq_some_iff.mp h
    refine hs.calls (fun l' hl' => ?_) hs.wrote hs.answers
    rcases List.mem_or_eq_of_mem_set hl' with hold | rfl
    · exact hs.since l' hold
    · exact hs.since l (List.mem_of_getElem? hl)
  | store i =>
    obtain ⟨l, hl, hstore⟩ := Option.bind_eq_some_iff.mp h
    exact fresh_storeLookup hs (List.mem_of_getElem? hl) (ha l hl) hstore
  | mutate keyHash change =>
    obtain rfl := Option.some.inj h
    have hnew : ∀ m ∈ s.mutations ++ [⟨keyHash, change, .waiting⟩], ∀ index,
        m.stage = .wrote index → index ≤ (s.written m.keyHash).length ∧
          (m.change = .revoke → none ∈ s.written m.keyHash) := by
      intro m hm
      rcases List.mem_append.mp hm with hm | hm
      · exact hs.wrote m hm
      · obtain rfl := List.mem_singleton.mp hm
        intro index hindex
        cases hindex
    cases change with
    | revoke => exact (fresh_drop hs keyHash).calls hs.since hnew hs.answers
    | update patch => exact hs.calls hs.since hnew hs.answers
  | execute i =>
    obtain ⟨m, hm, hexecute⟩ := Option.bind_eq_some_iff.mp h
    split_ifs at hexecute
    obtain rfl := Option.some.inj hexecute
    exact fresh_executeMutation hs (ha m hm)
  | finish i =>
    obtain ⟨m, hm, hfinish⟩ := Option.bind_eq_some_iff.mp h
    exact fresh_finishMutation hs (List.mem_of_getElem? hm) hfinish
  | failLookup i =>
    obtain rfl := Option.some.inj h
    exact hs.calls (fun l hl => hs.since l (List.mem_of_mem_eraseIdx hl)) hs.wrote hs.answers
  | failMutation i =>
    obtain rfl := Option.some.inj h
    exact hs.calls hs.since (fun m hm => hs.wrote m (List.mem_of_mem_eraseIdx hm)) hs.answers
  | wait ms =>
    obtain rfl := Option.some.inj h
    exact fresh_wait hs ms

end Steps

/-- A process that has no call under way yet, whatever it has cached. -/
def start (tenants : TenantTable) (caches : Caches) (now : ℤ) : Process where
  tenants := tenants
  caches := caches
  now := now
  lookups := []
  mutations := []
  written := fun _ => []
  returned := fun _ => 0
  answers := []

/-- In every run whose lookups store what the row holds at that moment and whose deletes
find no record of their key cached, a change takes effect as soon as it has returned. -/
theorem change_takes_effect (tenants : TenantTable) (caches : Caches) (now : ℤ)
    (as : List Action)
    (hcurrent : Guarded (step API_KEY_CACHE_TTL_SECONDS) CachesCurrent (start tenants caches now)
      as) :
    Throughout (step API_KEY_CACHE_TTL_SECONDS) TakesEffect (start tenants caches now) as := by
  have hstart : Fresh (start tenants caches now) :=
    { row := fun _ tenant h => by cases h
      revoked := fun _ h => absurd h List.not_mem_nil
      cached := fun _ _ _ => Or.inl rfl
      returned := fun _ => le_rfl
      since := fun _ h => absurd h List.not_mem_nil
      wrote := fun _ h => absurd h List.not_mem_nil
      answers := fun _ h => absurd h List.not_mem_nil }
  exact (throughout_of_guarded (fun _ _ _ hs ha h => fresh_step hs ha h) hstart hcurrent).mono
    fun _ hs => hs.answers

/-- One key of one organisation. -/
def oneKey : TenantTable where
  rows := [⟨"7f83", "acme", some "prod", false, none, none, none, none, 0⟩]
  nodup := by decide

def disabling : TenantPatch := ⟨none, none, none, none, some true⟩

/-- A lookup, a revoke and a lookup, one after the other. -/
theorem change_takes_effect_sequential :
    Guarded (step 30) CachesCurrent (start oneKey Caches.empty 0)
      [.resolveTenant "7f83", .select 0, .store 0, .mutate "7f83" .revoke, .execute 0, .finish 0,
        .resolveTenant "7f83", .select 0, .store 0] ∧
    Throughout (step 30) TakesEffect (start oneKey Caches.empty 0)
      [.resolveTenant "7f83", .select 0, .store 0, .mutate "7f83" .revoke, .execute 0, .finish 0,
        .resolveTenant "7f83", .select 0, .store 0] :=
  ⟨by decide, change_takes_effect 30 oneKey Caches.empty 0 _ (by decide)⟩

/-- A lookup refills the cache between a revoke's `cache.delete` and its `DELETE`, and the
next one finds the deleted key there. And a lookup that read the row before an update
stores it after the update has returned. -/
theorem refilled_cache_answers :
    ¬Throughout (step 30) TakesEffect (start oneKey Caches.empty 0)
      [.mutate "7f83" .revoke, .resolveTenant "7f83", .select 0, .store 0, .execute 0, .finish 0,
        .resolveTenant "7f83"] ∧
    ¬Throughout (step 30) TakesEffect (start oneKey Caches.empty 0)
      [.resolveTenant "7f83", .select 0, .mutate "7f83" (.update disabling), .execute 0,
        .finish 0, .store 0, .resolveTenant "7f83"] := by
  decide

end HeirsOcr.KeyResolution
