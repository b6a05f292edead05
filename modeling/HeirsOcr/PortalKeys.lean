import HeirsOcr.TenantKeys

/-!
# Keys made in the portal

`POST` and `DELETE /api/keys` as run by the owner of an organisation, over the
registry and the clock. What a new key may call is recomputed from the keys found at
that moment, so a key stays within what the operator granted as long as every creation
finds a key to inherit from. An owner who first deletes every key of the organisation
creates an unrestricted one.
-/
namespace HeirsOcr.TenantKeys
open KeyedTable StepMachine

inductive TenantRole where
  | member
  | owner
  deriving DecidableEq, Repr

def TenantRole.text : TenantRole → String
  | .member => "member"
  | .owner => "owner"

def ROLE_RANK : TenantRole → ℕ
  | .member => 0
  | .owner => 1

/-- The session `tenantAuth` resolved from the cookie. -/
structure TenantSession where
  tenantId : String
  role : TenantRole
  deriving DecidableEq, Repr

def requireTenantRole (min : TenantRole) (session : TenantSession) : Except HttpError Unit :=
  let needed := min.text
  if ROLE_RANK session.role < ROLE_RANK min then
    .error ⟨403, "FORBIDDEN", s!"Requires {needed} access"⟩
  else .ok ()

/-- A body `createKeySchema` accepts. -/
structure CreateKey where
  name : Option String
  expiresAt : Option ℤ
  deriving DecidableEq, Repr

/-- `POST /api/keys`. The body is the outcome of `safeParse`, with the first issue's
message when it fails; `keyHash` is the hash of the key generated for the request. -/
def postApiKeys (tenants : TenantTable) (session : TenantSession)
    (parsed : Except String CreateKey) (keyHash : String) (now : ℤ) :
    Except HttpError TenantTable :=
  match requireTenantRole .owner session with
  | .error e => .error e
  | .ok () =>
    match parsed with
    | .error message => .error ⟨400, "INVALID_ARGS", message⟩
    | .ok data =>
      if data.expiresAt.any fun expiresAt => expiresAt ≤ now then
        .error ⟨400, "INVALID_ARGS", "Expiry must be in the future"⟩
      else
        let existing := listKeysForTenant tenants session.tenantId
        let scope := inheritedScope (existing.map Prod.snd)
        .ok <| putTenant tenants keyHash
          { tenantId := session.tenantId
            name := data.name
            disabled := none
            rateLimit := scope.rateLimit
            allowedOrigins := none
            allowedFunctions := scope.allowedFunctions
            expiresAt := data.expiresAt
            createdAt := some now }
          now

/-- `DELETE /api/keys/:hash`. -/
def deleteApiKeys (tenants : TenantTable) (session : TenantSession) (keyHash : String) :
    Except HttpError TenantTable :=
  match requireTenantRole .owner session with
  | .error e => .error e
  | .ok () =>
    let owned := listKeysForTenant tenants session.tenantId
    if owned.any fun k => k.1 = keyHash then .ok (revokeByHash tenants keyHash)
    else .error ⟨404, "NOT_FOUND", "No such key"⟩

/-- A creation request that passes every check: an owner, a valid body, and an expiry
in the future if there is one. -/
def validCreation (session : TenantSession) (parsed : Except String CreateKey) (now : ℤ) :
    Bool :=
  decide (session.role = .owner) &&
    match parsed with
    | .ok data => !(data.expiresAt.any fun expiresAt => expiresAt ≤ now)
    | .error _ => false

/-- The row a valid creation puts. -/
def portalRow (tenants : TenantTable) (session : TenantSession) (data : CreateKey)
    (keyHash : String) (now : ℤ) : TenantRow where
  keyHash := keyHash
  tenantId := session.tenantId
  name := data.name
  disabled := false
  rateLimit :=
    (inheritedScope ((listKeysForTenant tenants session.tenantId).map Prod.snd)).rateLimit
  allowedOrigins := none
  allowedFunctions :=
    (inheritedScope ((listKeysForTenant tenants session.tenantId).map Prod.snd)).allowedFunctions
  expiresAt := data.expiresAt
  createdAt := now

theorem requireTenantRole_owner {session : TenantSession} :
    requireTenantRole .owner session = .ok () ↔ session.role = .owner := by
  cases h : session.role <;> simp [requireTenantRole, ROLE_RANK, h]

/-- A creation goes through exactly when it is valid, and puts one row. -/
theorem postApiKeys_of_valid (tenants : TenantTable) {session : TenantSession}
    {parsed : Except String CreateKey} (keyHash : String) {now : ℤ}
    (h : validCreation session parsed now) :
    ∃ data, parsed = .ok data ∧ (∀ e, data.expiresAt = some e → now < e) ∧
      postApiKeys tenants session parsed keyHash now =
        .ok (tenants.upsert (portalRow tenants session data keyHash now)
          (fun old new => { new with keyHash := old.keyHash }) fun _ => rfl) := by
  simp only [validCreation, Bool.and_eq_true, decide_eq_true_eq] at h
  obtain ⟨hrole, hdata⟩ := h
  cases parsed with
  | error message => simp at hdata
  | ok data =>
    have hexp : (data.expiresAt.any fun e => decide (e ≤ now)) = false := by simpa using hdata
    refine ⟨data, rfl, ?_, ?_⟩
    · intro e he
      simpa [he] using hexp
    · simp only [postApiKeys, requireTenantRole_owner.mpr hrole, hexp, Bool.false_eq_true, if_false]
      rfl

theorem postApiKeys_of_invalid (tenants : TenantTable) {session : TenantSession}
    {parsed : Except String CreateKey} (keyHash : String) {now : ℤ}
    (h : ¬validCreation session parsed now) :
    ∃ e, postApiKeys tenants session parsed keyHash now = .error e := by
  unfold postApiKeys
  cases hr : requireTenantRole .owner session with
  | error e => exact ⟨e, rfl⟩
  | ok u =>
    have hrole := requireTenantRole_owner.mp hr
    cases parsed with
    | error message => exact ⟨_, rfl⟩
    | ok data =>
      have hexp : data.expiresAt.any fun e => decide (e ≤ now) := by
        simpa [validCreation, hrole] using h
      exact ⟨_, if_pos hexp⟩

/-- A deletion drops one row or is refused. -/
theorem deleteApiKeys_eq_ok {tenants tenants' : TenantTable} {session : TenantSession}
    {keyHash : String} (h : deleteApiKeys tenants session keyHash = .ok tenants') :
    (∃ row ∈ orgRows tenants session.tenantId, row.keyHash = keyHash) ∧
      tenants' = revokeByHash tenants keyHash := by
  unfold deleteApiKeys at h
  cases hr : requireTenantRole .owner session with
  | error e => simp [hr] at h
  | ok u =>
    simp only [hr] at h
    split_ifs at h with howned
    · refine ⟨?_, (Except.ok.inj h).symm⟩
      obtain ⟨k, hk, hh⟩ := List.any_eq_true.mp howned
      obtain ⟨row, hrow, rfl⟩ := List.mem_map.mp hk
      exact ⟨row, hrow, by simpa using hh⟩

/-- The registry, the clock and the hashes of the keys made in the portal. -/
structure Registry where
  tenants : TenantTable
  now : ℤ
  portalMade : List String

inductive PortalAction where
  | create (session : TenantSession) (parsed : Except String CreateKey) (keyHash : String)
  | delete (session : TenantSession) (keyHash : String)
  | wait (ms : ℕ)

/-- One request, or the passing of time; a refused request changes nothing. -/
def portalStep (s : Registry) : PortalAction → Option Registry
  | .create session parsed keyHash =>
    match postApiKeys s.tenants session parsed keyHash s.now with
    | .ok tenants => some { s with tenants := tenants, portalMade := keyHash :: s.portalMade }
    | .error _ => some s
  | .delete session keyHash =>
    match deleteApiKeys s.tenants session keyHash with
    | .ok tenants => some { s with tenants := tenants }
    | .error _ => some s
  | .wait ms => some { s with now := s.now + ms }

/-- A key `resolveTenant` accepts. -/
def usable (now : ℤ) (row : TenantRow) : Bool :=
  !row.disabled && !isTenantKeyExpired (rowToTenant row) now

/-- The key stays within what the operator granted. -/
def WithinGrants (granted : List TenantRow) (row : TenantRow) : Prop :=
  authority row.allowedFunctions ⊆ ⋃ g ∈ granted, authority g.allowedFunctions ∧
    (unrestricted row.allowedFunctions → ∃ g ∈ granted, unrestricted g.allowedFunctions)

/-- Every usable key the organisation made in the portal stays within the grants. -/
def NoEscalation (org : String) (granted : List TenantRow) (s : Registry) : Prop :=
  ∀ row ∈ orgRows s.tenants org, row.keyHash ∈ s.portalMade → usable s.now row →
    WithinGrants granted row

/-- The condition of a creation: the organisation still has a key to inherit from. -/
def CreatesFromKeys (org : String) (s : Registry) : PortalAction → Prop
  | .create session parsed _ =>
    session.tenantId = org → validCreation session parsed s.now → orgRows s.tenants org ≠ []
  | _ => True

instance (org : String) (s : Registry) : DecidablePred (CreatesFromKeys org s)
  | .create session parsed _ => inferInstanceAs <| Decidable <|
    session.tenantId = org → validCreation session parsed s.now → orgRows s.tenants org ≠ []
  | .delete .. | .wait _ => inferInstanceAs (Decidable True)

theorem mem_put {tenants : TenantTable} {new row : TenantRow}
    {hm : ∀ old : TenantRow, ({ new with keyHash := old.keyHash } : TenantRow).keyHash =
      old.keyHash} :
    row ∈ tenants.upsert new (fun old new => { new with keyHash := old.keyHash }) hm ↔
      row ∈ tenants ∧ row.keyHash ≠ new.keyHash ∨ row = new := by
  have hput : (tenants.find? new.keyHash).elim new
      (fun old => { new with keyHash := old.keyHash }) = new := by
    cases hf : tenants.find? new.keyHash with
    | none => rfl
    | some old => simp [Table.key_of_find? hf]
  constructor
  · intro h
    rcases Table.mem_upsert h with h | h
    · exact Or.inl h
    · exact Or.inr (h.trans hput)
  · intro h
    apply Table.mem_of_find?
    rw [Table.find?_upsert tenants new _ hm row.keyHash]
    rcases h with ⟨hrow, hne⟩ | rfl
    · rw [if_neg (Ne.symm hne), Table.find?_key hrow]
    · rw [if_pos rfl, hput]

theorem scopes_of_org (tenants : TenantTable) (tenantId : String) :
    (listKeysForTenant tenants tenantId).map Prod.snd =
      (orgRows tenants tenantId).map rowToTenant := by
  simp [listKeysForTenant]

/-- A key that inherits from keys within the grants is within them. -/
theorem withinGrants_portalRow {granted : List TenantRow} {tenants : TenantTable}
    {session : TenantSession} {data : CreateKey} {keyHash : String} {now : ℤ}
    (hne : orgRows tenants session.tenantId ≠ [])
    (hall : ∀ row ∈ orgRows tenants session.tenantId, WithinGrants granted row) :
    WithinGrants granted (portalRow tenants session data keyHash now) := by
  have hkeys : (orgRows tenants session.tenantId).map rowToTenant ≠ [] := by simpa using hne
  unfold WithinGrants portalRow
  simp only [scopes_of_org]
  constructor
  · rw [authority_inheritedScope hkeys]
    refine Set.iUnion₂_subset fun k hk => ?_
    obtain ⟨row, hrow, rfl⟩ := List.mem_map.mp hk
    exact (hall row hrow).1
  · rw [unrestricted_inheritedScope hkeys]
    rintro ⟨k, hk, hu⟩
    obtain ⟨row, hrow, rfl⟩ := List.mem_map.mp hk
    exact (hall row hrow).2 hu

/-- With no key left to inherit from, the new key is unrestricted. -/
theorem unrestricted_portalRow {tenants : TenantTable} {session : TenantSession}
    {data : CreateKey} {keyHash : String} {now : ℤ}
    (hnil : orgRows tenants session.tenantId = []) :
    unrestricted (portalRow tenants session data keyHash now).allowedFunctions := by
  simp only [portalRow, scopes_of_org, hnil, List.map_nil]
  rfl

/-- The step lemma: creations that find a key keep every key within the grants. -/
theorem withinGrants_step {org : String} {granted : List TenantRow} {s t : Registry}
    {a : PortalAction} (hs : ∀ row ∈ orgRows s.tenants org, WithinGrants granted row)
    (ha : CreatesFromKeys org s a) (h : portalStep s a = some t) :
    ∀ row ∈ orgRows t.tenants org, WithinGrants granted row := by
  cases a with
  | create session parsed keyHash =>
    by_cases hv : validCreation session parsed s.now
    · obtain ⟨data, rfl, -, hput⟩ := postApiKeys_of_valid s.tenants keyHash hv
      simp only [portalStep, hput, Option.some.injEq] at h
      subst h
      intro row hrow
      obtain ⟨hmem, horg⟩ := mem_orgRows.mp hrow
      rcases mem_put.mp hmem with ⟨hold, -⟩ | rfl
      · exact hs row (mem_orgRows.mpr ⟨hold, horg⟩)
      · have hsession : session.tenantId = org := horg
        exact withinGrants_portalRow (by rw [hsession]; exact ha hsession hv)
          (by rw [hsession]; exact hs)
    · obtain ⟨e, he⟩ := postApiKeys_of_invalid s.tenants keyHash hv
      simp only [portalStep, he, Option.some.injEq] at h
      subst h
      exact hs
  | delete session keyHash =>
    simp only [portalStep] at h
    split at h
    · rename_i tenants hd
      obtain rfl := Option.some.inj h
      obtain ⟨-, rfl⟩ := deleteApiKeys_eq_ok hd
      intro row hrow
      obtain ⟨hmem, horg⟩ := mem_orgRows.mp hrow
      exact hs row (mem_orgRows.mpr ⟨(Table.mem_delete.mp hmem).1, horg⟩)
    · obtain rfl := Option.some.inj h
      exact hs
  | wait ms =>
    obtain rfl := Option.some.inj h
    exact hs

/-- A creation that keeps within restricted grants found a key to inherit from. -/
theorem createsFromKeys_of_noEscalation {org : String} {granted : List TenantRow}
    {s t : Registry} {a : PortalAction}
    (hgrant : ¬∃ g ∈ granted, unrestricted g.allowedFunctions)
    (h : portalStep s a = some t) (ht : NoEscalation org granted t) :
    CreatesFromKeys org s a := by
  cases a with
  | create session parsed keyHash =>
    intro hsession hv hnil
    obtain ⟨data, rfl, hexp, hput⟩ := postApiKeys_of_valid s.tenants keyHash hv
    simp only [portalStep, hput, Option.some.injEq] at h
    subst h
    have hrow : portalRow s.tenants session data keyHash s.now ∈
        orgRows (s.tenants.upsert (portalRow s.tenants session data keyHash s.now)
          (fun old new => { new with keyHash := old.keyHash }) fun _ => rfl) org :=
      mem_orgRows.mpr ⟨mem_put.mpr (Or.inr rfl), hsession⟩
    have husable : usable s.now (portalRow s.tenants session data keyHash s.now) := by
      cases he : data.expiresAt with
      | none => simp [usable, portalRow, isTenantKeyExpired, rowToTenant, he]
      | some e =>
        have := hexp e he
        simp [usable, portalRow, isTenantKeyExpired, rowToTenant, he, this]
    have hwithin := ht _ hrow (List.mem_cons_self ..) husable
    exact hgrant (hwithin.2 (unrestricted_portalRow (by rw [hsession]; exact hnil)))
  | delete session keyHash => trivial
  | wait ms => trivial

/-- Nothing exceeds an unrestricted grant. -/
theorem withinGrants_of_unrestricted {granted : List TenantRow}
    (h : ∃ g ∈ granted, unrestricted g.allowedFunctions) (row : TenantRow) :
    WithinGrants granted row := by
  obtain ⟨g, hg, hu⟩ := h
  refine ⟨fun fnKey _ => ?_, fun _ => ⟨g, hg, hu⟩⟩
  exact Set.mem_iUnion₂.mpr ⟨g, hg, mem_authority.mpr (Or.inl hu)⟩

/-- From any keys the operator granted, the keys an organisation makes in the portal
stay within the grants in every state of a run exactly when one of the grants was
unrestricted to begin with or every creation finds a key to inherit from. -/
theorem portal_keys_within_grants_iff (org : String) (s : Registry) (as : List PortalAction)
    (hs : s.portalMade = []) :
    Throughout portalStep (NoEscalation org (orgRows s.tenants org)) s as ↔
      (∃ g ∈ orgRows s.tenants org, unrestricted g.allowedFunctions) ∨
        Guarded portalStep (CreatesFromKeys org) s as := by
  by_cases hgrant : ∃ g ∈ orgRows s.tenants org, unrestricted g.allowedFunctions
  · have hall : ∀ t, NoEscalation org (orgRows s.tenants org) t :=
      fun t row _ _ _ => withinGrants_of_unrestricted hgrant row
    exact iff_of_true (throughout_of_step (fun _ _ t _ _ => hall t) (hall s) as) (Or.inl hgrant)
  · have hstart : NoEscalation org (orgRows s.tenants org) s := by
      intro row _ hmade
      rw [hs] at hmade
      cases hmade
    have hgranted : ∀ row ∈ orgRows s.tenants org, WithinGrants (orgRows s.tenants org) row :=
      fun row hrow => ⟨Set.subset_iUnion₂_of_subset row hrow subset_rfl, fun hu => ⟨row, hrow, hu⟩⟩
    have hrun : Along portalStep (fun _ _ t => NoEscalation org (orgRows s.tenants org) t) s as ↔
        Guarded portalStep (CreatesFromKeys org) s as := by
      refine along_iff_guarded
        (I := fun t => ∀ row ∈ orgRows t.tenants org, WithinGrants (orgRows s.tenants org) row)
        ?_ ?_ hgranted
      · intro u a t hu ht
        refine ⟨createsFromKeys_of_noEscalation hgrant ht, fun ha row hrow _ _ => ?_⟩
        exact withinGrants_step hu ha ht row hrow
      · exact fun u a t hu ha ht => withinGrants_step hu ha ht
    rw [or_iff_right hgrant, ← hrun]
    exact and_iff_right hstart

/-- One restricted key, granted by the operator. -/
def oneRestrictedKey : Registry where
  tenants := ⟨[⟨"k1", "acme", some "Acme", false, some 10, none, some ["RECEIPT_PARSING"], none,
    0⟩], by decide⟩
  now := 1000
  portalMade := []

def acmeOwner : TenantSession := ⟨"acme", .owner⟩

/-- A key made while the restricted one exists, before the restricted one goes. -/
theorem portal_keys_within_grants_create_first :
    Throughout portalStep (NoEscalation "acme" (orgRows oneRestrictedKey.tenants "acme"))
      oneRestrictedKey [.create acmeOwner (.ok ⟨some "ci", none⟩) "k2", .delete acmeOwner "k1"] :=
  (portal_keys_within_grants_iff "acme" oneRestrictedKey _ rfl).mpr (Or.inr (by decide))

/-- The owner deletes the restricted key and then creates one without any restriction. -/
theorem delete_then_create_escalates :
    ¬Throughout portalStep (NoEscalation "acme" (orgRows oneRestrictedKey.tenants "acme"))
      oneRestrictedKey
      [.delete acmeOwner "k1", .create acmeOwner (.ok ⟨some "ci", none⟩) "k2"] := by
  intro h
  have hend : NoEscalation "acme" (orgRows oneRestrictedKey.tenants "acme")
      ⟨⟨[⟨"k2", "acme", some "ci", false, none, none, none, none, 1000⟩], by decide⟩, 1000,
        ["k2"]⟩ := h.exec rfl
  have hrow := (hend _ (mem_orgRows.mpr ⟨List.mem_singleton_self _, rfl⟩) (by decide)
    (by decide)).2 rfl
  exact absurd hrow (by decide)

end HeirsOcr.TenantKeys
