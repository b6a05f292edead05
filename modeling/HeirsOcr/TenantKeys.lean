import HeirsOcr.Errors
import HeirsOcr.KeyedTable
import HeirsOcr.StepMachine

/-!
# The tenant registry and self-service keys

The `tenants` table has one row per API key, under the key's sha256. An operator
grants keys with whatever scope they choose; the owner of an organisation creates and
deletes keys in the portal, where a new key inherits the union of the scopes the
organisation's keys have at that moment. The authority of a key is the set of
functions it may call, and inheriting is a union of authorities as long as there is
something to inherit from. Times are milliseconds.
-/
namespace HeirsOcr.TenantKeys
open KeyedTable StepMachine

structure Tenant where
  tenantId : String
  name : Option String
  disabled : Option Bool
  rateLimit : Option ℤ
  allowedOrigins : Option (List String)
  allowedFunctions : Option (List String)
  expiresAt : Option ℤ
  createdAt : Option ℤ
  deriving DecidableEq, Repr

/-- A row of `tenants`. -/
structure TenantRow where
  keyHash : String
  tenantId : String
  name : Option String
  disabled : Bool
  rateLimit : Option ℤ
  allowedOrigins : Option (List String)
  allowedFunctions : Option (List String)
  expiresAt : Option ℤ
  createdAt : ℤ
  deriving DecidableEq, Repr

abbrev TenantTable := Table TenantRow.keyHash

def rowToTenant (row : TenantRow) : Tenant where
  tenantId := row.tenantId
  name := row.name
  disabled := some row.disabled
  rateLimit := row.rateLimit
  allowedOrigins := row.allowedOrigins
  allowedFunctions := row.allowedFunctions
  expiresAt := row.expiresAt
  createdAt := some row.createdAt

def isTenantKeyExpired (tenant : Tenant) (now : ℤ) : Bool :=
  match tenant.expiresAt with
  | some expiresAt => expiresAt ≤ now
  | none => false

/-- The row `putTenant` inserts, column defaults included. -/
def tenantToRow (keyHash : String) (tenant : Tenant) (dbNow : ℤ) : TenantRow where
  keyHash := keyHash
  tenantId := tenant.tenantId
  name := tenant.name
  disabled := tenant.disabled.getD false
  rateLimit := tenant.rateLimit
  allowedOrigins := tenant.allowedOrigins
  allowedFunctions := tenant.allowedFunctions
  expiresAt := tenant.expiresAt
  createdAt := tenant.createdAt.getD dbNow

def putTenant (tenants : TenantTable) (keyHash : String) (tenant : Tenant) (dbNow : ℤ) :
    TenantTable :=
  tenants.upsert (tenantToRow keyHash tenant dbNow)
    (fun old new => { new with keyHash := old.keyHash }) fun _ => rfl

/-- The fields an operator may change; an absent one keeps its column. -/
structure TenantPatch where
  name : Option String
  rateLimit : Option ℤ
  allowedFunctions : Option (List String)
  allowedOrigins : Option (List String)
  disabled : Option Bool
  deriving DecidableEq, Repr

/-- The `SET` clause of the update, each column a `COALESCE`. -/
def patched (patch : TenantPatch) (row : TenantRow) : TenantRow :=
  { row with
    name := patch.name <|> row.name
    rateLimit := patch.rateLimit <|> row.rateLimit
    allowedFunctions := patch.allowedFunctions <|> row.allowedFunctions
    allowedOrigins := patch.allowedOrigins <|> row.allowedOrigins
    disabled := patch.disabled.getD row.disabled }

@[simp] theorem patched_keyHash (patch : TenantPatch) (row : TenantRow) :
    (patched patch row).keyHash = row.keyHash := rfl

def updateTenantByHash (tenants : TenantTable) (keyHash : String) (patch : TenantPatch) :
    TenantTable :=
  tenants.update (fun row => row.keyHash = keyHash) (patched patch) (patched_keyHash patch)

def revokeByHash (tenants : TenantTable) (keyHash : String) : TenantTable :=
  tenants.delete fun row => row.keyHash = keyHash

def getTenantByHash (tenants : TenantTable) (keyHash : String) : Option Tenant :=
  (tenants.find? keyHash).map rowToTenant

/-- The rows of one organisation, oldest first. -/
def orgRows (tenants : TenantTable) (tenantId : String) : List TenantRow :=
  (tenants.rows.filter fun row => row.tenantId = tenantId).insertionSort
    fun a b => a.createdAt ≤ b.createdAt

def listKeysForTenant (tenants : TenantTable) (tenantId : String) : List (String × Tenant) :=
  (orgRows tenants tenantId).map fun row => (row.keyHash, rowToTenant row)

@[simp] theorem mem_orgRows {tenants : TenantTable} {tenantId : String} {row : TenantRow} :
    row ∈ orgRows tenants tenantId ↔ row ∈ tenants ∧ row.tenantId = tenantId := by
  simp [orgRows, Table.mem_def]

/-- `!allowed || allowed.length === 0`. -/
def unrestricted (allowed : Option (List String)) : Bool := allowed.all List.isEmpty

def authorizeFunction (allowed : Option (List String)) (fnKey : String) :
    Except OcrError Unit :=
  if unrestricted allowed then .ok ()
  else if fnKey ∉ allowed.getD [] then
    .error (.of .FORBIDDEN s!"This API key is not authorized for '{fnKey}'")
  else .ok ()

/-- The functions a key of this scope may call. -/
def authority (allowed : Option (List String)) : Set String :=
  {fnKey | authorizeFunction allowed fnKey = .ok ()}

theorem mem_authority {allowed : Option (List String)} {fnKey : String} :
    fnKey ∈ authority allowed ↔ unrestricted allowed ∨ fnKey ∈ allowed.getD [] := by
  simp only [authority, authorizeFunction, Set.mem_ofPred_eq]
  by_cases hu : unrestricted allowed <;> by_cases hm : fnKey ∈ allowed.getD [] <;> simp [hu, hm]

structure KeyScope where
  allowedFunctions : Option (List String)
  rateLimit : Option ℤ
  deriving DecidableEq, Repr

/-- The scope a portal key is created with: the union of the existing ones. -/
def inheritedScope (keys : List Tenant) : KeyScope :=
  if keys.isEmpty then ⟨none, none⟩
  else
    { allowedFunctions :=
        if keys.any fun k => unrestricted k.allowedFunctions then none
        else some (keys.flatMap fun k => k.allowedFunctions.getD []).eraseDups
      rateLimit :=
        if keys.any fun k => k.rateLimit.isNone then none
        else (keys.filterMap Tenant.rateLimit).max? }

/-- An inherited scope is unrestricted only if some existing one is. -/
theorem unrestricted_inheritedScope {keys : List Tenant} (hne : keys ≠ []) :
    unrestricted (inheritedScope keys).allowedFunctions ↔
      ∃ k ∈ keys, unrestricted k.allowedFunctions := by
  rw [inheritedScope, if_neg (by simpa using hne)]
  by_cases h : keys.any fun k => unrestricted k.allowedFunctions
  · rw [if_pos h]
    exact iff_of_true rfl (List.any_eq_true.mp h)
  · have hno : ∀ k ∈ keys, ¬ unrestricted k.allowedFunctions := by simpa using h
    have hfalse : ¬∃ k ∈ keys, unrestricted k.allowedFunctions :=
      fun ⟨k, hk, hu⟩ => hno k hk hu
    simp only [h, hfalse, iff_false]
    obtain ⟨k, hk⟩ := List.exists_mem_of_ne_nil keys hne
    obtain ⟨fs, hfs⟩ : ∃ fs, k.allowedFunctions = some fs := by
      cases hkf : k.allowedFunctions with
      | none => exact absurd (by simp [hkf, unrestricted]) (hno k hk)
      | some fs => exact ⟨fs, rfl⟩
    obtain ⟨f, hf⟩ : ∃ f, f ∈ fs := by
      refine List.exists_mem_of_ne_nil fs fun hnil => hno k hk ?_
      simp [hfs, hnil, unrestricted]
    have hmem : f ∈ (keys.flatMap fun k => k.allowedFunctions.getD []).eraseDups := by
      rw [List.mem_eraseDups, List.mem_flatMap]
      exact ⟨k, hk, by simpa [hfs] using hf⟩
    intro hempty
    have hnil : (keys.flatMap fun k => k.allowedFunctions.getD []).eraseDups = [] := by
      simpa [unrestricted] using hempty
    rw [hnil] at hmem
    cases hmem

/-- Inheriting from existing keys is the union of their authorities. -/
theorem authority_inheritedScope {keys : List Tenant} (hne : keys ≠ []) :
    authority (inheritedScope keys).allowedFunctions =
      ⋃ k ∈ keys, authority k.allowedFunctions := by
  ext fnKey
  simp only [mem_authority, Set.mem_iUnion, exists_prop, unrestricted_inheritedScope hne]
  constructor
  · rintro (⟨k, hk, hu⟩ | hm)
    · exact ⟨k, hk, Or.inl hu⟩
    · rw [inheritedScope, if_neg (by simpa using hne)] at hm
      by_cases h : keys.any fun k => unrestricted k.allowedFunctions
      · simp [h] at hm
      · simp only [h, Bool.false_eq_true, if_false, Option.getD_some, List.mem_eraseDups,
          List.mem_flatMap] at hm
        obtain ⟨k, hk, hf⟩ := hm
        exact ⟨k, hk, Or.inr hf⟩
  · rintro ⟨k, hk, hu | hf⟩
    · exact Or.inl ⟨k, hk, hu⟩
    · by_cases h : keys.any fun k => unrestricted k.allowedFunctions
      · exact Or.inl (List.any_eq_true.mp h)
      · right
        rw [inheritedScope, if_neg (by simpa using hne)]
        simp only [h, Bool.false_eq_true, if_false, Option.getD_some, List.mem_eraseDups,
          List.mem_flatMap]
        exact ⟨k, hk, hf⟩

end HeirsOcr.TenantKeys
