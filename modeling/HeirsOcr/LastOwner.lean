import HeirsOcr.Interleaving
import HeirsOcr.PortalKeys

/-!
# The last owner of an organisation

`PATCH` and `DELETE /api/users/:id` read the user, count the enabled owners when the change
would remove one, and write, as three statements between which other requests run theirs.
Roles are any type with an owner among them: the admin console runs the same handlers over
a table that is one organisation.
-/
namespace HeirsOcr.LastOwner
open Interleaving KeyedTable StepMachine

variable {Role : Type} [DecidableEq Role]

structure UserRecord (Role : Type) where
  id : String
  tenantId : String
  email : String
  name : String
  role : Role
  passwordHash : String
  disabled : Bool
  deriving DecidableEq, Repr

abbrev Users (Role : Type) := Table (UserRecord.id : UserRecord Role → String)

/-- The fields a `PATCH` may change; the password comes hashed. -/
structure UpdateUserInput (Role : Type) where
  name : Option String
  role : Option Role
  disabled : Option Bool
  passwordHash : Option String
  deriving DecidableEq, Repr

inductive Change (Role : Type) where
  | patch (input : UpdateUserInput Role)
  | delete
  deriving DecidableEq, Repr

/-- A request by its next statement: the read of the user, the count of the owners, or the write
with the count it was let through on, if it made one. -/
inductive UserCall (Role : Type) where
  | getUserById (tenantId id : String) (change : Change Role)
  | countOwners (tenantId id : String) (change : Change Role)
  | write (tenantId id : String) (change : Change Role) (counted : Option ℕ)
  deriving DecidableEq, Repr

structure UserRequest (Role : Type) where
  tenantId : String
  id : String
  change : Change Role
  deriving DecidableEq, Repr

def updatedUser (input : UpdateUserInput Role) (u : UserRecord Role) : UserRecord Role :=
  { u with
    name := input.name.getD u.name
    role := input.role.getD u.role
    disabled := input.disabled.getD u.disabled
    passwordHash := input.passwordHash.getD u.passwordHash }

omit [DecidableEq Role] in
theorem updatedUser_id (input : UpdateUserInput Role) (u : UserRecord Role) :
    (updatedUser input u).id = u.id := rfl

section Handlers

variable (owner : Role)

/-- An owner who can sign in. -/
def UserRecord.leads (u : UserRecord Role) : Bool := u.role = owner && !u.disabled

def countOwners (users : Users Role) (tenantId : String) : ℕ :=
  users.rows.countP fun u => u.tenantId = tenantId && u.leads owner

/-- Whether a handler counts the owners before it goes on. -/
def removesOwner (target : UserRecord Role) : Change Role → Bool
  | .patch input =>
    target.role = owner && (input.role.any (· ≠ owner) || input.disabled = some true)
  | .delete => target.role = owner

/-- `UPDATE … WHERE tenant_id = $1 AND id = $2`, or `DELETE` of the same row. -/
def applyChange (users : Users Role) (tenantId id : String) : Change Role → Users Role
  | .patch input =>
    users.update (fun u => u.tenantId = tenantId && u.id = id) (updatedUser input)
      (updatedUser_id input)
  | .delete => users.delete fun u => u.tenantId = tenantId && u.id = id

def resumeChange (users : Users Role) : UserCall Role → Unit → Users Role × Option (UserCall Role)
  | .getUserById tenantId id change, _ =>
    match users.find? id with
    | none => (users, none)
    | some target =>
      if target.tenantId ≠ tenantId then (users, none)
      else if removesOwner owner target change then
        (users, some (.countOwners tenantId id change))
      else (users, some (.write tenantId id change none))
  | .countOwners tenantId id change, _ =>
    let owners := countOwners owner users tenantId
    if owners ≤ 1 then (users, none)
    else (users, some (.write tenantId id change (some owners)))
  | .write tenantId id change _, _ => (applyChange users tenantId id change, none)

/-- Requests of owners, side by side; there is no other event. -/
def userChanges : System (Users Role) (UserCall Role) (UserRequest Role) Unit Empty where
  start users request := (users, some (.getUserById request.tenantId request.id request.change))
  resume := resumeChange owner
  environment users _ := users

/-- What a change makes of the row it is for. -/
def Change.applied (u : UserRecord Role) : Change Role → Option (UserRecord Role)
  | .patch input => some (updatedUser input u)
  | .delete => none

/-- The row a change is for is an enabled owner of the organisation, and no longer one after it. -/
def TakesOwner (users : Users Role) (tenantId id : String) (change : Change Role) : Prop :=
  ∃ u ∈ users, u.tenantId = tenantId ∧ u.id = id ∧ u.leads owner = true ∧
    ∀ u' ∈ change.applied u, u'.leads owner = false

instance (users : Users Role) (tenantId id : String) (change : Change Role) :
    Decidable (TakesOwner owner users tenantId id change) :=
  inferInstanceAs (Decidable (∃ u ∈ users.rows, u.tenantId = tenantId ∧ u.id = id ∧
    u.leads owner = true ∧ ∀ u' ∈ change.applied u, u'.leads owner = false))

/-- The condition of a write to the organisation: when it takes an owner away, its request has
counted the owners, and there are now no fewer than it counted. -/
def UserCall.CountHolds (users : Users Role) (org : String) : UserCall Role → Prop
  | .write tenantId id change counted =>
    tenantId = org → TakesOwner owner users tenantId id change →
      ∃ n ∈ counted, n ≤ LastOwner.countOwners owner users org
  | .getUserById _ _ _ | .countOwners _ _ _ => True

instance (users : Users Role) (org : String) :
    ∀ c : UserCall Role, Decidable (c.CountHolds owner users org)
  | .write tenantId id change counted =>
    inferInstanceAs (Decidable (tenantId = org → TakesOwner owner users tenantId id change →
      ∃ n ∈ counted, n ≤ countOwners owner users org))
  | .getUserById _ _ _ | .countOwners _ _ _ => inferInstanceAs (Decidable True)

def CountsHold (org : String) (s : State (Users Role) (UserCall Role)) :
    Action (UserRequest Role) Unit Empty → Prop
  | .advance i _ => ∀ c ∈ s.calls[i]?, c.CountHolds owner s.shared org
  | .start _ | .environment _ => True

instance (org : String) (s : State (Users Role) (UserCall Role)) :
    ∀ a, Decidable (CountsHold owner org s a)
  | .advance i _ =>
    inferInstanceAs (Decidable (∀ c ∈ s.calls[i]?, c.CountHolds owner s.shared org))
  | .start _ | .environment _ => inferInstanceAs (Decidable True)

/-- A request that counted the owners found two. -/
def UserCall.CountedTwo : UserCall Role → Prop
  | .write _ _ _ counted => ∀ n ∈ counted, 2 ≤ n
  | .getUserById _ _ _ | .countOwners _ _ _ => True

end Handlers

section Owners

variable {owner : Role} {users : Users Role} {org tenantId id : String} {change : Change Role}

theorem countOwners_pos :
    0 < countOwners owner users org ↔ ∃ u ∈ users, u.tenantId = org ∧ u.leads owner = true := by
  simp [countOwners, List.countP_pos_iff, Table.mem_def]

omit [DecidableEq Role] in
/-- A row the change is not for stays. -/
theorem mem_applyChange_of_ne {u : UserRecord Role} (hu : u ∈ users)
    (hne : ¬(u.tenantId = tenantId ∧ u.id = id)) : u ∈ applyChange users tenantId id change := by
  cases change with
  | patch input =>
    rw [applyChange, Table.mem_update]
    exact ⟨u, hu, by simp [hne]⟩
  | delete => exact Table.mem_delete.mpr ⟨hu, by simpa using hne⟩

omit [DecidableEq Role] in
/-- The row the change is for becomes what the change makes of it. -/
theorem mem_applyChange_of_applied {u u' : UserRecord Role} (hu : u ∈ users)
    (htenant : u.tenantId = tenantId) (hid : u.id = id) (hu' : u' ∈ change.applied u) :
    u' ∈ applyChange users tenantId id change := by
  cases change with
  | patch input =>
    obtain rfl := Option.some.inj hu'
    rw [applyChange, Table.mem_update]
    exact ⟨u, hu, by simp [htenant, hid]⟩
  | delete => cases hu'

/-- A change that takes no owner away, or one of two, leaves an owner. -/
theorem owner_stays (hpos : 0 < countOwners owner users org)
    (hok : tenantId = org → TakesOwner owner users org id change →
      2 ≤ countOwners owner users org) :
    0 < countOwners owner (applyChange users tenantId id change) org := by
  rw [countOwners_pos]
  by_cases htakes : tenantId = org ∧ TakesOwner owner users org id change
  · obtain ⟨u, hu, howner, hne⟩ :=
      Table.exists_ne_of_two_le_countP (hok htakes.1 htakes.2) id
    simp only [Bool.and_eq_true, decide_eq_true_eq] at howner
    exact ⟨u, mem_applyChange_of_ne hu fun h => hne h.2, howner⟩
  · obtain ⟨u, hu, htenant, hleads⟩ := countOwners_pos.mp hpos
    by_cases hrow : u.tenantId = tenantId ∧ u.id = id
    · have hstays : ∃ u' ∈ change.applied u, u'.leads owner = true := by
        by_contra hnone
        push Not at hnone
        refine htakes ⟨hrow.1.symm.trans htenant, u, hu, htenant, hrow.2, hleads, ?_⟩
        exact fun u' hu' => Bool.eq_false_iff.mpr (hnone u' hu')
      obtain ⟨u', hu', hleads'⟩ := hstays
      refine ⟨u', mem_applyChange_of_applied hu hrow.1 hrow.2 hu', ?_, hleads'⟩
      cases change with
      | patch input =>
        obtain rfl := Option.some.inj hu'
        exact htenant
      | delete => cases hu'
    · exact ⟨u, mem_applyChange_of_ne hu hrow, htenant, hleads⟩

end Owners

section Run

variable {owner : Role} {s : State (Users Role) (UserCall Role)} {org : String}
  {a : Action (UserRequest Role) Unit Empty}

theorem stepKeeps_countsHold
    (hs : Holds (fun users => 0 < countOwners owner users org) (fun _ c => c.CountedTwo) s)
    (hok : CountsHold owner org s a) :
    StepKeeps (userChanges owner) (fun users => 0 < countOwners owner users org)
      (fun _ c => c.CountedTwo) s a := by
  cases a with
  | start request =>
    refine ⟨hs.shared, fun c hc => ?_, fun _ _ h => h⟩
    obtain rfl := Option.some.inj hc
    trivial
  | environment event => exact event.elim
  | advance i answer =>
    intro c hc
    cases c with
    | getUserById tenantId id change =>
      simp only [userChanges, resumeChange]
      split
      · exact ⟨hs.shared, by simp, fun _ _ h => h⟩
      · split_ifs
        · exact ⟨hs.shared, by simp, fun _ _ h => h⟩
        · refine ⟨hs.shared, fun c' hc' => ?_, fun _ _ h => h⟩
          obtain rfl := Option.some.inj hc'
          trivial
        · refine ⟨hs.shared, fun c' hc' => ?_, fun _ _ h => h⟩
          obtain rfl := Option.some.inj hc'
          simp [UserCall.CountedTwo]
    | countOwners tenantId id change =>
      simp only [userChanges, resumeChange]
      split_ifs with hfew
      · exact ⟨hs.shared, by simp, fun _ _ h => h⟩
      · refine ⟨hs.shared, fun c' hc' => ?_, fun _ _ h => h⟩
        obtain rfl := Option.some.inj hc'
        intro n hn
        obtain rfl := Option.some.inj hn
        omega
    | write tenantId id change counted =>
      refine ⟨owner_stays hs.shared fun htenant htakes => ?_, by simp [userChanges, resumeChange],
        fun _ _ h => h⟩
      have hcount : ∃ n ∈ counted, n ≤ countOwners owner s.shared org :=
        hok _ hc htenant (htenant ▸ htakes)
      obtain ⟨n, hn, hle⟩ := hcount
      have htwo : 2 ≤ n := hs.calls _ (List.mem_of_getElem? hc) n hn
      omega

/-- Over all interleavings of the statements of changes to users of any organisations: while a
write that takes an owner away finds no fewer owners than its request counted, an organisation
with an enabled owner keeps one. -/
theorem owner_remains (users : Users Role) (howner : 0 < countOwners owner users org)
    (as : List (Action (UserRequest Role) Unit Empty))
    (hok : Guarded (userChanges owner).step (CountsHold owner org) ⟨users, []⟩ as) :
    Throughout (userChanges owner).step (fun s => 0 < countOwners owner s.shared org)
      ⟨users, []⟩ as := by
  have hstart : Holds (fun users => 0 < countOwners owner users org)
      (fun _ c => UserCall.CountedTwo c) (⟨users, []⟩ : State (Users Role) (UserCall Role)) :=
    ⟨howner, by simp⟩
  have hrun := throughout_holds (fun _ _ hs ha => stepKeeps_countsHold hs ha) hstart hok
  exact hrun.mono fun s hs => hs.shared

end Run

section Examples

private def ada : UserRecord TenantKeys.TenantRole :=
  ⟨"a", "o", "a@o", "Ada", .owner, "h", false⟩

private def ben : UserRecord TenantKeys.TenantRole :=
  ⟨"b", "o", "b@o", "Ben", .owner, "h", false⟩

private def pair : Users TenantKeys.TenantRole := ⟨[ada, ben], by decide⟩

private def demotion : Change TenantKeys.TenantRole := .patch ⟨none, some .member, none, none⟩

/-- The demotion of one of two owners, and then that of the other, which is refused. -/
theorem owner_remains_pair :
    Throughout (userChanges TenantKeys.TenantRole.owner).step
      (fun s => 0 < countOwners TenantKeys.TenantRole.owner s.shared "o") ⟨pair, []⟩
      [.start ⟨"o", "a", demotion⟩, .advance 0 (), .advance 0 (), .advance 0 (),
        .start ⟨"o", "b", demotion⟩, .advance 0 (), .advance 0 ()] :=
  owner_remains pair (by decide +kernel) _ (by decide +kernel)

/-- Two owners remove each other, one by a demotion and one by a deletion: both requests count
two, and both write. -/
theorem no_owner_remains :
    ¬ ∀ (users : Users TenantKeys.TenantRole)
      (as : List (Action (UserRequest TenantKeys.TenantRole) Unit Empty)),
      0 < countOwners TenantKeys.TenantRole.owner users "o" →
      Throughout (userChanges TenantKeys.TenantRole.owner).step
        (fun s => 0 < countOwners TenantKeys.TenantRole.owner s.shared "o") ⟨users, []⟩ as := by
  intro hall
  have hrun := hall pair
    [.start ⟨"o", "a", demotion⟩, .start ⟨"o", "b", .delete⟩, .advance 0 (), .advance 0 (),
      .advance 0 (), .advance 0 (), .advance 0 (), .advance 0 ()] (by decide +kernel)
  revert hrun
  decide +kernel

end Examples

end HeirsOcr.LastOwner
