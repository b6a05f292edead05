import HeirsOcr.IsoDates
import HeirsOcr.Json

/-!
# Values of JavaScript and what a column brings back of them

A value of a program is more than JSON: a property may be there and undefined, and a date is a
value of its own. `JSON.stringify` leaves the first out and makes a text of the second, and a
column keeps the members of an object in an order of its own. Two values are the same when they
differ in nothing but the order of members and in members that are undefined.
-/
namespace HeirsOcr.JsValue
open Json IsoDates

inductive Js (N : Type*) where
  | undefined
  | null
  | bool (b : Bool)
  | number (x : N)
  | string (s : String)
  | date (time : Option Time)
  | array (items : List (Js N))
  | object (members : List (String × Js N))

variable {N : Type*}

/-- `o[key]`. -/
def member (members : List (String × Js N)) (key : String) : Js N :=
  (members.lookup key).getD .undefined

/-- `v[key]` of a value that is an object; other values have no properties of interest. -/
def Js.get : Js N → String → Js N
  | .object members, key => member members key
  | _, _ => .undefined

mutual

/-- What `JSON.stringify` makes of a value, `none` where it leaves the value out. -/
def toJson : Js N → Option (Value N)
  | .undefined => none
  | .null => some .null
  | .bool b => some (.bool b)
  | .number x => some (.number x)
  | .string s => some (.string s)
  | .date none => some .null
  | .date (some t) => some (.string (Authenticity.toISOString t.ms))
  | .array items => some (.array (itemsToJson items))
  | .object members => some (.object (membersToJson members))

def itemsToJson : List (Js N) → List (Value N)
  | [] => []
  | v :: rest => (toJson v).getD .null :: itemsToJson rest

def membersToJson : List (String × Js N) → List (String × Value N)
  | [] => []
  | (key, v) :: rest => ((toJson v).map fun w => (key, w)).toList ++ membersToJson rest

end

mutual

/-- A value that was read. -/
def ofJson : Value N → Js N
  | .null => .null
  | .bool b => .bool b
  | .number x => .number x
  | .string s => .string s
  | .array items => .array (itemsOfJson items)
  | .object members => .object (membersOfJson members)

def itemsOfJson : List (Value N) → List (Js N)
  | [] => []
  | v :: rest => ofJson v :: itemsOfJson rest

def membersOfJson : List (String × Value N) → List (String × Js N)
  | [] => []
  | (key, v) :: rest => (key, ofJson v) :: membersOfJson rest

end

/-- What a column brings back of a value. -/
def back (v : Js N) : Js N := ((toJson v).map fun w => ofJson (reread w)).getD .undefined

mutual

/-- The members that are defined, in the order of their keys. -/
def canon : Js N → Js N
  | .undefined => .undefined
  | .null => .null
  | .bool b => .bool b
  | .number x => .number x
  | .string s => .string s
  | .date time => .date time
  | .array items => .array (canonItems items)
  | .object members => .object (canonMembers members)

def canonItems : List (Js N) → List (Js N)
  | [] => []
  | v :: rest => canon v :: canonItems rest

def canonMembers : List (String × Js N) → List (String × Js N)
  | [] => []
  | (_, .undefined) :: rest => canonMembers rest
  | (key, v) :: rest => insertMember key (canon v) (canonMembers rest)

end

/-- Equal but for the order of members and for members that are undefined. -/
def Same (v w : Js N) : Prop := canon v = canon w

/-- Values without dates, and without `undefined` where JSON would put a `null`. -/
inductive Plain : Js N → Prop where
  | undefined : Plain .undefined
  | null : Plain .null
  | bool (b : Bool) : Plain (.bool b)
  | number (x : N) : Plain (.number x)
  | string (s : String) : Plain (.string s)
  | array (items : List (Js N)) (hitems : ∀ v ∈ items, Plain v)
    (hdefined : ∀ v ∈ items, v ≠ .undefined) : Plain (.array items)
  | object (members : List (String × Js N)) (hnodup : (members.map Prod.fst).Nodup)
    (hmembers : ∀ m ∈ members, Plain m.2) : Plain (.object members)

@[simp] theorem Same.refl (v : Js N) : Same v v := rfl

theorem canon_eq_undefined {v : Js N} : canon v = .undefined ↔ v = .undefined := by
  cases v with
  | undefined => simp [canon]
  | null | bool | number | string | date | array | object => simp [canon]

theorem toJson_eq_none {v : Js N} : toJson v = none ↔ v = .undefined := by
  cases v with
  | undefined => simp [toJson]
  | date time =>
    cases time with
    | none => simp [toJson]
    | some t => simp [toJson]
  | null | bool | number | string | array | object => simp [toJson]

theorem itemsToJson_eq_map (items : List (Js N)) :
    itemsToJson items = items.map fun v => (toJson v).getD .null := by
  induction items with
  | nil => rfl
  | cons v rest ih => rw [itemsToJson, ih, List.map_cons]

theorem itemsOfJson_eq_map (items : List (Value N)) : itemsOfJson items = items.map ofJson := by
  induction items with
  | nil => rfl
  | cons v rest ih => rw [itemsOfJson, ih, List.map_cons]

theorem membersOfJson_eq_map (members : List (String × Value N)) :
    membersOfJson members = members.map fun m => (m.1, ofJson m.2) := by
  induction members with
  | nil => rfl
  | cons m rest ih => rw [membersOfJson, ih, List.map_cons]

theorem canonItems_eq_map (items : List (Js N)) : canonItems items = items.map canon := by
  induction items with
  | nil => rfl
  | cons v rest ih => rw [canonItems, ih, List.map_cons]

theorem canonMembers_undefined (key : String) (rest : List (String × Js N)) :
    canonMembers ((key, .undefined) :: rest) = canonMembers rest := rfl

theorem canonMembers_cons {key : String} {v : Js N} (rest : List (String × Js N))
    (h : v ≠ .undefined) :
    canonMembers ((key, v) :: rest) = insertMember key (canon v) (canonMembers rest) := by
  cases v with
  | undefined => exact absurd rfl h
  | null | bool | number | string | date | array | object => rfl

section Lookup

variable {ν μ : Type*}

theorem mem_of_lookup {members : List (String × ν)} {key : String} {v : ν}
    (h : members.lookup key = some v) : (key, v) ∈ members := by
  obtain ⟨before, rest, rfl, -⟩ := List.lookup_eq_some_iff.mp h
  simp

theorem lookup_map (f : ν → μ) (members : List (String × ν)) (key : String) :
    (members.map fun m => (m.1, f m.2)).lookup key = (members.lookup key).map f := by
  induction members with
  | nil => rfl
  | cons m rest ih =>
    rw [List.map_cons, List.lookup_cons, List.lookup_cons, ih]
    cases key == m.1 with
    | false => rfl
    | true => rfl

/-- Objects with the same members have the same properties. -/
theorem lookup_perm {members members' : List (String × ν)}
    (hnodup : (members.map Prod.fst).Nodup) (hperm : members.Perm members') (key : String) :
    members.lookup key = members'.lookup key := by
  have hnodup' : (members'.map Prod.fst).Nodup := ((hperm.map Prod.fst).nodup_iff).mp hnodup
  cases h : members.lookup key with
  | some v => exact (lookup_of_mem hnodup' (hperm.mem_iff.mp (mem_of_lookup h))).symm
  | none =>
    cases h' : members'.lookup key with
    | none => rfl
    | some v =>
      rw [lookup_of_mem hnodup (hperm.mem_iff.mpr (mem_of_lookup h'))] at h
      cases h

end Lookup

theorem member_cons (m : String × Js N) (rest : List (String × Js N)) (key : String) :
    member (m :: rest) key = if key = m.1 then m.2 else member rest key := by
  rw [member, List.lookup_cons]
  by_cases h : key = m.1
  · rw [if_pos h, beq_iff_eq.mpr h, Option.getD_some]
  · rw [if_neg h, beq_eq_false_iff_ne.mpr h]
    rfl

theorem member_of_mem {members : List (String × Js N)} (hnodup : (members.map Prod.fst).Nodup)
    {key : String} {v : Js N} (h : (key, v) ∈ members) : member members key = v := by
  rw [member, lookup_of_mem hnodup h, Option.getD_some]

theorem sorted_canonMembers (members : List (String × Js N)) :
    Sorted (canonMembers members) := by
  induction members with
  | nil => exact List.Pairwise.nil
  | cons m rest ih =>
    obtain ⟨key, v⟩ := m
    by_cases hv : v = .undefined
    · rw [hv, canonMembers_undefined]
      exact ih
    · rw [canonMembers_cons rest hv]
      exact sorted_insertMember ih

theorem mem_of_mem_canonMembers {members : List (String × Js N)} {key : String} {x : Js N}
    (h : (key, x) ∈ canonMembers members) :
    ∃ v, (key, v) ∈ members ∧ v ≠ .undefined ∧ canon v = x := by
  induction members with
  | nil => exact absurd h List.not_mem_nil
  | cons m rest ih =>
    have hlater : (key, x) ∈ canonMembers rest →
        ∃ v, (key, v) ∈ m :: rest ∧ v ≠ .undefined ∧ canon v = x := by
      intro hmem
      obtain ⟨v, hv, hrest⟩ := ih hmem
      exact ⟨v, List.mem_cons_of_mem m hv, hrest⟩
    obtain ⟨key', v⟩ := m
    by_cases hv : v = .undefined
    · rw [hv, canonMembers_undefined] at h
      exact hlater h
    · rw [canonMembers_cons rest hv] at h
      rcases mem_insertMember h with heq | hmem
      · obtain ⟨rfl, rfl⟩ := Prod.mk.inj heq
        exact ⟨v, List.mem_cons_self, hv, rfl⟩
      · exact hlater hmem

theorem mem_canonMembers_of_mem {members : List (String × Js N)}
    (hnodup : (members.map Prod.fst).Nodup) {key : String} {v : Js N} (h : (key, v) ∈ members)
    (hv : v ≠ .undefined) : (key, canon v) ∈ canonMembers members := by
  induction members with
  | nil => exact absurd h List.not_mem_nil
  | cons m rest ih =>
    obtain ⟨hfirst, hrest⟩ := List.nodup_cons.mp hnodup
    obtain ⟨key', v'⟩ := m
    have hfresh : key' ∉ (canonMembers rest).map Prod.fst := by
      intro hmem
      obtain ⟨⟨_, x⟩, hx, rfl⟩ := List.mem_map.mp hmem
      obtain ⟨w, hw, -⟩ := mem_of_mem_canonMembers hx
      exact hfirst (List.mem_map.mpr ⟨_, hw, rfl⟩)
    by_cases hv' : v' = .undefined
    · rw [hv', canonMembers_undefined]
      rcases List.mem_cons.mp h with heq | hmem
      · obtain ⟨rfl, rfl⟩ := Prod.mk.inj heq
        exact absurd hv' hv
      · exact ih hrest hmem
    · rw [canonMembers_cons rest hv']
      refine (insertMember_perm _ hfresh).mem_iff.mpr ?_
      rcases List.mem_cons.mp h with heq | hmem
      · obtain ⟨rfl, rfl⟩ := Prod.mk.inj heq
        exact List.mem_cons_self
      · exact List.mem_cons_of_mem _ (ih hrest hmem)

theorem canonMembers_subset {members members' : List (String × Js N)}
    (hnodup : (members.map Prod.fst).Nodup) (hnodup' : (members'.map Prod.fst).Nodup)
    (h : ∀ key, Same (member members key) (member members' key)) {m : String × Js N}
    (hm : m ∈ canonMembers members) : m ∈ canonMembers members' := by
  obtain ⟨key, x⟩ := m
  obtain ⟨v, hmem, hv, rfl⟩ := mem_of_mem_canonMembers hm
  have hsame := h key
  rw [member_of_mem hnodup hmem, Same] at hsame
  have hdefined : member members' key ≠ .undefined := by
    intro hnone
    rw [hnone] at hsame
    exact hv (canon_eq_undefined.mp hsame)
  rw [hsame]
  refine mem_canonMembers_of_mem hnodup' ?_ hdefined
  rw [member] at hdefined ⊢
  cases hlookup : members'.lookup key with
  | none => exact absurd (by rw [hlookup, Option.getD_none]) hdefined
  | some w => exact mem_of_lookup hlookup

/-- Objects are the same when every property is. -/
theorem same_object {members members' : List (String × Js N)}
    (hnodup : (members.map Prod.fst).Nodup) (hnodup' : (members'.map Prod.fst).Nodup)
    (h : ∀ key, Same (member members key) (member members' key)) :
    Same (.object members) (.object members') := by
  have hsorted := sorted_canonMembers members
  have hsorted' := sorted_canonMembers members'
  have hperm : (canonMembers members).Perm (canonMembers members') := by
    refine (List.perm_ext_iff_of_nodup hsorted.nodup_keys.of_map
      hsorted'.nodup_keys.of_map).mpr fun m => ⟨?_, ?_⟩
    · exact canonMembers_subset hnodup hnodup' h
    · exact canonMembers_subset hnodup' hnodup fun key => (h key).symm
  exact congrArg Js.object (hsorted.eq_of_perm hsorted' hperm)

theorem mem_membersToJson {members : List (String × Js N)} {key : String} {w : Value N} :
    (key, w) ∈ membersToJson members ↔ ∃ v, (key, v) ∈ members ∧ toJson v = some w := by
  induction members with
  | nil => simp [membersToJson]
  | cons m rest ih =>
    obtain ⟨key', v'⟩ := m
    rw [membersToJson, List.mem_append, ih]
    simp only [Option.mem_toList, Option.map_eq_some_iff, List.mem_cons, Prod.mk.injEq]
    constructor
    · rintro (⟨w', hw', rfl, rfl⟩ | ⟨v, hv, hw⟩)
      · exact ⟨v', .inl ⟨rfl, rfl⟩, hw'⟩
      · exact ⟨v, .inr hv, hw⟩
    · rintro ⟨v, ⟨rfl, rfl⟩ | hv, hw⟩
      · exact .inl ⟨w, hw, rfl, rfl⟩
      · exact .inr ⟨v, hv, hw⟩

theorem nodup_membersToJson {members : List (String × Js N)}
    (hnodup : (members.map Prod.fst).Nodup) : ((membersToJson members).map Prod.fst).Nodup := by
  induction members with
  | nil => exact List.nodup_nil
  | cons m rest ih =>
    obtain ⟨hfirst, hrest⟩ := List.nodup_cons.mp hnodup
    obtain ⟨key, v⟩ := m
    rw [membersToJson]
    cases toJson v with
    | none => exact ih hrest
    | some w =>
      refine List.nodup_cons.mpr ⟨fun hmem => hfirst ?_, ih hrest⟩
      obtain ⟨⟨_, w'⟩, hw', rfl⟩ := List.mem_map.mp hmem
      obtain ⟨v', hv', -⟩ := mem_membersToJson.mp hw'
      exact List.mem_map.mpr ⟨_, hv', rfl⟩

theorem lookup_membersToJson {members : List (String × Js N)}
    (hnodup : (members.map Prod.fst).Nodup) (key : String) :
    (membersToJson members).lookup key = toJson (member members key) := by
  cases h : members.lookup key with
  | some v =>
    rw [member, h, Option.getD_some]
    cases hjson : toJson v with
    | some w =>
      exact lookup_of_mem (nodup_membersToJson hnodup)
        (mem_membersToJson.mpr ⟨v, mem_of_lookup h, hjson⟩)
    | none =>
      by_contra hsome
      obtain ⟨w, hw⟩ := Option.ne_none_iff_exists'.mp hsome
      obtain ⟨v', hmem, hjson'⟩ := mem_membersToJson.mp (mem_of_lookup hw)
      rw [lookup_of_mem hnodup hmem] at h
      obtain rfl := Option.some.inj h
      rw [hjson] at hjson'
      cases hjson'
  | none =>
    rw [member, h, Option.getD_none, toJson]
    by_contra hsome
    obtain ⟨w, hw⟩ := Option.ne_none_iff_exists'.mp hsome
    obtain ⟨v', hmem, -⟩ := mem_membersToJson.mp (mem_of_lookup hw)
    rw [lookup_of_mem hnodup hmem] at h
    cases h

/-- The members of an object that comes back. -/
def backMembers (members : List (String × Js N)) : List (String × Js N) :=
  membersOfJson (propertyOrder (parseMembers (normalizeMembers (membersToJson members))))

theorem back_object (members : List (String × Js N)) :
    back (.object members) = .object (backMembers members) := rfl

theorem nodup_backMembers {members : List (String × Js N)}
    (hnodup : (members.map Prod.fst).Nodup) : ((backMembers members).map Prod.fst).Nodup := by
  rw [backMembers, membersOfJson_eq_map, List.map_map]
  exact nodup_rereadMembers (nodup_membersToJson hnodup)

/-- Every property comes back as its value does. -/
theorem member_backMembers {members : List (String × Js N)}
    (hnodup : (members.map Prod.fst).Nodup) (key : String) :
    member (backMembers members) key = back (member members key) := by
  have hjson := nodup_membersToJson hnodup
  rw [member, backMembers, membersOfJson_eq_map, lookup_map,
    lookup_perm (nodup_rereadMembers hjson) (rereadMembers_perm hjson), lookup_map,
    lookup_membersToJson hnodup, back, Option.map_map]
  rfl

theorem back_array {items : List (Js N)} (hdefined : ∀ v ∈ items, v ≠ .undefined) :
    back (.array items) = .array (items.map back) := by
  have hitems : (items.map fun v => (toJson v).getD .null).map (fun w => ofJson (reread w)) =
      items.map back := by
    rw [List.map_map]
    refine List.map_congr_left fun v hv => ?_
    obtain ⟨w, hw⟩ := Option.ne_none_iff_exists'.mp (mt toJson_eq_none.mp (hdefined v hv))
    simp [back, hw]
  rw [back, toJson, Option.map_some, Option.getD_some, reread_array, ofJson, itemsOfJson_eq_map,
    itemsToJson_eq_map, List.map_map, ← hitems]
  rfl

/-- A value without dates comes back as the same value. -/
theorem same_back {v : Js N} (h : Plain v) : Same (back v) v := by
  induction h with
  | undefined | null | bool | number | string => rfl
  | array items hitems hdefined ih =>
    rw [back_array hdefined, Same, canon, canon, canonItems_eq_map, canonItems_eq_map,
      List.map_map]
    exact congrArg Js.array (List.map_congr_left ih)
  | object members hnodup hmembers ih =>
    rw [back_object]
    refine same_object (nodup_backMembers hnodup) hnodup fun key => ?_
    rw [member_backMembers hnodup]
    cases hlookup : members.lookup key with
    | none =>
      rw [member, hlookup]
      rfl
    | some v =>
      rw [member_of_mem hnodup (mem_of_lookup hlookup)]
      exact ih _ (mem_of_lookup hlookup)

end HeirsOcr.JsValue
