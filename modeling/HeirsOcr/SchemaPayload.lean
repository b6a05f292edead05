import HeirsOcr.SchemaControls
import HeirsOcr.SchemaDefaults

/-!
# Payloads without errors

A form that reports no errors need not build valid arguments. It does so exactly when what is typed
meets the constraints that the controls do not check, at the top and in the groups that are filled
in, and no required group is left out.
-/
namespace HeirsOcr.SchemaArgs
open Doubles JsText Json

section Conditions

variable (blank : ArgValues) (toLowerCase : List Char → List Char)

/-- Something is typed, chosen or switched in a field. -/
def FieldFilled (current : String → Raw) (m : String × SchemaProp) : Prop :=
  ∃ control, fieldControl m.2 = some control ∧ Filled control (current m.1)

/-- What a field with something in it leaves unchecked. -/
def FieldMet (current : String → Raw) (m : String × SchemaProp) : Prop :=
  ∀ control, fieldControl m.2 = some control → Filled control (current m.1) →
    LineMet toLowerCase control m.2 (current m.1)

/-- Something in a group is filled in. -/
def GroupFilled (children : List (String × SchemaProp)) (current : String → Raw) : Prop :=
  ∃ c ∈ children, c.1 ≠ "__proto__" ∧ FieldFilled current c

/-- What a group that is filled in leaves unchecked. -/
structure GroupMet (children : List (String × SchemaProp)) (required : List String)
    (current : String → Raw) : Prop where
  fields : ∀ c ∈ children, c.1 ≠ "__proto__" → FieldMet toLowerCase current c
  required : ∀ key ∈ required, HasDefault (some children) key ∨
    key ≠ "__proto__" ∧ key ∈ children.map Prod.fst

/-- Something in a property is filled in. -/
def PropertyFilled (state : ArgValues) (m : String × SchemaProp) : Prop :=
  match groupProperties m.2 with
  | some children => GroupFilled children (groupState blank (state m.1))
  | none => FieldFilled (fun key => (state key).raw) m

def PropertyMet (state : ArgValues) (m : String × SchemaProp) : Prop :=
  match groupProperties m.2 with
  | some children => GroupMet toLowerCase children m.2.required (groupState blank (state m.1))
  | none => FieldMet toLowerCase (fun key => (state key).raw) m

/-- What a form leaves unchecked. -/
structure FormMet (schema : ObjectSchema) (state : ArgValues) : Prop where
  properties : ∀ m ∈ schema.properties.getD [], m.1 ≠ "__proto__" →
    PropertyFilled blank state m → PropertyMet blank toLowerCase state m
  required : ∀ key ∈ schema.required, HasDefault schema.properties key ∨
    key ≠ "__proto__" ∧ ∃ m ∈ schema.properties.getD [], m.1 = key ∧
      ((groupProperties m.2).isSome → PropertyFilled blank state m)

end Conditions

/-- The properties of an object have a key each. -/
structure Keyed (properties : List (String × SchemaProp)) : Prop where
  top : (properties.map Prod.fst).Nodup
  group : ∀ m ∈ properties, ∀ children, groupProperties m.2 = some children →
    (children.map Prod.fst).Nodup

section Payload

variable {blank : ArgValues} {toLowerCase : List Char → List Char} {p : SchemaProp}
  {children : List (String × SchemaProp)}

theorem groupProperties_eq_some (h : groupProperties p = some children) : p.enum = none ∧
    propType p = some "object" ∧ p.properties = some children ∧ fieldControl p = none ∧
      ∀ c ∈ children, (fieldControl c.2).isSome := by
  rw [groupProperties] at h
  split_ifs at h with hobject
  obtain ⟨henum, htype⟩ := hobject
  have henum := Option.isNone_iff_eq_none.mp henum
  obtain ⟨hproperties, hdrawn⟩ := Option.filter_eq_some_iff.mp h
  refine ⟨henum, htype, hproperties, ?_, ?_⟩
  · simp [fieldControl, henum, htype, hproperties]
  · rw [Bool.and_eq_true, List.all_eq_true] at hdrawn
    exact hdrawn.2

/-- A property adds a member when it is filled in, and the member is valid when its conditions are
met. -/
structure Adds (m : String × SchemaProp) (filled met : Prop) (args : List (String × JsonValue)) :
    Prop where
  key : ∀ a ∈ args, a.1 = m.1
  some : args ≠ [] ↔ m.1 ≠ "__proto__" ∧ filled
  valid : (∀ a ∈ args, Valid m.2 a.2) ↔ (m.1 ≠ "__proto__" → filled → met)

/-- An object is valid when its members are and none that is required is missing. -/
theorem valid_parts_iff {parts : String × SchemaProp → List (String × JsonValue)}
    {filled met : String × SchemaProp → Prop} (henum : p.enum = none)
    (htype : propType p = some "object") (hproperties : p.properties = some children)
    (hnodup : (children.map Prod.fst).Nodup)
    (hparts : ∀ m ∈ children, Adds m (filled m) (met m) (parts m)) :
    Valid p (.object (children.flatMap parts)) ↔
      (∀ key ∈ p.required, HasDefault (some children) key ∨
        ∃ m ∈ children, m.1 = key ∧ m.1 ≠ "__proto__" ∧ filled m) ∧
      ∀ m ∈ children, m.1 ≠ "__proto__" → filled m → met m := by
  have hkeys : ∀ key, key ∈ (children.flatMap parts).map Prod.fst ↔
      ∃ m ∈ children, m.1 = key ∧ m.1 ≠ "__proto__" ∧ filled m := by
    intro key
    simp only [List.mem_map, List.mem_flatMap]
    constructor
    · rintro ⟨a, ⟨m, hm, ha⟩, rfl⟩
      exact ⟨m, hm, ((hparts m hm).key a ha).symm, (hparts m hm).some.mp (List.ne_nil_of_mem ha)⟩
    · rintro ⟨m, hm, rfl, hfilled⟩
      obtain ⟨a, ha⟩ := List.exists_mem_of_ne_nil _ ((hparts m hm).some.mpr hfilled)
      exact ⟨a, ⟨m, hm, ha⟩, (hparts m hm).key a ha⟩
  have hmembers : (∀ a ∈ children.flatMap parts, ∀ q ∈ p.memberSchema a.1, Valid q a.2) ↔
      ∀ m ∈ children, m.1 ≠ "__proto__" → filled m → met m := by
    have hschema : ∀ m ∈ children, ∀ a ∈ parts m, p.memberSchema a.1 = some m.2 := by
      intro m hm a ha
      rw [SchemaProp.memberSchema, hproperties, Option.bind_some, (hparts m hm).key a ha,
        lookup_of_mem hnodup hm, Option.some_or]
    constructor
    · intro h m hm
      refine (hparts m hm).valid.mp fun a ha => ?_
      exact h a (List.mem_flatMap.mpr ⟨m, hm, ha⟩) m.2 (hschema m hm a ha)
    · intro h a ha q hq
      obtain ⟨m, hm, ha⟩ := List.mem_flatMap.mp ha
      obtain rfl := Option.some_inj.mp ((hschema m hm a ha).symm.trans hq)
      exact (hparts m hm).valid.mpr (h m hm) a ha
  rw [valid_object_iff, meets_object_iff henum htype, hmembers]
  simp only [hkeys, hproperties, or_comm]

/-- A property that has no default. -/
theorem default_eq_none (hnodup : (children.map Prod.fst).Nodup) {m : String × SchemaProp}
    (hm : m ∈ children) (h : ¬HasDefault (some children) m.1) : m.2.default = none := by
  cases hdefault : m.2.default with
  | none => rfl
  | some d => exact absurd ⟨m.2, lookup_of_mem hnodup hm, by simp [hdefault]⟩ h

theorem assigned_nil_iff {ν : Type*} {key : String} {value : ν} :
    assigned key value = [] ↔ key = "__proto__" := by
  rw [assigned]
  split_ifs with hkey
  · simp [hkey]
  · simp [hkey]

theorem pathTo_ne_proto {before key : String} (h : key ≠ "__proto__") :
    pathTo before key ≠ "__proto__" := by
  rw [pathTo]
  split_ifs
  · exact h
  · intro heq
    have hdot : '.' ∈ (before ++ "." ++ key).toList := by simp
    rw [heq] at hdot
    exact absurd hdot (by decide)

section Field

variable {required : List String} {path key : String} {control : Control} {raw : Raw}

theorem buildField_key :
    ∀ a ∈ (buildField toLowerCase required path key control p raw).args, a.1 = key := by
  rw [buildField]
  split
  · simp
  · simp
  · exact assigned_key

/-- A field without an error. -/
theorem adds_field {m : String × SchemaProp} (hcontrol : fieldControl m.2 = some control)
    (hpath : m.1 ≠ "__proto__" → path ≠ "__proto__")
    (herrors : (buildField toLowerCase required path m.1 control m.2 raw).errors = []) :
    Adds m (Filled control raw) (LineMet toLowerCase control m.2 raw)
        (buildField toLowerCase required path m.1 control m.2 raw).args ∧
      (m.1 ≠ "__proto__" → m.1 ∈ required → m.2.default = none → Filled control raw) := by
  have hdrawn := fieldControl_drawnAs hcontrol
  by_cases hkey : m.1 = "__proto__"
  · have hargs : (buildField toLowerCase required path m.1 control m.2 raw).args = [] := by
      rw [buildField]
      split
      · rfl
      · rfl
      · exact assigned_nil_iff.mpr hkey
    refine ⟨⟨buildField_key, ?_, ?_⟩, fun hne => absurd hkey hne⟩
    · exact iff_of_false (fun h => h hargs) fun h => h.1 hkey
    · rw [hargs]
      exact iff_of_true (by simp) fun hne => absurd hkey hne
  have hpath := hpath hkey
  have herror : ∀ message, parse toLowerCase control m.2 raw ≠ .error message := by
    intro message hparse
    rw [buildField, hparse] at herrors
    exact hpath (assigned_nil_iff.mp herrors)
  rw [← filled_iff hdrawn herror]
  cases hparse : parse toLowerCase control m.2 raw with
  | error message => exact absurd hparse (herror message)
  | omitted =>
    have hargs : (buildField toLowerCase required path m.1 control m.2 raw).args = [] := by
      rw [buildField, hparse]
    refine ⟨⟨buildField_key, by simp [hargs], by simp [hargs]⟩, fun _ hrequired hdefault => ?_⟩
    rw [buildField, hparse] at herrors
    dsimp only at herrors
    rw [if_pos ⟨hrequired, Option.isNone_iff_eq_none.mpr hdefault⟩] at herrors
    exact absurd (assigned_nil_iff.mp herrors) hpath
  | value v =>
    have hargs : (buildField toLowerCase required path m.1 control m.2 raw).args = [(m.1, v)] := by
      rw [buildField, hparse]
      exact if_neg hkey
    refine ⟨⟨buildField_key, by simp [hargs, hkey], ?_⟩, fun _ _ _ => by simp⟩
    rw [hargs, List.forall_mem_singleton, valid_value_iff hdrawn hparse]
    exact ⟨fun h _ _ => h, fun h => h hkey (by simp)⟩

end Field

section Group

variable {required : List String} {path : String} {current : String → Raw}

theorem errors_eq_nil {parts : List Built} (h : (Built.all parts).errors = []) :
    ∀ built ∈ parts, built.errors = [] := List.flatMap_eq_nil_iff.mp h

/-- What a field adds, with the control that it is drawn as. -/
theorem adds_field' {m : String × SchemaProp} {control : Control} {args : List (String × JsonValue)}
    (hcontrol : fieldControl m.2 = some control)
    (h : Adds m (Filled control (current m.1)) (LineMet toLowerCase control m.2 (current m.1))
      args) :
    Adds m (FieldFilled current m) (FieldMet toLowerCase current m) args := by
  have hfilled : FieldFilled current m ↔ Filled control (current m.1) := by
    simp [FieldFilled, hcontrol]
  have hmet : FieldMet toLowerCase current m ↔ (Filled control (current m.1) →
      LineMet toLowerCase control m.2 (current m.1)) := by
    simp [FieldMet, hcontrol]
  rw [hfilled, hmet]
  refine ⟨h.key, h.some, h.valid.trans ?_⟩
  exact ⟨fun hall hne hfull _ => hall hne hfull, fun hall hne hfull => hall hne hfull hfull⟩

theorem adds_child {c : String × SchemaProp} (hdrawn : (fieldControl c.2).isSome)
    (herrors : (buildChild toLowerCase required path current c).errors = []) :
    Adds c (FieldFilled current c) (FieldMet toLowerCase current c)
        (buildChild toLowerCase required path current c).args ∧
      (c.1 ≠ "__proto__" → c.1 ∈ required → c.2.default = none → FieldFilled current c) := by
  obtain ⟨control, hcontrol⟩ := Option.isSome_iff_exists.mp hdrawn
  rw [buildChild, hcontrol] at herrors ⊢
  obtain ⟨hadds, hneeded⟩ := adds_field hcontrol pathTo_ne_proto herrors
  exact ⟨adds_field' hcontrol hadds, fun hne hrequired hdefault =>
    ⟨control, hcontrol, hneeded hne hrequired hdefault⟩⟩

/-- A group without errors is valid when what it leaves unchecked holds. -/
theorem valid_group_iff (hgroup : groupProperties p = some children)
    (hnodup : (children.map Prod.fst).Nodup)
    (herrors : (buildGroup toLowerCase p.required path children current).errors = []) :
    Valid p (.object (buildGroup toLowerCase p.required path children current).args) ↔
      GroupMet toLowerCase children p.required current := by
  obtain ⟨henum, htype, hproperties, -, hdrawn⟩ := groupProperties_eq_some hgroup
  have hadds : ∀ c ∈ children, _ := fun c hc => adds_child (hdrawn c hc)
    (errors_eq_nil herrors _ (List.mem_map.mpr ⟨c, hc, rfl⟩))
  rw [buildGroup, Built.all, List.flatMap_map, valid_parts_iff henum htype hproperties hnodup
    fun c hc => (hadds c hc).1]
  constructor
  · rintro ⟨hrequired, hfields⟩
    refine ⟨fun c hc hne control hcontrol hfilled =>
      hfields c hc hne ⟨control, hcontrol, hfilled⟩ control hcontrol hfilled, fun key hkey => ?_⟩
    refine (hrequired key hkey).imp_right ?_
    rintro ⟨c, hc, rfl, hne, -⟩
    exact ⟨hne, List.mem_map.mpr ⟨c, hc, rfl⟩⟩
  · rintro ⟨hfields, hrequired⟩
    refine ⟨fun key hkey => ?_, fun c hc hne _ => hfields c hc hne⟩
    by_cases hdefault : HasDefault (some children) key
    · exact .inl hdefault
    obtain ⟨hne, hmem⟩ := (hrequired key hkey).resolve_left hdefault
    obtain ⟨c, hc, rfl⟩ := List.mem_map.mp hmem
    exact .inr ⟨c, hc, rfl, hne, (hadds c hc).2 hne hkey (default_eq_none hnodup hc hdefault)⟩

/-- A group is left out when nothing in it is filled in. -/
theorem group_ne_nil_iff (hgroup : groupProperties p = some children)
    (herrors : (buildGroup toLowerCase p.required path children current).errors = []) :
    (buildGroup toLowerCase p.required path children current).args ≠ [] ↔
      GroupFilled children current := by
  obtain ⟨-, -, -, -, hdrawn⟩ := groupProperties_eq_some hgroup
  have hsome : ∀ c ∈ children, (buildChild toLowerCase p.required path current c).args ≠ [] ↔
      c.1 ≠ "__proto__" ∧ FieldFilled current c :=
    fun c hc => (adds_child (hdrawn c hc)
      (errors_eq_nil herrors _ (List.mem_map.mpr ⟨c, hc, rfl⟩))).1.some
  rw [buildGroup, Built.all, List.flatMap_map, Ne, List.flatMap_eq_nil_iff]
  constructor
  · intro h
    push Not at h
    obtain ⟨c, hc, hne⟩ := h
    exact ⟨c, hc, (hsome c hc).mp hne⟩
  · rintro ⟨c, hc, hfilled⟩ h
    exact (hsome c hc).mpr hfilled (h c hc)

end Group

section Form

variable {required : List String} {state : ArgValues} {m : String × SchemaProp}

theorem adds_group (hgroup : groupProperties m.2 = some children)
    (hnodup : (children.map Prod.fst).Nodup)
    (herrors : (buildProperty blank toLowerCase required state m).errors = []) :
    Adds m (GroupFilled children (groupState blank (state m.1)))
      (GroupMet toLowerCase children m.2.required (groupState blank (state m.1)))
      (buildProperty blank toLowerCase required state m).args := by
  rw [buildProperty, controlFor, hgroup] at herrors ⊢
  dsimp only at herrors ⊢
  rw [← valid_group_iff hgroup hnodup herrors, ← group_ne_nil_iff hgroup herrors]
  split_ifs with hnil
  · exact ⟨by simp, by simp [hnil], by simp [hnil]⟩
  · refine ⟨assigned_key, ?_, ?_⟩
    · rw [Ne, assigned_nil_iff]
      exact (and_iff_left hnil).symm
    · by_cases hkey : m.1 = "__proto__"
      · rw [assigned_nil_iff.mpr hkey]
        exact iff_of_true (by simp) fun hne => absurd hkey hne
      · rw [assigned, if_neg hkey, List.forall_mem_singleton]
        exact ⟨fun h _ _ => h, fun h => h hkey hnil⟩

/-- A property without errors; a field that is required and has no default is filled in. -/
theorem adds_property (hdrawn : (controlFor m.2).isSome)
    (hnodup : ∀ children, groupProperties m.2 = some children → (children.map Prod.fst).Nodup)
    (herrors : (buildProperty blank toLowerCase required state m).errors = []) :
    Adds m (PropertyFilled blank state m) (PropertyMet blank toLowerCase state m)
        (buildProperty blank toLowerCase required state m).args ∧
      (m.1 ≠ "__proto__" → m.1 ∈ required → m.2.default = none → groupProperties m.2 = none →
        PropertyFilled blank state m) := by
  rw [PropertyFilled, PropertyMet]
  cases hgroup : groupProperties m.2 with
  | some children => exact ⟨adds_group hgroup (hnodup children hgroup) herrors, nofun⟩
  | none =>
    rw [controlFor_of_none hgroup] at hdrawn
    obtain ⟨control, hcontrol⟩ := Option.isSome_iff_exists.mp hdrawn
    rw [buildProperty_eq_buildField hgroup hcontrol] at herrors ⊢
    obtain ⟨hadds, hneeded⟩ := adds_field hcontrol id herrors
    exact ⟨@adds_field' _ (fun key => (state key).raw) _ _ _ hcontrol hadds,
      fun hne hrequired hdefault _ => ⟨control, hcontrol, hneeded hne hrequired hdefault⟩⟩

end Form

end Payload

/-- Without errors, the arguments are valid when what the form leaves unchecked holds. -/
theorem payload_valid_iff (blank : ArgValues) (toLowerCase : List Char → List Char)
    {schema resolved : ObjectSchema} (hschema : asObjectSchema schema = some resolved)
    (hdraw : isDrawable resolved) (hkeyed : Keyed (resolved.properties.getD []))
    (values : ArgValues) (herrors : (buildArgs blank toLowerCase schema values).errors = []) :
    Valid resolved.toProp (.object (buildArgs blank toLowerCase schema values).args) ↔
      FormMet blank toLowerCase resolved values := by
  obtain ⟨properties, hproperties⟩ : ∃ properties, resolved.properties = some properties := by
    cases hproperties : resolved.properties with
    | none => simp [isDrawable, hproperties] at hdraw
    | some properties => exact ⟨properties, rfl⟩
  have hbuilt : buildArgs blank toLowerCase schema values =
      walk blank toLowerCase resolved values := by
    rw [buildArgs, hschema]
  have hprops : resolved.properties.getD [] = properties := by rw [hproperties]; rfl
  have hdrawn : ∀ m ∈ properties, (controlFor m.2).isSome := by
    rw [isDrawable, Bool.and_eq_true, List.all_eq_true, hprops] at hdraw
    exact hdraw.2
  rw [hprops] at hkeyed
  rw [hbuilt, walk, hprops] at herrors ⊢
  have hadds : ∀ m ∈ properties, _ := fun m hm => adds_property (hdrawn m hm) (hkeyed.group m hm)
    (errors_eq_nil herrors _ (List.mem_map.mpr ⟨m, hm, rfl⟩))
  rw [Built.all, List.flatMap_map, valid_parts_iff rfl rfl hproperties hkeyed.top
    fun m hm => (hadds m hm).1]
  constructor
  · rintro ⟨hrequired, hmet⟩
    refine ⟨hprops ▸ hmet, fun key hkey => ?_⟩
    rw [hproperties]
    refine (hrequired key hkey).imp_right ?_
    rintro ⟨m, hm, rfl, hne, hfilled⟩
    exact ⟨hne, m, hm, rfl, fun _ => hfilled⟩
  · rintro ⟨hmet, hrequired⟩
    rw [hproperties] at hmet hrequired
    refine ⟨fun key hkey => ?_, hmet⟩
    by_cases hdefault : HasDefault (some properties) key
    · exact .inl hdefault
    obtain ⟨hne, m, hm, rfl, hfilled⟩ := (hrequired key hkey).resolve_left hdefault
    refine .inr ⟨m, hm, rfl, hne, ?_⟩
    cases hgroup : groupProperties m.2 with
    | some children => exact hfilled (by rw [hgroup]; rfl)
    | none => exact (hadds m hm).2 hne hkey (default_eq_none hkeyed.top hm hdefault) hgroup

/-- Names of at most 64 characters for the fields of a receipt. -/
def receiptSchema : ObjectSchema where
  type := some "object"
  properties := some [
    ("fieldMap",
      { type := some (.one "object")
        additionalProperties := some { textProp with minLength := some 1, maxLength := some 64 } })]

/-- A form with the total renamed to a name of some length. -/
def renamed (n : ℕ) : ArgValues := fun key =>
  if key = "fieldMap" then ⟨.string ("total: ".toList ++ List.replicate n 'a'), fun _ => .undefined⟩
  else emptyObject key

theorem keyed_receipt : Keyed (receiptSchema.properties.getD []) := by
  refine ⟨by decide, fun m hm children hgroup => ?_⟩
  obtain rfl := List.mem_singleton.mp hm
  cases hgroup

theorem formMet_renamed : FormMet emptyObject toLowerCase receiptSchema (renamed 64) := by
  refine ⟨fun m hm _ _ => ?_, nofun⟩
  obtain rfl := List.mem_singleton.mp hm
  intro control hcontrol _
  obtain rfl := Option.some_inj.mp hcontrol
  refine ⟨fun a ha q hq => ?_, nofun⟩
  obtain rfl := Option.some_inj.mp hq
  have hrows : (mapOf ((splitEntries (lineOf (renamed 64 "fieldMap").raw)).map pairOf)).rows =
      [("total", String.ofList (List.replicate 64 'a'))] := by decide +kernel
  rw [hrows, List.mem_singleton] at ha
  subst ha
  refine meets_string rfl rfl (fun n hn => ?_) fun n hn => ?_
  · obtain rfl := Option.some_inj.mp hn
    decide +kernel
  · obtain rfl := Option.some_inj.mp hn
    decide +kernel

theorem payload_valid_renamed : Valid receiptSchema.toProp
    (.object (buildArgs emptyObject toLowerCase receiptSchema (renamed 64)).args) :=
  (payload_valid_iff emptyObject toLowerCase rfl rfl keyed_receipt (renamed 64)
    (by decide +kernel)).mpr formMet_renamed

/-- A longer name is sent without an error. -/
theorem long_name_sent :
    (buildArgs emptyObject toLowerCase receiptSchema (renamed 65)).errors = [] ∧
    ¬Valid receiptSchema.toProp
      (.object (buildArgs emptyObject toLowerCase receiptSchema (renamed 65)).args) := by
  have hargs : (buildArgs emptyObject toLowerCase receiptSchema (renamed 65)).args =
      [("fieldMap", .object [("total", .string (String.ofList (List.replicate 65 'a')))])] := by
    decide +kernel
  refine ⟨by decide +kernel, fun h => ?_⟩
  rw [hargs] at h
  have hname := (h.member (List.mem_singleton.mpr rfl) rfl).member (List.mem_singleton.mpr rfl) rfl
  have hlong := hname.meets.maxLength _ rfl 64 rfl
  exact absurd hlong (by decide +kernel)

end HeirsOcr.SchemaArgs
