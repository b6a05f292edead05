import HeirsOcr.SchemaLines

/-!
# Untouched defaults

A form that nobody touched submits the defaults it was seeded with. Each field finds its own line
in the state, at the top and in the groups, and reads its default back from it. Two things that a
schema can say have no line: an optional field spec whose type ends in the mark for required
ones, and a member named `__proto__`.
-/
namespace HeirsOcr.SchemaArgs
open JsText Json

/-- Entries that are made key by key are looked up where they were made. -/
theorem lookup_flatMap {α β : Type*} {f : String × α → List (String × β)}
    (hf : ∀ m, ∀ e ∈ f m, e.1 = m.1) {l : List (String × α)} (hnodup : (l.map Prod.fst).Nodup)
    {m : String × α} (hm : m ∈ l) : (l.flatMap f).lookup m.1 = (f m).lookup m.1 := by
  have hnone : ∀ a : String × α, a.1 ≠ m.1 → (f a).lookup m.1 = none := by
    intro a hne
    rw [List.lookup_eq_none_iff]
    intro e he
    rw [bne_iff_ne, hf a e he]
    exact hne.symm
  induction l with
  | nil => exact absurd hm List.not_mem_nil
  | cons a l ih =>
    rw [List.map_cons, List.nodup_cons] at hnodup
    rw [List.flatMap_cons, List.lookup_append]
    rcases List.mem_cons.mp hm with rfl | hm
    · have hrest : (l.flatMap f).lookup m.1 = none := by
        rw [List.lookup_eq_none_iff]
        intro e he
        obtain ⟨b, hb, he⟩ := List.mem_flatMap.mp he
        rw [bne_iff_ne, hf b e he]
        intro heq
        exact hnodup.1 (List.mem_map.mpr ⟨b, hb, heq.symm⟩)
      rw [hrest, Option.or_none]
    · have hne : a.1 ≠ m.1 := fun heq => hnodup.1 (List.mem_map.mpr ⟨m, hm, heq.symm⟩)
      rw [hnone a hne, Option.none_or, ih hnodup.2 hm]

theorem assigned_key {ν : Type*} {key : String} {value : ν} :
    ∀ e ∈ assigned key value, e.1 = key := by
  rw [assigned]
  split_ifs
  · simp
  · simp

theorem lookup_assigned {ν : Type*} {key : String} (h : key ≠ "__proto__") (value : ν) :
    (assigned key value).lookup key = some value := by
  rw [assigned, if_neg h, List.lookup_cons_self]

/-- Properties with a key each, and fields whose defaults the form can hold. -/
structure WrittenFields (toLowerCase : List Char → List Char)
    (properties : List (String × SchemaProp)) : Prop where
  keys : (properties.map Prod.fst).Nodup
  proto : "__proto__" ∉ properties.map Prod.fst
  field : ∀ m ∈ properties, ∀ control d, fieldControl m.2 = some control → m.2.default = some d →
    Written toLowerCase m.2 control d

/-- The same of a schema and of its groups. -/
structure WrittenDefaults (toLowerCase : List Char → List Char)
    (properties : List (String × SchemaProp)) : Prop where
  top : WrittenFields toLowerCase properties
  group : ∀ m ∈ properties, ∀ children, groupProperties m.2 = some children →
    WrittenFields toLowerCase children

/-- A path is that of a field without a default. -/
def Undefaulted (properties : List (String × SchemaProp)) (path : String) : Prop :=
  (∃ m ∈ properties, m.2.default = none ∧ path = m.1) ∨
    ∃ m ∈ properties, ∃ children, groupProperties m.2 = some children ∧
      ∃ c ∈ children, c.2.default = none ∧ path = pathTo m.1 c.1

/-- A default that is not empty is among the arguments as it is. -/
def Returned (args : List (String × JsonValue)) (m : String × SchemaProp) : Prop :=
  ∀ control d, fieldControl m.2 = some control → m.2.default = some d → ¬IsEmpty d →
    ∃ v, (m.1, v) ∈ args ∧ Unchanged control d v

/-- An untouched form reports no error for a field with a default and returns the defaults, at the
top and in groups. -/
structure DefaultsSurvive (properties : List (String × SchemaProp)) (built : Built) : Prop where
  errors : ∀ e ∈ built.errors, Undefaulted properties e.1
  fields : ∀ m ∈ properties, groupProperties m.2 = none → Returned built.args m
  groups : ∀ m ∈ properties, ∀ children, groupProperties m.2 = some children →
    ∀ c ∈ children, ∀ control d, fieldControl c.2 = some control → c.2.default = some d →
      ¬IsEmpty d → ∃ nested, (m.1, .object nested) ∈ built.args ∧
        ∃ v, (c.1, v) ∈ nested ∧ Unchanged control d v

section Form

variable {blank : ArgValues} {toLowerCase : List Char → List Char}
  {properties : List (String × SchemaProp)}

theorem fieldDefault_key (m : String × SchemaProp) : ∀ e ∈ fieldDefault m, e.1 = m.1 := by
  rw [fieldDefault]
  split
  · exact assigned_key
  · simp

/-- The line of a field in the default state. -/
theorem lookup_fieldDefaults (h : WrittenFields toLowerCase properties) {m : String × SchemaProp}
    (hm : m ∈ properties) {control : Control} {d : JsonValue}
    (hcontrol : fieldControl m.2 = some control) (hd : m.2.default = some d) :
    (fieldDefaults properties).lookup m.1 = some (seed control d) := by
  have hkey : m.1 ≠ "__proto__" := fun heq => h.proto (List.mem_map.mpr ⟨m, hm, heq⟩)
  rw [fieldDefaults, lookup_flatMap fieldDefault_key h.keys hm, fieldDefault, hcontrol, hd]
  exact lookup_assigned hkey _

theorem buildField_errors {required : List String} {path key : String} {control : Control}
    {p : SchemaProp} {raw : Raw}
    (h : ∀ d message, p.default = some d → parse toLowerCase control p raw ≠ .error message) :
    ∀ e ∈ (buildField toLowerCase required path key control p raw).errors,
      p.default = none ∧ e.1 = path := by
  intro e he
  rw [buildField] at he
  cases hparse : parse toLowerCase control p raw with
  | error message =>
    rw [hparse] at he
    refine ⟨?_, assigned_key e he⟩
    cases hd : p.default with
    | none => rfl
    | some d => exact absurd hparse (h d message hd)
  | omitted =>
    rw [hparse] at he
    dsimp only at he
    split_ifs at he with hneeded
    · exact ⟨Option.isNone_iff_eq_none.mp hneeded.2, assigned_key e he⟩
    · exact absurd he List.not_mem_nil
  | value v =>
    rw [hparse] at he
    exact absurd he List.not_mem_nil

theorem mem_buildField {required : List String} {path key : String} {control : Control}
    {p : SchemaProp} {raw : Raw} {v : JsonValue} (hkey : key ≠ "__proto__")
    (h : parse toLowerCase control p raw = .value v) :
    (key, v) ∈ (buildField toLowerCase required path key control p raw).args := by
  rw [buildField, h]
  simp [assigned, hkey]

section Group

variable {children : List (String × SchemaProp)} {required : List String} {path : String}
  {current : String → Raw}

/-- In a state that holds the line of each default, the fields of a group are read back. -/
theorem buildGroup_spec (h : WrittenFields toLowerCase children)
    (hcurrent : ∀ c ∈ children, ∀ control d, fieldControl c.2 = some control →
      c.2.default = some d → current c.1 = seed control d) :
    (∀ e ∈ (buildGroup toLowerCase required path children current).errors,
        ∃ c ∈ children, c.2.default = none ∧ e.1 = pathTo path c.1) ∧
      ∀ c ∈ children, Returned (buildGroup toLowerCase required path children current).args c := by
  constructor
  · intro e he
    obtain ⟨built, hbuilt, he⟩ := List.mem_flatMap.mp he
    obtain ⟨c, hc, rfl⟩ := List.mem_map.mp hbuilt
    rw [buildChild] at he
    cases hcontrol : fieldControl c.2 with
    | none =>
      rw [hcontrol] at he
      exact absurd he List.not_mem_nil
    | some control =>
      rw [hcontrol] at he
      refine ⟨c, hc, buildField_errors (fun d message hd => ?_) e he⟩
      rw [hcurrent c hc control d hcontrol hd]
      exact parse_seed_ne_error (fieldControl_drawnAs hcontrol) (h.field c hc control d hcontrol hd)
        message
  · intro c hc control d hcontrol hd hempty
    have hkey : c.1 ≠ "__proto__" := fun heq => h.proto (List.mem_map.mpr ⟨c, hc, heq⟩)
    have hnull : d ≠ .null := by
      rintro rfl
      exact hempty trivial
    obtain ⟨hvalid, hexpressible⟩ := (h.field c hc control d hcontrol hd).resolve_left hnull
    obtain ⟨v, hparse, hsame⟩ :=
      parse_seed (fieldControl_drawnAs hcontrol) hvalid hexpressible hempty
    refine ⟨v, List.mem_flatMap.mpr ⟨_, List.mem_map.mpr ⟨c, hc, rfl⟩, ?_⟩, hsame⟩
    rw [buildChild, hcontrol]
    refine mem_buildField hkey ?_
    rw [hcurrent c hc control d hcontrol hd]
    exact hparse

/-- What a group finds under its key in the default state. -/
theorem groupState_defaults (h : WrittenFields toLowerCase children) {value : FormValue}
    (hvalue : fieldDefaults children ≠ [] →
      value = ⟨.other OBJECT, answers blank (fieldDefaults children)⟩) :
    ∀ c ∈ children, ∀ control d, fieldControl c.2 = some control → c.2.default = some d →
      groupState blank value c.1 = seed control d := by
  intro c hc control d hcontrol hd
  have hlookup := lookup_fieldDefaults h hc hcontrol hd
  have hne : fieldDefaults children ≠ [] := by
    intro hnil
    rw [hnil] at hlookup
    cases hlookup
  have hanswer : groupState blank ⟨.other OBJECT, answers blank (fieldDefaults children)⟩ c.1 =
      ((fieldDefaults children).lookup c.1).getD (blank c.1).raw := rfl
  rw [hvalue hne, hanswer, hlookup]
  rfl

end Group

theorem defaultEntry_key (m : String × SchemaProp) : ∀ e ∈ defaultEntry blank m, e.1 = m.1 := by
  rw [defaultEntry]
  split
  · split_ifs
    · simp
    · exact assigned_key
  · intro e he
    obtain ⟨entry, hentry, rfl⟩ := List.mem_map.mp he
    exact fieldDefault_key m entry hentry

/-- What the default state answers under the key of a property. -/
theorem defaultArgs_eq {schema : ObjectSchema} {resolved : ObjectSchema}
    (hschema : asObjectSchema schema = some resolved)
    (hnodup : ((resolved.properties.getD []).map Prod.fst).Nodup) {m : String × SchemaProp}
    (hm : m ∈ resolved.properties.getD []) :
    defaultArgs blank schema m.1 = ((defaultEntry blank m).lookup m.1).getD (blank m.1) := by
  rw [defaultArgs, hschema, Option.bind_some, lookup_flatMap defaultEntry_key hnodup hm]

/-- A group finds its own entry in the default state. -/
theorem defaultEntry_group {m : String × SchemaProp} (hkey : m.1 ≠ "__proto__")
    {children : List (String × SchemaProp)} (hgroup : groupProperties m.2 = some children)
    (hne : fieldDefaults children ≠ []) (fallback : FormValue) :
    ((defaultEntry blank m).lookup m.1).getD fallback =
      ⟨.other OBJECT, answers blank (fieldDefaults children)⟩ := by
  rw [defaultEntry, hgroup]
  dsimp only
  rw [if_neg hne, lookup_assigned hkey]
  rfl

theorem defaultEntry_field {m : String × SchemaProp} (hkey : m.1 ≠ "__proto__")
    (hgroup : groupProperties m.2 = none) {control : Control} {d : JsonValue}
    (hcontrol : fieldControl m.2 = some control) (hd : m.2.default = some d)
    (fallback : FormValue) :
    (((defaultEntry blank m).lookup m.1).getD fallback).raw = seed control d := by
  rw [defaultEntry, hgroup, fieldDefault, hcontrol, hd]
  dsimp only
  rw [assigned, if_neg hkey, List.map_singleton, List.lookup_cons_self]
  rfl

theorem controlFor_of_none {p : SchemaProp} (h : groupProperties p = none) :
    controlFor p = fieldControl p := by
  rw [controlFor, h]

theorem buildProperty_eq_buildField {required : List String} {state : ArgValues}
    {m : String × SchemaProp} {control : Control} (hgroup : groupProperties m.2 = none)
    (hcontrol : fieldControl m.2 = some control) :
    buildProperty blank toLowerCase required state m =
      buildField toLowerCase required m.1 m.1 control m.2 (state m.1).raw := by
  rw [buildProperty, controlFor_of_none hgroup, hcontrol]
  cases control with
  | group children required => exact absurd (fieldControl_drawnAs hcontrol) id
  | _ => rfl

end Form

section Whole

variable {blank : ArgValues} {toLowerCase : List Char → List Char} {resolved : ObjectSchema}
  {state : ArgValues} {m : String × SchemaProp}

/-- A field at the top. -/
theorem buildProperty_field (hwritten : WrittenFields toLowerCase (resolved.properties.getD []))
    (hm : m ∈ resolved.properties.getD []) (hgroup : groupProperties m.2 = none)
    (hstate : state m.1 = ((defaultEntry blank m).lookup m.1).getD (blank m.1)) :
    (∀ e ∈ (buildProperty blank toLowerCase resolved.required state m).errors,
        m.2.default = none ∧ e.1 = m.1) ∧
      Returned (buildProperty blank toLowerCase resolved.required state m).args m := by
  have hkey : m.1 ≠ "__proto__" := fun heq => hwritten.proto (List.mem_map.mpr ⟨m, hm, heq⟩)
  cases hcontrol : fieldControl m.2 with
  | none =>
    have hnothing : buildProperty blank toLowerCase resolved.required state m = ⟨[], []⟩ := by
      rw [buildProperty, controlFor_of_none hgroup, hcontrol]
    rw [hnothing]
    refine ⟨fun e he => absurd he List.not_mem_nil, fun control d hsome => ?_⟩
    rw [hcontrol] at hsome
    cases hsome
  | some control =>
    have hdrawn := fieldControl_drawnAs hcontrol
    have hraw : ∀ d, m.2.default = some d → (state m.1).raw = seed control d := by
      intro d hd
      rw [hstate]
      exact defaultEntry_field hkey hgroup hcontrol hd _
    rw [buildProperty_eq_buildField hgroup hcontrol]
    constructor
    · refine buildField_errors fun d message hd => ?_
      rw [hraw d hd]
      exact parse_seed_ne_error hdrawn (hwritten.field m hm control d hcontrol hd) message
    · intro control' d hsome hd hempty
      obtain rfl : control = control' := Option.some_inj.mp (hcontrol.symm.trans hsome)
      have hnull : d ≠ .null := by
        rintro rfl
        exact hempty trivial
      obtain ⟨hvalid, hexpressible⟩ :=
        (hwritten.field m hm control d hcontrol hd).resolve_left hnull
      obtain ⟨v, hparse, hsame⟩ := parse_seed hdrawn hvalid hexpressible hempty
      refine ⟨v, mem_buildField hkey ?_, hsame⟩
      rw [hraw d hd]
      exact hparse

/-- A group. -/
theorem buildProperty_group (hkey : m.1 ≠ "__proto__") {children : List (String × SchemaProp)}
    (hgroup : groupProperties m.2 = some children) (hwritten : WrittenFields toLowerCase children)
    (hstate : state m.1 = ((defaultEntry blank m).lookup m.1).getD (blank m.1)) :
    (∀ e ∈ (buildProperty blank toLowerCase resolved.required state m).errors,
        ∃ c ∈ children, c.2.default = none ∧ e.1 = pathTo m.1 c.1) ∧
      ∃ nested, (∀ c ∈ children, Returned nested c) ∧ (nested ≠ [] →
        (m.1, .object nested) ∈
          (buildProperty blank toLowerCase resolved.required state m).args) := by
  have hentry : fieldDefaults children ≠ [] →
      state m.1 = ⟨.other OBJECT, answers blank (fieldDefaults children)⟩ :=
    fun hne => hstate.trans (defaultEntry_group hkey hgroup hne _)
  obtain ⟨herrors, hreturned⟩ := @buildGroup_spec _ _ m.2.required m.1 _ hwritten
    (groupState_defaults hwritten hentry)
  rw [buildProperty, controlFor, hgroup]
  dsimp only
  refine ⟨herrors, _, hreturned, fun hne => ?_⟩
  rw [if_neg hne]
  simp [assigned, hkey]

end Whole

/-- The defaults of a schema that the form can hold survive an untouched form. -/
theorem defaults_survive (blank : ArgValues) (toLowerCase : List Char → List Char)
    {schema resolved : ObjectSchema} (hschema : asObjectSchema schema = some resolved)
    (hwritten : WrittenDefaults toLowerCase (resolved.properties.getD [])) :
    DefaultsSurvive (resolved.properties.getD [])
      (buildArgs blank toLowerCase schema (defaultArgs blank schema)) := by
  have hbuilt : buildArgs blank toLowerCase schema (defaultArgs blank schema) =
      walk blank toLowerCase resolved (defaultArgs blank schema) := by
    rw [buildArgs, hschema]
  have hstate : ∀ m ∈ resolved.properties.getD [], defaultArgs blank schema m.1 =
      ((defaultEntry blank m).lookup m.1).getD (blank m.1) :=
    fun m hm => defaultArgs_eq hschema hwritten.top.keys hm
  have hkey : ∀ m ∈ resolved.properties.getD [], m.1 ≠ "__proto__" :=
    fun m hm heq => hwritten.top.proto (List.mem_map.mpr ⟨m, hm, heq⟩)
  rw [hbuilt]
  constructor
  · intro e he
    obtain ⟨built, hbuilt, he⟩ := List.mem_flatMap.mp he
    obtain ⟨m, hm, rfl⟩ := List.mem_map.mp hbuilt
    cases hgroup : groupProperties m.2 with
    | none =>
      exact .inl ⟨m, hm, (buildProperty_field hwritten.top hm hgroup (hstate m hm)).1 e he⟩
    | some children =>
      exact .inr ⟨m, hm, children, hgroup, (buildProperty_group (hkey m hm) hgroup
        (hwritten.group m hm children hgroup) (hstate m hm)).1 e he⟩
  · intro m hm hgroup control d hcontrol hd hempty
    obtain ⟨v, hmem, hsame⟩ := (buildProperty_field hwritten.top hm hgroup (hstate m hm)).2
      control d hcontrol hd hempty
    exact ⟨v, List.mem_flatMap.mpr ⟨_, List.mem_map.mpr ⟨m, hm, rfl⟩, hmem⟩, hsame⟩
  · intro m hm children hgroup c hc control d hcontrol hd hempty
    obtain ⟨-, nested, hreturned, hmem⟩ := @buildProperty_group _ _ resolved _ _ (hkey m hm) _
      hgroup (hwritten.group m hm children hgroup) (hstate m hm)
    obtain ⟨v, hv, hsame⟩ := hreturned c hc control d hcontrol hd hempty
    have hgroupMem := hmem (List.ne_nil_of_mem hv)
    exact ⟨nested, List.mem_flatMap.mpr ⟨_, List.mem_map.mpr ⟨m, hm, rfl⟩, hgroupMem⟩, v, hv, hsame⟩

/-- An empty object, as far as its keys are not those every object answers for. -/
def emptyObject : ArgValues := fun _ => ⟨.undefined, fun _ => .undefined⟩

def textProp : SchemaProp := { type := some (.one "string") }

/-- A list and a group with a text, both with defaults. -/
def cuesSchema : ObjectSchema where
  type := some "object"
  properties := some [
    ("signatureCues",
      { type := some (.one "array")
        items := some textProp
        default := some (.array [.string "Signature", .string "Signed by"]) }),
    ("expected",
      { type := some (.one "object")
        properties := some [("fullName", { textProp with default := some (.string "Ada Obi") })] })]

theorem valid_textProp (s : String) : Valid textProp (.string s) :=
  valid_string_iff.mpr (meets_string rfl rfl nofun nofun)

theorem written_cues : WrittenDefaults toLowerCase (cuesSchema.properties.getD []) := by
  constructor
  · refine ⟨by decide, by decide, ?_⟩
    intro m hm control d hcontrol hd
    rcases List.mem_cons.mp hm with rfl | hm
    · obtain rfl := Option.some_inj.mp hcontrol
      obtain rfl := Option.some_inj.mp hd
      refine .inr ⟨valid_array_iff.mpr ⟨(meets_array_iff rfl rfl).mpr ⟨nofun, nofun, nofun⟩, ?_⟩,
        ["Signature".toList, "Signed by".toList], rfl, ?_⟩
      · intro i item q hitem hq
        obtain rfl : textProp = q := Option.some_inj.mp hq
        rcases List.mem_cons.mp (List.mem_of_getElem? hitem) with rfl | hmem
        · exact valid_textProp _
        · obtain rfl := List.mem_singleton.mp hmem
          exact valid_textProp _
      · intro e he
        rcases List.mem_cons.mp he with rfl | he
        · decide
        · obtain rfl := List.mem_singleton.mp he
          decide
    · obtain rfl := List.mem_singleton.mp hm
      cases hcontrol
  · intro m hm children hgroup
    rcases List.mem_cons.mp hm with rfl | hm
    · cases hgroup
    · obtain rfl := List.mem_singleton.mp hm
      obtain rfl := Option.some_inj.mp hgroup
      refine ⟨by decide, by decide, ?_⟩
      intro c hc control d hcontrol hd
      obtain rfl := List.mem_singleton.mp hc
      obtain rfl := Option.some_inj.mp hcontrol
      obtain rfl := Option.some_inj.mp hd
      exact .inr ⟨valid_string_iff.mpr (meets_string rfl rfl nofun nofun),
        (by decide : Trimmed "Ada Obi".toList)⟩

theorem defaults_survive_cues : DefaultsSurvive (cuesSchema.properties.getD [])
    (buildArgs emptyObject toLowerCase cuesSchema (defaultArgs emptyObject cuesSchema)) :=
  defaults_survive emptyObject toLowerCase rfl written_cues

def specProp : SchemaProp where
  type := some (.one "object")
  properties := some [
    ("name", textProp),
    ("type", { enum := some [.string "string", .string "string*"] })]

/-- A field list whose default has an optional field of a type that ends in a star. -/
def starFields : SchemaProp where
  type := some (.one "array")
  items := some specProp
  default := some (.array [.object [("name", .string "Total"), ("type", .string "string*")]])

def starSchema : ObjectSchema where
  type := some "object"
  properties := some [("fields", starFields)]

theorem valid_starFields : ∀ d ∈ starFields.default, Valid starFields d := by
  intro d hd
  obtain rfl := Option.some_inj.mp hd
  refine valid_array_iff.mpr
    ⟨(meets_array_iff rfl rfl).mpr ⟨nofun, nofun, fun h => absurd rfl h⟩, ?_⟩
  intro i item q hitem hq
  obtain rfl : specProp = q := Option.some_inj.mp hq
  obtain rfl := List.mem_singleton.mp (List.mem_of_getElem? hitem)
  refine valid_object_iff.mpr ⟨(meets_object_iff rfl rfl).mpr nofun, ?_⟩
  intro m hm q hq
  rcases List.mem_cons.mp hm with rfl | hm
  · obtain rfl : textProp = q := Option.some_inj.mp hq
    exact valid_textProp _
  · obtain rfl := List.mem_singleton.mp hm
    obtain rfl := Option.some_inj.mp hq
    refine valid_string_iff.mpr ?_
    constructor <;> simp

/-- The default is valid, and the form makes the optional field a required one of another type. -/
theorem starred_type_lost : (∀ d ∈ starFields.default, Valid starFields d) ∧
    ¬DefaultsSurvive (starSchema.properties.getD [])
      (buildArgs emptyObject toLowerCase starSchema (defaultArgs emptyObject starSchema)) := by
  refine ⟨valid_starFields, fun h => ?_⟩
  have hargs : (buildArgs emptyObject toLowerCase starSchema
      (defaultArgs emptyObject starSchema)).args = [("fields", .array [.object
        [("name", .string "Total"), ("type", .string "string"), ("required", .bool true)]])] := by
    decide +kernel
  obtain ⟨v, hmem, hsame⟩ := h.fields _ List.mem_cons_self rfl _ _ rfl rfl (by simp [IsEmpty])
  rw [hargs, List.mem_singleton] at hmem
  obtain ⟨-, rfl⟩ := Prod.mk.inj hmem
  obtain ⟨specs, hdefault, hbuilt⟩ := hsame
  cases hdefault with
  | cons hspec _ =>
    cases hbuilt with
    | cons hspec' _ =>
      obtain ⟨_, hmembers, -, -, -, hoptional⟩ := hspec
      obtain ⟨_, hmembers', -, -, -, hrequired⟩ := hspec'
      obtain rfl := Value.object.inj hmembers
      obtain rfl := Value.object.inj hmembers'
      have hfalse := Value.bool.inj hoptional
      have htrue := Value.bool.inj hrequired
      rw [← hfalse] at htrue
      cases htrue

end HeirsOcr.SchemaArgs
