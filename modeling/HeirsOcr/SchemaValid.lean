import HeirsOcr.SchemaArgs

/-!
# What a schema accepts

The values a property accepts, by the constraints that the form knows of. A tuple has the length of
its slots unless it lists items behind them, and a required member may be missing when its schema
has a default. What else a schema can say is not looked at.
-/
namespace HeirsOcr.SchemaArgs
open Doubles Json

/-- A value is of a type. -/
def HasType (v : JsonValue) (t : String) : Prop :=
  match v with
  | .null => t = "null"
  | .bool _ => t = "boolean"
  | .number x => t = "number" ∨ t = "integer" ∧ x.val.isInt
  | .string _ => t = "string"
  | .array _ => t = "array"
  | .object _ => t = "object"

def TypeField.Allows (v : JsonValue) : TypeField → Prop
  | .one t => HasType v t
  | .many ts => ∃ t ∈ ts, HasType v t

/-- A member may be left out. -/
def HasDefault (properties : Option (List (String × SchemaProp))) (key : String) : Prop :=
  ∃ q ∈ properties.bind (·.lookup key), q.default.isSome

/-- The schema of an item. -/
def SchemaProp.itemSchema (p : SchemaProp) (i : ℕ) : Option SchemaProp :=
  p.prefixItems[i]?.or p.items

/-- The schema of a member. -/
def SchemaProp.memberSchema (p : SchemaProp) (key : String) : Option SchemaProp :=
  (p.properties.bind (·.lookup key)).or p.additionalProperties

/-- The constraints of a schema on a value itself. -/
structure Meets (p : SchemaProp) (v : JsonValue) : Prop where
  type : ∀ t ∈ p.type, t.Allows v
  enum : ∀ options ∈ p.enum, v ∈ options
  minimum : ∀ x, v = .number x → ∀ m ∈ p.minimum, m.val ≤ x.val
  maximum : ∀ x, v = .number x → ∀ m ∈ p.maximum, x.val ≤ m.val
  minLength : ∀ s, v = .string s → ∀ n ∈ p.minLength, n ≤ units s.toList
  maxLength : ∀ s, v = .string s → ∀ n ∈ p.maxLength, units s.toList ≤ n
  minItems : ∀ items, v = .array items → ∀ n ∈ p.minItems, n ≤ items.length
  maxItems : ∀ items, v = .array items → ∀ n ∈ p.maxItems, items.length ≤ n
  tuple : ∀ items, v = .array items → p.prefixItems ≠ [] → p.prefixItems.length ≤ items.length ∧
    (p.items = none → items.length = p.prefixItems.length)
  required : ∀ members, v = .object members → ∀ key ∈ p.required,
    key ∈ members.map Prod.fst ∨ HasDefault p.properties key

/-- A value and all that is in it meet the schema. -/
inductive Valid : SchemaProp → JsonValue → Prop where
  | intro {p : SchemaProp} {v : JsonValue} (meets : Meets p v)
    (items : ∀ items i item q, v = .array items → items[i]? = some item →
      p.itemSchema i = some q → Valid q item)
    (members : ∀ members key x q, v = .object members → (key, x) ∈ members →
      p.memberSchema key = some q → Valid q x) : Valid p v

/-- The schema of the arguments as a property. -/
def ObjectSchema.toProp (s : ObjectSchema) : SchemaProp :=
  { type := some (.one "object"), properties := s.properties, required := s.required }

section Valid

variable {p : SchemaProp}

theorem Valid.meets {v : JsonValue} (h : Valid p v) : Meets p v := by
  cases h with
  | intro meets => exact meets

theorem Valid.item {items : List JsonValue} (h : Valid p (.array items)) {i : ℕ} {item : JsonValue}
    {q : SchemaProp} (hitem : items[i]? = some item) (hq : p.itemSchema i = some q) :
    Valid q item := by
  cases h with
  | intro _ hitems => exact hitems items i item q rfl hitem hq

theorem Valid.member {members : List (String × JsonValue)} (h : Valid p (.object members))
    {key : String} {x : JsonValue} {q : SchemaProp} (hmem : (key, x) ∈ members)
    (hq : p.memberSchema key = some q) : Valid q x := by
  cases h with
  | intro _ _ hmembers => exact hmembers members key x q rfl hmem hq

theorem valid_string_iff {s : String} : Valid p (.string s) ↔ Meets p (.string s) :=
  ⟨Valid.meets, fun h => .intro h nofun nofun⟩

theorem valid_number_iff {x : Double} : Valid p (.number x) ↔ Meets p (.number x) :=
  ⟨Valid.meets, fun h => .intro h nofun nofun⟩

theorem valid_bool_iff {b : Bool} : Valid p (.bool b) ↔ Meets p (.bool b) :=
  ⟨Valid.meets, fun h => .intro h nofun nofun⟩

theorem valid_array_iff {items : List JsonValue} : Valid p (.array items) ↔
    Meets p (.array items) ∧ ∀ i item q, items[i]? = some item → p.itemSchema i = some q →
      Valid q item := by
  constructor
  · exact fun h => ⟨h.meets, fun i item q hitem hq => h.item hitem hq⟩
  · rintro ⟨hmeets, hitems⟩
    refine .intro hmeets ?_ nofun
    intro items' i item q heq
    obtain rfl := Value.array.inj heq
    exact hitems i item q

theorem valid_object_iff {members : List (String × JsonValue)} : Valid p (.object members) ↔
    Meets p (.object members) ∧ ∀ m ∈ members, ∀ q ∈ p.memberSchema m.1, Valid q m.2 := by
  constructor
  · exact fun h => ⟨h.meets, fun m hm q hq => h.member hm hq⟩
  · rintro ⟨hmeets, hmembers⟩
    refine .intro hmeets nofun ?_
    intro members' key x q heq hmem hq
    obtain rfl := Value.object.inj heq
    exact hmembers (key, x) hmem q hq

theorem propType_allows {v : JsonValue} {t : String} (h : propType p = some t)
    (hv : HasType v t) : ∀ ty ∈ p.type, ty.Allows v := by
  intro ty hty
  rw [propType, hty] at h
  cases ty with
  | one t' =>
    obtain rfl := Option.some_inj.mp h
    exact hv
  | many ts => exact ⟨t, List.mem_of_find?_eq_some h, hv⟩

theorem meets_bool {b : Bool} (henum : p.enum = none) (htype : propType p = some "boolean") :
    Meets p (.bool b) where
  type := propType_allows htype rfl
  enum := by simp [henum]
  minimum _ h := by cases h
  maximum _ h := by cases h
  minLength := nofun
  maxLength := nofun
  minItems := nofun
  maxItems := nofun
  tuple := nofun
  required := nofun

theorem meets_string {s : String} (henum : p.enum = none) (htype : propType p = some "string")
    (hmin : ∀ n ∈ p.minLength, n ≤ units s.toList) (hmax : ∀ n ∈ p.maxLength, units s.toList ≤ n) :
    Meets p (.string s) where
  type := propType_allows htype rfl
  enum := by simp [henum]
  minimum _ h := by cases h
  maximum _ h := by cases h
  minLength t ht := by
    obtain rfl := Value.string.inj ht
    exact hmin
  maxLength t ht := by
    obtain rfl := Value.string.inj ht
    exact hmax
  minItems := nofun
  maxItems := nofun
  tuple := nofun
  required := nofun

theorem meets_number {x : Double} {t : String} (henum : p.enum = none) (htype : propType p = some t)
    (hx : HasType (.number x) t) (hmin : ∀ m ∈ p.minimum, m.val ≤ x.val)
    (hmax : ∀ m ∈ p.maximum, x.val ≤ m.val) : Meets p (.number x) where
  type := propType_allows htype hx
  enum := by simp [henum]
  minimum y hy := by
    obtain rfl := Value.number.inj hy
    exact hmin
  maximum y hy := by
    obtain rfl := Value.number.inj hy
    exact hmax
  minLength := nofun
  maxLength := nofun
  minItems := nofun
  maxItems := nofun
  tuple := nofun
  required := nofun

/-- What a schema of lists says of a list itself. -/
theorem meets_array_iff {items : List JsonValue} (henum : p.enum = none)
    (htype : propType p = some "array") : Meets p (.array items) ↔
      (∀ n ∈ p.minItems, n ≤ items.length) ∧ (∀ n ∈ p.maxItems, items.length ≤ n) ∧
        (p.prefixItems ≠ [] → p.prefixItems.length ≤ items.length ∧
          (p.items = none → items.length = p.prefixItems.length)) := by
  constructor
  · exact fun h => ⟨h.minItems items rfl, h.maxItems items rfl, h.tuple items rfl⟩
  · rintro ⟨hmin, hmax, htuple⟩
    refine ⟨propType_allows htype rfl, by simp [henum], by simp, by simp, by simp, by simp, ?_, ?_,
      ?_, by simp⟩
    · intro items' heq
      obtain rfl := Value.array.inj heq
      exact hmin
    · intro items' heq
      obtain rfl := Value.array.inj heq
      exact hmax
    · intro items' heq
      obtain rfl := Value.array.inj heq
      exact htuple

/-- What a schema of objects says of an object itself. -/
theorem meets_object_iff {members : List (String × JsonValue)} (henum : p.enum = none)
    (htype : propType p = some "object") : Meets p (.object members) ↔
      ∀ key ∈ p.required, key ∈ members.map Prod.fst ∨ HasDefault p.properties key := by
  constructor
  · exact fun h => h.required members rfl
  · intro hrequired
    refine ⟨propType_allows htype rfl, by simp [henum], by simp, by simp, by simp, by simp, by simp,
      by simp, by simp, ?_⟩
    intro members' heq
    obtain rfl := Value.object.inj heq
    exact hrequired

end Valid

/-- What a control says about its property. -/
def DrawnAs (p : SchemaProp) : Control → Prop
  | .enum options => ∃ os, p.enum = some os ∧ options = os.map stringOf
  | .switch => p.enum = none ∧ propType p = some "boolean"
  | .number integer => p.enum = none ∧ propType p = some (if integer then "integer" else "number")
  | .text => p.enum = none ∧ propType p = some "string"
  | .list => p.enum = none ∧ propType p = some "array" ∧ p.prefixItems = [] ∧
      ∃ item, p.items = some item ∧ (propType item = some "string" ∨ item.enum.isSome)
  | .numbers (some n) integer => p.enum = none ∧ propType p = some "array" ∧
      p.prefixItems.length = n ∧ (∀ slot ∈ p.prefixItems, isNumeric slot) ∧
      (integer ↔ ∀ slot ∈ p.prefixItems, propType slot = some "integer")
  | .numbers none integer => p.enum = none ∧ propType p = some "array" ∧ p.prefixItems = [] ∧
      ∃ item, p.items = some item ∧ isNumeric item ∧ (integer ↔ propType item = some "integer")
  | .pairs => p.enum = none ∧ propType p = some "object" ∧ p.properties = none ∧
      ∃ extra, p.additionalProperties = some extra ∧ propType extra = some "string"
  | .specs types => p.enum = none ∧ propType p = some "array" ∧ p.prefixItems = [] ∧
      ∃ item, p.items = some item ∧ item.enum = none ∧ specTypes item = some types
  | .group _ _ => False

theorem arrayControl_drawnAs {p : SchemaProp} {control : Control} (henum : p.enum = none)
    (htype : propType p = some "array") (h : arrayControl p = some control) :
    DrawnAs p control := by
  rw [arrayControl] at h
  split_ifs at h with htuple hnumeric
  · obtain rfl := Option.some_inj.mp h
    rw [List.all_eq_true] at hnumeric
    exact ⟨henum, htype, rfl, hnumeric, by simp⟩
  · have hnil : p.prefixItems = [] := not_not.mp htuple
    cases hitems : p.items with
    | none => simp [hitems] at h
    | some item =>
      rw [hitems] at h
      dsimp only at h
      split_ifs at h with hlist hnumeric
      · obtain rfl := Option.some_inj.mp h
        exact ⟨henum, htype, hnil, item, hitems, hlist⟩
      · obtain rfl := Option.some_inj.mp h
        exact ⟨henum, htype, hnil, item, hitems, hnumeric, by simp⟩
      · obtain ⟨types, htypes, rfl⟩ := Option.map_eq_some_iff.mp h
        have hitem : item.enum = none :=
          Option.not_isSome_iff_eq_none.mp (not_or.mp hlist).2
        exact ⟨henum, htype, hnil, item, hitems, hitem, htypes⟩

theorem fieldControl_drawnAs {p : SchemaProp} {control : Control}
    (h : fieldControl p = some control) : DrawnAs p control := by
  rw [fieldControl] at h
  cases henum : p.enum with
  | some options =>
    rw [henum] at h
    obtain rfl := Option.some_inj.mp h
    exact ⟨options, henum, rfl⟩
  | none =>
    rw [henum] at h
    dsimp only at h
    split_ifs at h with hbool hnumber hinteger htext harray hobject hextra
    · obtain rfl := Option.some_inj.mp h
      exact ⟨henum, hbool⟩
    · obtain rfl := Option.some_inj.mp h
      exact ⟨henum, hnumber⟩
    · obtain rfl := Option.some_inj.mp h
      exact ⟨henum, hinteger⟩
    · obtain rfl := Option.some_inj.mp h
      exact ⟨henum, htext⟩
    · exact arrayControl_drawnAs henum harray h
    · obtain rfl := Option.some_inj.mp h
      obtain ⟨extra, hsome, htype⟩ := (Option.any_eq_true _ _).mp hextra
      exact ⟨henum, hobject.1, Option.isNone_iff_eq_none.mp hobject.2, extra, hsome,
        of_decide_eq_true htype⟩

/-- The properties of a field spec. -/
theorem specTypes_eq_some {item : SchemaProp} {types : List (List Char)}
    (h : specTypes item = some types) : propType item = some "object" ∧
      ∃ name type options, item.memberSchema "name" = some name ∧
        item.memberSchema "type" = some type ∧ propType name = some "string" ∧
        type.enum = some options ∧ types = options.map stringOf := by
  rw [specTypes] at h
  split_ifs at h with hobject
  have hobject := not_not.mp hobject
  simp only [Option.bind_eq_bind, Option.bind_eq_some_iff] at h
  obtain ⟨properties, hproperties, name, hname, type, htype, h⟩ := h
  split_ifs at h with hstring
  have hstring := not_not.mp hstring
  simp only [Option.bind_eq_some_iff] at h
  obtain ⟨options, hoptions, h⟩ := h
  split_ifs at h
  refine ⟨hobject, name, type, options, ?_, ?_, hstring, hoptions, (Option.some_inj.mp h).symm⟩
  · simp [SchemaProp.memberSchema, hproperties, hname]
  · simp [SchemaProp.memberSchema, hproperties, htype]

end HeirsOcr.SchemaArgs
