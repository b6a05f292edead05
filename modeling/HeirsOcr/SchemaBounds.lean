import HeirsOcr.JsonMeasure

/-!
# The guard of a caller's schema

A form can be extracted under a raw JSON Schema of the caller's. It is a prompt and a load on the
service, so its arguments bound how deep it nests, how many values it has and how long its text
is. The guard counts a scalar as a level of its own, and code units for bytes.
-/
namespace HeirsOcr.FormData
open Json

def MAX_FIELDS : ℕ := 50

def MAX_NESTING_DEPTH : ℕ := 3

def MAX_SCHEMA_BYTES : ℕ := 20000

inductive FieldType where
  | string | number | boolean | date
  deriving DecidableEq, Repr

structure FieldSpec where
  name : String
  type : FieldType
  description : Option String
  required : Bool
  enum : Option (List String)
  deriving DecidableEq, Repr

abbrev JsonObject (N : Type) := List (String × Value N)

/-- Either a structured field spec or a raw JSON Schema. -/
inductive FormDataExtractionArgs (N : Type) where
  | fields (fields : List FieldSpec)
  | jsonSchema (schema : JsonObject N)

structure FormDataExtractionResult (N : Type) where
  fields : JsonObject N

variable {N : Type}

mutual

/-- The depth and the number of the values, from a depth on. -/
def measureBounds : Value N → ℕ → ℕ × ℕ
  | .array items, depth => measureItems items depth (depth, 1)
  | .object members, depth => measureMembers members depth (depth, 1)
  | .null, depth | .bool _, depth | .number _, depth | .string _, depth => (depth, 1)

def measureItems : List (Value N) → ℕ → ℕ × ℕ → ℕ × ℕ
  | [], _, bounds => bounds
  | child :: rest, depth, (maxDepth, nodes) =>
    let m := measureBounds child (depth + 1)
    measureItems rest depth (if m.1 > maxDepth then m.1 else maxDepth, nodes + m.2)

def measureMembers : List (String × Value N) → ℕ → ℕ × ℕ → ℕ × ℕ
  | [], _, bounds => bounds
  | (_, child) :: rest, depth, (maxDepth, nodes) =>
    let m := measureBounds child (depth + 1)
    measureMembers rest depth (if m.1 > maxDepth then m.1 else maxDepth, nodes + m.2)

end

structure SchemaBounds where
  depth : ℕ
  nodes : ℕ
  bytes : ℕ

def boundsOf (numberText : N → String) (schema : JsonObject N) : SchemaBounds :=
  let m := measureBounds (.object schema) 1
  ⟨m.1, m.2, units (stringify numberText (.object schema))⟩

/-- What `jsonSchemaArgSchema` has against a schema, under the path `jsonSchema`. -/
def jsonSchemaIssues (numberText : N → String) (schema : JsonObject N) : List String :=
  let bounds := boundsOf numberText schema
  (if bounds.depth > MAX_NESTING_DEPTH then
    ["jsonSchema nesting exceeds " ++ toString MAX_NESTING_DEPTH ++ " levels"] else []) ++
  (if bounds.nodes > MAX_FIELDS then
    ["jsonSchema has more than " ++ toString MAX_FIELDS ++ " nodes"] else []) ++
  if bounds.bytes > MAX_SCHEMA_BYTES then
    ["jsonSchema exceeds " ++ toString MAX_SCHEMA_BYTES ++ " serialized bytes"] else []

/-- The bounds a schema is promised: objects and arrays that nest three deep, fifty values and
twenty thousand bytes. -/
structure Bounded (numberText : N → String) (schema : JsonObject N) : Prop where
  nesting : (Value.object schema).nesting ≤ MAX_NESTING_DEPTH
  nodes : (Value.object schema).nodes ≤ MAX_FIELDS
  bytes : bytes (stringify numberText (.object schema)) ≤ MAX_SCHEMA_BYTES

theorem measureMembers_eq (members : List (String × Value N)) (depth : ℕ) (bounds : ℕ × ℕ) :
    measureMembers members depth bounds = measureItems (members.map Prod.snd) depth bounds := by
  induction members generalizing bounds with
  | nil => rfl
  | cons m rest ih => rw [measureMembers, List.map_cons, measureItems, ih]

/-- The loop over the children takes the greatest of their depths and counts them. -/
theorem measureItems_eq {items : List (Value N)} (depth : ℕ) (bounds : ℕ × ℕ)
    (hbase : depth ≤ bounds.1)
    (h : ∀ item ∈ items, ∀ d, measureBounds item d = (d + item.height, item.nodes)) :
    measureItems items depth bounds =
      (max bounds.1 (depth + (items.map fun item => item.height + 1).foldr max 0),
        bounds.2 + (items.map Value.nodes).sum) := by
  induction items generalizing bounds with
  | nil => simp [measureItems, hbase]
  | cons item rest ih =>
    obtain ⟨maxDepth, nodes⟩ := bounds
    have hbase' : depth ≤ if depth + 1 + item.height > maxDepth then depth + 1 + item.height
        else maxDepth := by
      dsimp only at hbase
      split_ifs <;> omega
    rw [measureItems, h item List.mem_cons_self,
      ih _ hbase' fun item' hmem => h item' (List.mem_cons_of_mem _ hmem)]
    simp only [List.map_cons, List.foldr_cons, List.sum_cons, Prod.mk.injEq]
    constructor
    · split_ifs <;> omega
    · omega

theorem measureBounds_eq (v : Value N) (depth : ℕ) :
    measureBounds v depth = (depth + v.height, v.nodes) := by
  have hcontainer (v : Value N) (hchildren : v.isScalar = false)
      (h : ∀ child ∈ v.children, ∀ d, measureBounds child d = (d + child.height, child.nodes))
      (depth : ℕ) :
      measureItems v.children depth (depth, 1) = (depth + v.height, v.nodes) := by
    rw [measureItems_eq depth _ (le_refl depth) h, Value.height_of_container hchildren,
      Value.nodes_of_container hchildren, max_eq_right (Nat.le_add_right _ _), add_comm 1]
  induction v using Value.induction generalizing depth with
  | null | bool | number | string => rfl
  | array items ih =>
    rw [measureBounds]
    exact hcontainer (.array items) rfl ih depth
  | object members ih =>
    rw [measureBounds, measureMembers_eq]
    refine hcontainer (.object members) rfl (fun child hchild => ?_) depth
    obtain ⟨m, hm, rfl⟩ := List.mem_map.mp hchild
    exact ih m hm

/-- The guard takes a schema whose paths are two steps long at most, scalars included. -/
theorem jsonSchemaIssues_eq_nil {numberText : N → String} {schema : JsonObject N} :
    jsonSchemaIssues numberText schema = [] ↔
      (Value.object schema).height ≤ 2 ∧ (Value.object schema).nodes ≤ MAX_FIELDS ∧
        units (stringify numberText (.object schema)) ≤ MAX_SCHEMA_BYTES := by
  have hdepth : 1 + (Value.object schema).height > MAX_NESTING_DEPTH ↔
      ¬ (Value.object schema).height ≤ 2 := by
    rw [MAX_NESTING_DEPTH]
    omega
  simp [jsonSchemaIssues, boundsOf, measureBounds_eq, hdepth]

/-- Of the schemas that keep the bounds on nesting and values, those with a scalar on the fourth
level are too long, and the others are not too long in bytes alone. -/
def GuardFits (numberText : N → String) (schema : JsonObject N) : Prop :=
  (Value.object schema).nesting ≤ MAX_NESTING_DEPTH →
    (Value.object schema).nodes ≤ MAX_FIELDS →
      ((Value.object schema).ScalarAt 3 →
        MAX_SCHEMA_BYTES < bytes (stringify numberText (.object schema))) ∧
      (¬ (Value.object schema).ScalarAt 3 →
        bytes (stringify numberText (.object schema)) ≤ MAX_SCHEMA_BYTES ∨
          MAX_SCHEMA_BYTES < units (stringify numberText (.object schema)))

/-- An object schema that declares one property with a type. -/
def onePropertySchema (property type : String) : JsonObject N :=
  [("type", .string "object"),
    ("properties", .object [(property, .object [("type", .string type)])])]

theorem onePropertySchema_refused (numberText : N → String) (property type : String) :
    jsonSchemaIssues numberText (onePropertySchema property type) ≠ [] := by
  intro h
  have hheight := (jsonSchemaIssues_eq_nil.mp h).1
  have hthree : (Value.object (onePropertySchema property type) : Value N).height = 3 := rfl
  omega

/-- The guard accepts exactly the bounded schemas among those it fits, and no schema that declares
one property with a type. -/
theorem guard_exact_iff (numberText : N → String) (schema : JsonObject N) :
    ((jsonSchemaIssues numberText schema = [] ↔ Bounded numberText schema) ↔
      GuardFits numberText schema) ∧
    ∀ property type, jsonSchemaIssues numberText (onePropertySchema property type) ≠ [] := by
  refine ⟨?_, onePropertySchema_refused numberText⟩
  have hbounded : Bounded numberText schema ↔
      (Value.object schema).nesting ≤ 3 ∧ (Value.object schema).nodes ≤ MAX_FIELDS ∧
        bytes (stringify numberText (.object schema)) ≤ MAX_SCHEMA_BYTES :=
    ⟨fun h => ⟨h.1, h.2, h.3⟩, fun h => ⟨h.1, h.2.1, h.2.2⟩⟩
  have hunits := units_le_bytes (stringify numberText (.object schema))
  rw [jsonSchemaIssues_eq_nil, hbounded, Value.height_le_iff, GuardFits, MAX_NESTING_DEPTH]
  by_cases hnesting : (Value.object schema).nesting ≤ 3
  · by_cases hnodes : (Value.object schema).nodes ≤ MAX_FIELDS
    · by_cases hscalar : (Value.object schema).ScalarAt 3
      · simp [hnesting, hnodes, hscalar]
      · simp only [hnesting, hnodes, hscalar, true_and, not_false_eq_true, forall_const,
          false_imp_iff]
        omega
    · simp [hnodes]
  · simp [hnesting]

/-- A form with one text property: three levels of objects, five values, 57 bytes. -/
theorem one_property_refused : ¬ ∀ (numberText : ℕ → String) (schema : JsonObject ℕ),
    jsonSchemaIssues numberText schema = [] ↔ Bounded numberText schema := by
  intro hall
  have hrefused := onePropertySchema_refused (fun n : ℕ => toString n) "name" "string"
  exact hrefused ((hall _ _).mpr ⟨by decide, by decide, by decide +kernel⟩)

end HeirsOcr.FormData
