import HeirsOcr.Pipeline
import HeirsOcr.Prompt
import HeirsOcr.SchemaBounds
import HeirsOcr.SharedRegistry

/-!
# Forms under a caller's schema

The fields of a form are extracted under the caller's JSON Schema and checked against it by Ajv.
One instance of Ajv serves all requests of the process, and it keeps the ids of the schemas it
compiled: a request may be refused, or answered, because of the schema of another.
-/
namespace HeirsOcr.FormData
open Json Llm Pipeline SharedRegistry

variable {N : Type}

/-- Whose schema an id is registered for: one the library brings, or one of a caller. -/
inductive Owner where
  | builtIn
  | object (n : ℕ)
  deriving DecidableEq, Repr

/-- An instance of Ajv: what it starts as, the ids it holds, and what it makes of a schema, which
is an object of its own however much it looks like another. -/
structure Ajv (N : Type) where
  State : Type
  new : State
  registered : State → String → Option Owner
  compile : State → (object : ℕ) → JsonObject N → State × Except String (Value N → Bool)

/-- The ids of a schema: `own` is its `$id`, `declares` are that and those inside, and `refersTo`
are those its references resolve to. -/
structure SchemaIds (N : Type) where
  own : JsonObject N → Option String
  declares : JsonObject N → String → Prop
  refersTo : JsonObject N → String → Prop

def SchemaIds.Mentions (ids : SchemaIds N) (schema : JsonObject N) (id : String) : Prop :=
  ids.declares schema id ∨ ids.refersTo schema id

/-- What the library documents. To compile registers the ids of the schema for its object, the
`$id` in any case, and changes no id that is there; a `$id` that another object has is refused;
and where the ids a schema mentions are held as by a new instance, the outcome is that of one,
for any object. -/
structure Ajv.Documented (ajv : Ajv N) (ids : SchemaIds N) : Prop where
  registers : ∀ st object schema id,
    ajv.registered (ajv.compile st object schema).1 id = ajv.registered st id ∨
      ids.declares schema id ∧ ajv.registered st id = none ∧
        ajv.registered (ajv.compile st object schema).1 id = some (.object object)
  registersOwn : ∀ st object schema id validate, ids.own schema = some id →
    (ajv.compile st object schema).2 = .ok validate →
      ajv.registered (ajv.compile st object schema).1 id = some (.object object)
  refusesReuse : ∀ st object schema id owner, ids.own schema = some id →
    ajv.registered st id = some owner → owner ≠ .object object →
      ∃ message, (ajv.compile st object schema).2 = .error message
  resolves : ∀ st object object' schema,
    (∀ id, ids.Mentions schema id → ajv.registered st id = ajv.registered ajv.new id) →
      (ajv.compile st object schema).2 = (ajv.compile ajv.new object' schema).2

def FieldType.text : FieldType → String
  | .string => "string"
  | .number => "number"
  | .boolean => "boolean"
  | .date => "date"

def buildFormDataExtractionPrompt (markdown : String) (args : FormDataExtractionArgs N) : Prompt :=
  let fieldInstruction := match args with
    | .fields specs => "Extract these fields: " ++
        ", ".intercalate (specs.map fun f => f.name ++ " (" ++ f.type.text ++
          (if f.required then ", required" else "") ++ ")") ++ "."
    | .jsonSchema _ => "Extract values conforming to the provided JSON Schema."
  { system := buildSystem [
      "You are a form data extraction assistant.",
      fieldInstruction,
      "Return null for any field not present in the document. " ++
        "Use the value as written on the form."]
    user := "Extract form fields from this document:\n\n" ++ wrapUntrusted "DOCUMENT" markdown }

/-- What the model is asked; the schema is there when it is not made of the field specs. -/
structure StructuredRequest (N : Type) where
  prompt : Prompt
  jsonSchema : Option (JsonObject N)
  schemaName : String

/-- The caller's schema, for the object under `fields`. -/
def fieldsSchema (schema : JsonObject N) : JsonObject N :=
  [("type", .string "object"), ("properties", .object [("fields", .object schema)]),
    ("required", .array [.string "fields"]), ("additionalProperties", .bool false)]

def assertMatchesJsonSchema (ajv : Ajv N) (st : ajv.State) (object : ℕ) (schema : JsonObject N)
    (fields : JsonObject N) : ajv.State × Except Thrown Unit :=
  let compiled := ajv.compile st object schema
  (compiled.1,
    match compiled.2 with
    | .error message => .error (.other message)
    | .ok validate =>
      if validate (.object fields) then .ok ()
      else .error (.ocrError (.of .SCHEMA_VALIDATION_FAILED
        "Extracted fields did not match the provided JSON Schema")))

/-- A request to extract a form, and the model that answers for it. -/
structure FormRequest (N : Type) where
  tenantId : String
  markdown : String
  args : FormDataExtractionArgs N
  complete : StructuredRequest N → Except Thrown (FormDataExtractionResult N)

/-- `object` is the schema's object, of which each request has a new one. -/
def executeFormDataExtraction (ajv : Ajv N) (st : ajv.State) (object : ℕ)
    (request : FormRequest N) : ajv.State × Except Thrown (FormDataExtractionResult N) :=
  let prompt := buildFormDataExtractionPrompt request.markdown request.args
  match request.args with
  | .jsonSchema schema =>
    match request.complete ⟨prompt, some (fieldsSchema schema), "FORM_DATA_EXTRACTION_result"⟩ with
    | .error e => (st, .error e)
    | .ok data =>
      let matched := assertMatchesJsonSchema ajv st object schema data.fields
      (matched.1, matched.2.map fun _ => data)
  | .fields _ => (st, request.complete ⟨prompt, none, "FORM_DATA_EXTRACTION_result"⟩)

/-- The requests in the order in which they come to the validator, numbered. -/
def process (ajv : Ajv N) (ids : SchemaIds N) : Component ajv.State (FormRequest N × ℕ) String
    (Option Owner) (Except Thrown (FormDataExtractionResult N)) where
  step st request := executeFormDataExtraction ajv st request.2 request.1
  entry := ajv.registered
  writes request id := ∃ schema, request.1.args = .jsonSchema schema ∧ ids.declares schema id
  reads request id := ∃ schema, request.1.args = .jsonSchema schema ∧ ids.Mentions schema id

/-- The validator of the process after a list of requests. -/
def stateAfter (ajv : Ajv N) (earlier : List (FormRequest N)) : ajv.State :=
  earlier.zipIdx.foldl (fun st e => (executeFormDataExtraction ajv st e.2 e.1).1) ajv.new

/-- What becomes of a request after others. -/
def outcomeAfter (ajv : Ajv N) (earlier : List (FormRequest N)) (request : FormRequest N) :
    Except Thrown (FormDataExtractionResult N) :=
  (executeFormDataExtraction ajv (stateAfter ajv earlier) earlier.length request).2

/-- The request's schema mentions no id that the schema of an earlier request declares. -/
def MentionsNone (ids : SchemaIds N) (earlier : List (FormRequest N)) (request : FormRequest N) :
    Prop :=
  ∀ e ∈ earlier, ∀ schema schema', e.args = .jsonSchema schema →
    request.args = .jsonSchema schema' → ∀ id, ids.declares schema id → ¬ ids.Mentions schema' id

section Process

variable {ajv : Ajv N} {ids : SchemaIds N} {earlier earlier' : List (FormRequest N)}
  {request : FormRequest N}

/-- What is asked of the validator is the schema alone. -/
theorem executeFormDataExtraction_fields {specs : List FieldSpec} (st : ajv.State) (object : ℕ)
    (h : request.args = .fields specs) :
    executeFormDataExtraction ajv st object request =
      (st, request.complete ⟨buildFormDataExtractionPrompt request.markdown request.args, none,
        "FORM_DATA_EXTRACTION_result"⟩) := by
  unfold executeFormDataExtraction
  rw [h]

/-- Two instances that compile a schema alike serve its request alike. -/
theorem outcome_congr {st st' : ajv.State} {object object' : ℕ} {schema : JsonObject N}
    (hargs : request.args = .jsonSchema schema)
    (h : (ajv.compile st object schema).2 = (ajv.compile st' object' schema).2) :
    (executeFormDataExtraction ajv st object request).2 =
      (executeFormDataExtraction ajv st' object' request).2 := by
  unfold executeFormDataExtraction
  simp only [hargs]
  split
  · rfl
  · simp only [assertMatchesJsonSchema, h]

/-- A request compiles its schema or leaves the validator alone. -/
theorem state_cases (st : ajv.State) (object : ℕ) (request : FormRequest N) :
    (executeFormDataExtraction ajv st object request).1 = st ∨
      ∃ schema, request.args = .jsonSchema schema ∧
        (executeFormDataExtraction ajv st object request).1 =
          (ajv.compile st object schema).1 := by
  unfold executeFormDataExtraction
  cases hargs : request.args with
  | fields specs => exact .inl rfl
  | jsonSchema schema =>
    dsimp only
    split
    · exact .inl rfl
    · exact .inr ⟨schema, rfl, rfl⟩

theorem lawful_process (hajv : ajv.Documented ids) : Lawful (process ajv ids) ajv.new := by
  refine ⟨?_, ?_⟩
  · intro st request id hfree
    rcases state_cases st request.2 request.1 with hsame | ⟨schema, hargs, hcompiled⟩
    · show ajv.registered (executeFormDataExtraction ajv st request.2 request.1).1 id = _
      rw [hsame]
      rfl
    · show ajv.registered (executeFormDataExtraction ajv st request.2 request.1).1 id = _
      rw [hcompiled]
      rcases hajv.registers st request.2 schema id with hsame | ⟨hdeclares, -⟩
      · exact hsame
      · exact absurd ⟨schema, hargs, hdeclares⟩ hfree
  · intro st request hreads
    cases hargs : request.1.args with
    | fields specs =>
      show (executeFormDataExtraction ajv st request.2 request.1).2 =
        (executeFormDataExtraction ajv ajv.new request.2 request.1).2
      rw [executeFormDataExtraction_fields st _ hargs,
        executeFormDataExtraction_fields ajv.new _ hargs]
    | jsonSchema schema =>
      refine outcome_congr hargs (hajv.resolves _ _ _ _ fun id hmentions => ?_)
      exact hreads id ⟨schema, hargs, hmentions⟩

/-- A request that mentions no id of an earlier one is served as by a new process. -/
theorem outcome_fresh (hajv : ajv.Documented ids) (h : MentionsNone ids earlier request) :
    outcomeAfter ajv earlier request = (executeFormDataExtraction ajv ajv.new 0 request).2 := by
  have hapart : Apart (process ajv ids) earlier.zipIdx (request, earlier.length) := by
    rintro e he id ⟨schema, hargs, hdeclares⟩ ⟨schema', hargs', hmentions⟩
    have hmem : e.1 ∈ earlier := List.fst_mem_of_mem_zipIdx he
    exact h e.1 hmem schema schema' hargs hargs' id hdeclares hmentions
  have hstart : outcomeAfter ajv earlier request =
      (executeFormDataExtraction ajv ajv.new earlier.length request).2 :=
    (lawful_process hajv).answer_run hapart
  rw [hstart]
  cases hargs : request.args with
  | fields specs =>
    rw [executeFormDataExtraction_fields _ _ hargs, executeFormDataExtraction_fields _ _ hargs]
  | jsonSchema schema => exact outcome_congr hargs (hajv.resolves _ _ _ _ fun _ _ => rfl)

/-- An id that is registered stays with its owner. -/
theorem registered_run (hajv : ajv.Documented ids) (requests : List (FormRequest N × ℕ))
    {st : ajv.State} {id : String} {owner : Owner} (h : ajv.registered st id = some owner) :
    ajv.registered (requests.foldl (fun st e => (executeFormDataExtraction ajv st e.2 e.1).1) st)
      id = some owner := by
  induction requests generalizing st with
  | nil => exact h
  | cons e rest ih =>
    apply ih
    dsimp only
    rcases state_cases st e.2 e.1 with hsame | ⟨schema, -, hcompiled⟩
    · rw [hsame, h]
    · rw [hcompiled]
      rcases hajv.registers st e.2 schema id with hsame | ⟨-, hnone, -⟩
      · rw [hsame, h]
      · rw [h] at hnone
        cases hnone

/-- A request that succeeds has its `$id` registered for its object. -/
theorem registered_of_ok (hajv : ajv.Documented ids) {st : ajv.State} {object : ℕ}
    {schema : JsonObject N} {id : String} {result : FormDataExtractionResult N}
    (hargs : request.args = .jsonSchema schema) (hown : ids.own schema = some id)
    (hok : (executeFormDataExtraction ajv st object request).2 = .ok result) :
    ajv.registered (executeFormDataExtraction ajv st object request).1 id =
      some (.object object) := by
  unfold executeFormDataExtraction at hok ⊢
  simp only [hargs] at hok ⊢
  split at hok
  · cases hok
  · simp only [assertMatchesJsonSchema] at hok ⊢
    cases hcompiled : (ajv.compile st object schema).2 with
    | error message =>
      rw [hcompiled] at hok
      cases hok
    | ok validate => exact hajv.registersOwn st object schema id validate hown hcompiled

/-- After a request that succeeded, whoever comes with its `$id` again is refused. -/
theorem reused_id_refused (hajv : ajv.Documented ids) {first : FormRequest N}
    {schema schema' : JsonObject N} {id : String} {result data : FormDataExtractionResult N}
    (hfirst : first.args = .jsonSchema schema) (hown : ids.own schema = some id)
    (hok : outcomeAfter ajv earlier first = .ok result)
    (hargs : request.args = .jsonSchema schema') (hown' : ids.own schema' = some id)
    (hanswer : request.complete ⟨buildFormDataExtractionPrompt request.markdown request.args,
      some (fieldsSchema schema'), "FORM_DATA_EXTRACTION_result"⟩ = .ok data) :
    ∃ message, outcomeAfter ajv (earlier ++ first :: earlier') request =
      .error (.other message) := by
  have hregistered : ajv.registered (stateAfter ajv (earlier ++ first :: earlier')) id =
      some (.object earlier.length) := by
    unfold stateAfter
    rw [List.zipIdx_append, List.foldl_append, List.zipIdx_cons, List.foldl_cons, zero_add]
    exact registered_run hajv _ (registered_of_ok hajv hfirst hown hok)
  have hother : Owner.object earlier.length ≠ .object (earlier ++ first :: earlier').length := by
    rw [List.length_append, List.length_cons, Ne, Owner.object.injEq]
    omega
  obtain ⟨message, hrefused⟩ := hajv.refusesReuse _ (earlier ++ first :: earlier').length
    schema' id _ hown' hregistered hother
  refine ⟨message, ?_⟩
  rw [hargs] at hanswer
  unfold outcomeAfter executeFormDataExtraction
  simp only [hargs, hanswer, assertMatchesJsonSchema, hrefused]
  rfl

/-- In every run, a request that mentions no id an earlier one declares has the outcome it has
after any other requests of which that is true: its own arguments and the model decide it. -/
theorem requests_apart (ajv : Ajv N) (ids : SchemaIds N) (hajv : ajv.Documented ids)
    (earlier earlier' : List (FormRequest N)) (request : FormRequest N)
    (h : MentionsNone ids earlier request) (h' : MentionsNone ids earlier' request) :
    outcomeAfter ajv earlier request = outcomeAfter ajv earlier' request := by
  rw [outcome_fresh hajv h, outcome_fresh hajv h']

end Process

def ownId (schema : JsonObject N) : Option String :=
  match schema.lookup "$id" with
  | some (.string id) => some id
  | _ => none

/-- Checks that a value is an object, if that is the type it should have. -/
def checkType (schema : JsonObject N) (value : Value N) : Bool :=
  match schema.lookup "type", value with
  | some (.string "object"), .object _ => true
  | some (.string "object"), _ => false
  | _, _ => true

/-- What Ajv does with schemas of a `$id` and the type of an object. -/
def typeAjv (N : Type) : Ajv N where
  State := List (String × ℕ)
  new := []
  registered st id := (st.lookup id).map .object
  compile st object schema :=
    match ownId schema with
    | none => (st, .ok (checkType schema))
    | some id =>
      match st.lookup id with
      | none => ((id, object) :: st, .ok (checkType schema))
      | some owner =>
        if owner = object then (st, .ok (checkType schema))
        else (st, .error ("schema with key or id \"" ++ id ++ "\" already exists"))

def typeIds (N : Type) : SchemaIds N where
  own := ownId
  declares schema id := ownId schema = some id
  refersTo _ _ := False

theorem documented_typeAjv (N : Type) : (typeAjv N).Documented (typeIds N) := by
  refine ⟨?_, ?_, ?_, ?_⟩
  · intro (st : List (String × ℕ)) object schema id
    cases hown : ownId schema with
    | none => exact .inl (by simp [typeAjv, hown])
    | some own =>
      cases hlookup : st.lookup own with
      | none =>
        by_cases hid : id = own
        · subst hid
          exact .inr ⟨hown, by simp [typeAjv, hlookup], by simp [typeAjv, hown, hlookup]⟩
        · have hne : (id == own) = false := beq_eq_false_iff_ne.mpr hid
          exact .inl (by simp [typeAjv, hown, hlookup, List.lookup_cons, hne])
      | some owner =>
        left
        simp only [typeAjv, hown, hlookup]
        split_ifs
        · rfl
        · rfl
  · intro (st : List (String × ℕ)) object schema id validate hown hok
    have hown' : ownId schema = some id := hown
    cases hlookup : st.lookup id with
    | none => simp [typeAjv, hown', hlookup]
    | some owner =>
      by_cases howner : owner = object
      · simp [typeAjv, hown', hlookup, howner]
      · simp [typeAjv, hown', hlookup, howner] at hok
  · intro (st : List (String × ℕ)) object schema id owner hown hregistered hother
    have hown' : ownId schema = some id := hown
    obtain ⟨n, hlookup, rfl⟩ := Option.map_eq_some_iff.mp hregistered
    have hne : n ≠ object := fun hsame => hother (by rw [hsame])
    refine ⟨"schema with key or id \"" ++ id ++ "\" already exists", ?_⟩
    simp [typeAjv, hown', hlookup, hne]
  · intro (st : List (String × ℕ)) object object' schema hsame
    cases hown : ownId schema with
    | none => simp [typeAjv, hown]
    | some own =>
      have hnone := hsame own (.inl hown)
      have hlookup : st.lookup own = none := by simpa [typeAjv] using hnone
      simp [typeAjv, hown, hlookup]

/-- A request of a tenant under a schema with an `$id`, answered with a form. -/
def invoiceForm (tenantId id : String) : FormRequest ℕ where
  tenantId := tenantId
  markdown := "Invoice 7"
  args := .jsonSchema [("$id", .string id), ("type", .string "object")]
  complete _ := .ok ⟨[("number", .number 7)]⟩

theorem requests_apart_invoices :
    outcomeAfter (typeAjv ℕ) [invoiceForm "t1" "receipt"] (invoiceForm "t2" "invoice") =
      outcomeAfter (typeAjv ℕ) [] (invoiceForm "t2" "invoice") := by
  refine requests_apart (typeAjv ℕ) (typeIds ℕ) (documented_typeAjv ℕ) _ _ _ ?_ ?_
  · intro e he schema schema' hargs hargs' id hdeclares hmentions
    obtain rfl := List.mem_singleton.mp he
    cases hargs
    cases hargs'
    have hreceipt : some "receipt" = some id := hdeclares
    rcases hmentions with hinvoice | hnone
    · have hinvoice' : some "invoice" = some id := hinvoice
      rw [← hreceipt] at hinvoice'
      exact absurd hinvoice' (by decide)
    · exact hnone
  · intro e he
    exact absurd he List.not_mem_nil

/-- Two tenants come with schemas of one `$id`, and the second is refused. -/
theorem second_tenant_refused : ¬ ∀ (ajv : Ajv ℕ) (ids : SchemaIds ℕ), ajv.Documented ids →
    ∀ (earlier earlier' : List (FormRequest ℕ)) (request : FormRequest ℕ),
      (∀ e ∈ request :: earlier ++ earlier', ∀ schema, e.args = .jsonSchema schema →
        jsonSchemaIssues (fun n : ℕ => toString n) schema = []) →
      outcomeAfter ajv earlier request = outcomeAfter ajv earlier' request := by
  intro hall
  have haccepted : ∀ e ∈ [invoiceForm "t2" "invoice", invoiceForm "t1" "invoice"],
      ∀ schema, e.args = .jsonSchema schema →
        jsonSchemaIssues (fun n : ℕ => toString n) schema = [] := by
    have hissues : jsonSchemaIssues (fun n : ℕ => toString n)
        [("$id", .string "invoice"), ("type", .string "object")] = [] := by decide +kernel
    intro e he schema hargs
    simp only [List.mem_cons, List.not_mem_nil, or_false] at he
    rcases he with rfl | rfl
    · cases hargs
      exact hissues
    · cases hargs
      exact hissues
  have hsame := hall (typeAjv ℕ) (typeIds ℕ) (documented_typeAjv ℕ) [invoiceForm "t1" "invoice"] []
    (invoiceForm "t2" "invoice") haccepted
  cases hsame

end HeirsOcr.FormData
