import HeirsOcr.ObjectSchema
import HeirsOcr.ReceiptProjection

/-!
# The schema of a projected receipt

The pipeline checks what a function returns against a schema, and for a projected receipt the
schema is built from the caller's field map too. The projection and the schema go through the map
apart from each other and must meet: the type under each name is that of the value which came to
stand there, names that the map and the projection share included.
-/
namespace HeirsOcr.ReceiptSchema
open JsRecord KeyedTable ObjectSchema ReceiptProjection

/-- The types of the values that are not arrays; `missing` is where a table has no type. -/
inductive ScalarType where
  | string
  | number
  | enum (values : List String)
  | nullable (type : ScalarType)
  | missing
  deriving DecidableEq, Repr

def ScalarType.parse : ScalarType → Option Scalar → Option Scalar
  | .string, some (.string s) => some (.string s)
  | .number, some (.number q) => some (.number q)
  | .enum values, some (.string s) => if s ∈ values then some (.string s) else none
  | .nullable _, some .null => some .null
  | .nullable type, s => type.parse s
  | _, _ => none

inductive ZodType where
  | scalar (type : ScalarType)
  | object (shape : Record ScalarType)
  | objects (shape : Record ScalarType)
  | strings

/-- An array without items is one of objects and one of strings. -/
def ZodType.parse : ZodType → Option Value → Option Value
  | .scalar type, some (.scalar s) => (type.parse (some s)).map .scalar
  | .object shape, some (.object o) => (parseObject ScalarType.parse shape o).map .object
  | .objects shape, some (.items os) =>
    (os.mapM (parseObject ScalarType.parse shape)).map .items
  | .objects _, some (.strings []) => some (.strings [])
  | .strings, some (.strings ss) => some (.strings ss)
  | .strings, some (.items []) => some (.items [])
  | _, _ => none

def MERCHANT_TYPES : Record ScalarType where
  rows := [("name", .nullable .string), ("address", .nullable .string), ("tin", .nullable .string)]
  nodup := by simp

def SCALAR_TYPES : Record ScalarType where
  rows := [("merchant.name", .nullable .string), ("merchant.address", .nullable .string),
    ("merchant.tin", .nullable .string), ("dateTime", .nullable .string),
    ("currency", .nullable .string), ("subtotal", .nullable .number), ("tax", .nullable .number),
    ("tip", .nullable .number), ("total", .nullable .number), ("paymentMethod", .nullable .string)]
  nodup := by simp

def LINE_ITEM_TYPES : Record ScalarType where
  rows := [("description", .string), ("qty", .nullable .number), ("unitPrice", .nullable .number),
    ("total", .nullable .number)]
  nodup := by simp

def confidenceType : ZodType := .scalar (.enum ["high", "low"])

def receiptParsingResultSchema : Record ZodType where
  rows := [("merchant", .object MERCHANT_TYPES), ("dateTime", .scalar (.nullable .string)),
    ("currency", .scalar (.nullable .string)), ("lineItems", .objects LINE_ITEM_TYPES),
    ("subtotal", .scalar (.nullable .number)), ("tax", .scalar (.nullable .number)),
    ("tip", .scalar (.nullable .number)), ("total", .scalar (.nullable .number)),
    ("paymentMethod", .scalar (.nullable .string)), ("confidence", confidenceType),
    ("warnings", .strings)]
  nodup := by simp

def scalarType (path : String) : ScalarType := (get SCALAR_TYPES path).getD .missing

def lineItemType (sub : String) : ScalarType := (get LINE_ITEM_TYPES sub).getD .missing

def itemShape (subs : List (String × String)) : Record ScalarType :=
  if subs.length = 0 then LINE_ITEM_TYPES
  else fromEntries (subs.map fun sub => (sub.2, lineItemType sub.1))

/-- The entries of the shape, in the order they are set. -/
def schemaEntries (map : ReceiptFieldMap) : List (String × ZodType) :=
  let subs := lineItemSubPaths map
  let arrayName := JsRecord.get map LINE_ITEMS_PATH
  ((map.rows.filter fun entry => !isSkipped entry.1).map fun entry =>
    (entry.2, .scalar (scalarType entry.1))) ++
  (if arrayName.isSome ∨ 0 < subs.length then
    [(arrayName.getD LINE_ITEMS_PATH, .objects (itemShape subs))] else []) ++
  [(verdictKey map "confidence", confidenceType), (verdictKey map "warnings", .strings)]

def buildReceiptResultSchema : Option ReceiptFieldMap → Record ZodType
  | none => receiptParsingResultSchema
  | some map => fromEntries (schemaEntries map)

@[simp] theorem parse_ofString (s : Option String) :
    (ScalarType.nullable .string).parse (some (.ofString s)) = some (.ofString s) := by
  cases s <;> rfl

@[simp] theorem parse_ofNumber (q : Option ℚ) :
    (ScalarType.nullable .number).parse (some (.ofNumber q)) = some (.ofNumber q) := by
  cases q <;> rfl

theorem parse_confidence (confidence : Confidence) :
    confidenceType.parse (some (.scalar (.string confidence.text))) =
      some (.scalar (.string confidence.text)) := by
  cases confidence <;> rfl

theorem parse_canonical (result : ReceiptParsingResult) {path : String}
    (h : path ∈ ReceiptProjection.SCALAR_TYPES) :
    (scalarType path).parse (some (result.canonical path)) = some (result.canonical path) := by
  simp only [ReceiptProjection.SCALAR_TYPES, List.mem_cons, List.not_mem_nil, or_false] at h
  rcases h with rfl | rfl | rfl | rfl | rfl | rfl | rfl | rfl | rfl | rfl
  all_goals first
    | exact parse_ofString _
    | exact parse_ofNumber _

theorem parse_item (item : LineItem) {sub : String}
    (h : sub ∈ ReceiptProjection.LINE_ITEM_TYPES) :
    (lineItemType sub).parse (some (item.canonical sub)) = some (item.canonical sub) := by
  simp only [ReceiptProjection.LINE_ITEM_TYPES, List.mem_cons, List.not_mem_nil, or_false] at h
  rcases h with rfl | rfl | rfl | rfl
  · rfl
  all_goals exact parse_ofNumber _

theorem fits_item (item : LineItem) : Fits ScalarType.parse LINE_ITEM_TYPES item.record :=
  .cons ⟨rfl, rfl⟩ (.cons ⟨rfl, parse_ofNumber _⟩ (.cons ⟨rfl, parse_ofNumber _⟩
    (.cons ⟨rfl, parse_ofNumber _⟩ .nil)))

section Agreement

variable {map : ReceiptFieldMap}

/-- An entry of the projection beside its type: a name, the type and the value. -/
def typedEntries (result : ReceiptParsingResult) (map : ReceiptFieldMap) :
    List (String × ZodType × Value) :=
  let subs := lineItemSubPaths map
  let arrayName := JsRecord.get map LINE_ITEMS_PATH
  ((map.rows.filter fun entry => !isSkipped entry.1).map fun entry =>
    (entry.2, .scalar (scalarType entry.1), scalarAt result entry.1)) ++
  (if arrayName.isSome ∨ 0 < subs.length then
    [(arrayName.getD LINE_ITEMS_PATH, .objects (itemShape subs),
      .items (result.lineItems.map (projectItem subs)))] else []) ++
  [(verdictKey map "confidence", confidenceType, .scalar (.string result.confidence.text)),
    (verdictKey map "warnings", .strings, .strings result.warnings)]

theorem schemaEntries_eq (result : ReceiptParsingResult) (map : ReceiptFieldMap) :
    schemaEntries map = (typedEntries result map).map fun entry => (entry.1, entry.2.1) := by
  simp only [schemaEntries, typedEntries, List.map_append, List.map_map]
  split_ifs <;> rfl

theorem projectedEntries_eq (result : ReceiptParsingResult) (map : ReceiptFieldMap) :
    projectedEntries result map = (typedEntries result map).map fun entry =>
      (entry.1, entry.2.2) := by
  simp only [projectedEntries, typedEntries, List.map_append, List.map_map]
  split_ifs <;> rfl

/-- The paths of an accepted map that the loop over it keeps. -/
theorem mem_scalarTypes (h : receiptFieldMapIssues map = []) {entry : String × String}
    (hentry : entry ∈ map.rows) (hkept : isSkipped entry.1 = false) :
    entry.1 ∈ ReceiptProjection.SCALAR_TYPES := by
  have hpath := path_mem_of_accepted h hentry
  revert hkept
  generalize entry.1 = path at hpath
  revert path
  decide +kernel

theorem fits_projectItem (h : receiptFieldMapIssues map = []) (item : LineItem) :
    Fits ScalarType.parse (itemShape (lineItemSubPaths map))
      (projectItem (lineItemSubPaths map) item) := by
  by_cases hempty : (lineItemSubPaths map).length = 0
  · rw [itemShape, projectItem, if_pos hempty, if_pos hempty]
    exact fits_item item
  · have hentries : ∀ entry ∈ (lineItemSubPaths map).map (fun sub => (sub.2, lineItemType sub.1,
        (JsRecord.get item.record sub.1).getD .undefined)),
        entry.2.1.parse (some entry.2.2) = some entry.2.2 := by
      intro entry hentry
      obtain ⟨sub, hsub, rfl⟩ := List.mem_map.mp hentry
      have hfield := ((mem_lineItemSubPaths h).mp hsub).1
      simp only [get_record_eq item hfield, Option.getD_some]
      exact parse_item item hfield
    have hfits := fits_fromEntries hentries
    rw [List.map_map, List.map_map] at hfits
    rw [itemShape, projectItem, if_neg hempty, if_neg hempty]
    exact hfits

theorem parse_items (h : receiptFieldMapIssues map = []) (items : List LineItem) :
    (ZodType.objects (itemShape (lineItemSubPaths map))).parse
        (some (.items (items.map (projectItem (lineItemSubPaths map))))) =
      some (.items (items.map (projectItem (lineItemSubPaths map)))) := by
  have hall : List.Forall₂ (fun o o' =>
      parseObject ScalarType.parse (itemShape (lineItemSubPaths map)) o = some o')
      (items.map (projectItem (lineItemSubPaths map)))
      (items.map (projectItem (lineItemSubPaths map))) := by
    rw [List.forall₂_map_left_iff, List.forall₂_map_right_iff]
    exact List.forall₂_same.mpr fun item _ => (fits_projectItem h item).parseObject
  rw [ZodType.parse, mapM_of_forall₂ hall, Option.map_some]

/-- Each value of the projection is one that its type takes as it is. -/
theorem parse_typedEntries (h : receiptFieldMapIssues map = []) (result : ReceiptParsingResult) :
    ∀ entry ∈ typedEntries result map, entry.2.1.parse (some entry.2.2) = some entry.2.2 := by
  intro entry hentry
  simp only [typedEntries, List.mem_append, List.mem_map, List.mem_filter, Bool.not_eq_true',
    List.mem_cons, List.not_mem_nil, or_false] at hentry
  rcases hentry with (⟨row, ⟨hrow, hkept⟩, rfl⟩ | hitems) | rfl | rfl
  · have hpath := mem_scalarTypes h hrow hkept
    simp only [scalarAt_eq result hpath, ZodType.parse]
    rw [parse_canonical result hpath, Option.map_some]
  · split_ifs at hitems with hselected
    · obtain rfl := List.mem_singleton.mp hitems
      exact parse_items h result.lineItems
    · exact absurd hitems List.not_mem_nil
  · exact parse_confidence result.confidence
  · rfl

/-- The schema built from an accepted map takes the projection of any receipt as it is. -/
theorem projection_fits_schema (map : ReceiptFieldMap) (h : receiptFieldMapIssues map = [])
    (result : ReceiptParsingResult) :
    parseObject ZodType.parse (buildReceiptResultSchema (some map)) (projectReceipt result map) =
      some (projectReceipt result map) := by
  have hfits := fits_fromEntries (parse_typedEntries h result)
  rw [← schemaEntries_eq, ← projectedEntries_eq] at hfits
  exact hfits.parseObject

theorem projection_fits_schema_amountDue :
    parseObject ZodType.parse (buildReceiptResultSchema (some amountDue))
      (projectReceipt receipt amountDue) = some (projectReceipt receipt amountDue) :=
  projection_fits_schema amountDue (by decide +kernel) receipt

/-- Without a map the receipt itself is checked. -/
theorem receipt_fits_schema (result : ReceiptParsingResult) :
    parseObject ZodType.parse (buildReceiptResultSchema none) result.record =
      some result.record := by
  have hmerchant : Fits ScalarType.parse MERCHANT_TYPES result.merchant.record :=
    .cons ⟨rfl, parse_ofString _⟩ (.cons ⟨rfl, parse_ofString _⟩
      (.cons ⟨rfl, parse_ofString _⟩ .nil))
  have hitems : List.Forall₂ (fun o o' => parseObject ScalarType.parse LINE_ITEM_TYPES o = some o')
      (result.lineItems.map LineItem.record) (result.lineItems.map LineItem.record) := by
    rw [List.forall₂_map_left_iff, List.forall₂_map_right_iff]
    exact List.forall₂_same.mpr fun item _ => (fits_item item).parseObject
  have hfits : Fits ZodType.parse receiptParsingResultSchema result.record := by
    simp only [Fits, receiptParsingResultSchema, ReceiptParsingResult.record,
      List.forall₂_cons, List.forall₂_nil_left_iff, true_and, and_true, ZodType.parse,
      parse_ofString, parse_ofNumber, hmerchant.parseObject, mapM_of_forall₂ hitems,
      Option.map_some]
    exact parse_confidence result.confidence
  exact hfits.parseObject

end Agreement

end HeirsOcr.ReceiptSchema
