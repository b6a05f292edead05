import HeirsOcr.JsRecord
import Mathlib.Data.Rat.Defs

/-!
# A receipt under the caller's names

A field map selects fields of a receipt by their canonical paths and gives each a name of the
caller's. The schema refuses a map that gives two fields one name. The projection adds the
verdict and, when only fields of the items are selected, the array of the items, under names
of its own that the schema does not look at.
-/
namespace HeirsOcr.ReceiptProjection
open JsRecord KeyedTable

structure Merchant where
  name : Option String
  address : Option String
  tin : Option String
  deriving DecidableEq, Repr

structure LineItem where
  description : String
  qty : Option ℚ
  unitPrice : Option ℚ
  total : Option ℚ
  deriving DecidableEq, Repr

inductive Confidence where
  | high | low
  deriving DecidableEq, Repr

structure ReceiptParsingResult where
  merchant : Merchant
  dateTime : Option String
  currency : Option String
  lineItems : List LineItem
  subtotal : Option ℚ
  tax : Option ℚ
  tip : Option ℚ
  total : Option ℚ
  paymentMethod : Option String
  confidence : Confidence
  warnings : List String
  deriving DecidableEq, Repr

inductive Scalar where
  | undefined | null
  | string (s : String)
  | number (q : ℚ)
  deriving DecidableEq, Repr

inductive Value where
  | scalar (s : Scalar)
  | object (o : Record Scalar)
  | items (os : List (Record Scalar))
  | strings (ss : List String)

def Scalar.ofString (s : Option String) : Scalar := s.elim .null .string

def Scalar.ofNumber (q : Option ℚ) : Scalar := q.elim .null .number

def Confidence.text : Confidence → String
  | .high => "high"
  | .low => "low"

def Merchant.record (merchant : Merchant) : Record Scalar where
  rows := [("name", .ofString merchant.name), ("address", .ofString merchant.address),
    ("tin", .ofString merchant.tin)]
  nodup := by simp

def LineItem.record (item : LineItem) : Record Scalar where
  rows := [("description", .string item.description), ("qty", .ofNumber item.qty),
    ("unitPrice", .ofNumber item.unitPrice), ("total", .ofNumber item.total)]
  nodup := by simp

def ReceiptParsingResult.record (result : ReceiptParsingResult) : Record Value where
  rows := [("merchant", .object result.merchant.record),
    ("dateTime", .scalar (.ofString result.dateTime)),
    ("currency", .scalar (.ofString result.currency)),
    ("lineItems", .items (result.lineItems.map LineItem.record)),
    ("subtotal", .scalar (.ofNumber result.subtotal)),
    ("tax", .scalar (.ofNumber result.tax)),
    ("tip", .scalar (.ofNumber result.tip)),
    ("total", .scalar (.ofNumber result.total)),
    ("paymentMethod", .scalar (.ofString result.paymentMethod)),
    ("confidence", .scalar (.string result.confidence.text)),
    ("warnings", .strings result.warnings)]
  nodup := by simp

def SCALAR_TYPES : List String :=
  ["merchant.name", "merchant.address", "merchant.tin", "dateTime", "currency", "subtotal", "tax",
    "tip", "total", "paymentMethod"]

def LINE_ITEM_TYPES : List String := ["description", "qty", "unitPrice", "total"]

def VERDICT_TYPES : List String := ["confidence", "warnings"]

def LINE_ITEMS_PATH : String := "lineItems"

def LINE_ITEM_PREFIX : String := LINE_ITEMS_PATH ++ "."

def RECEIPT_FIELD_PATHS : List String :=
  SCALAR_TYPES ++ [LINE_ITEMS_PATH] ++ LINE_ITEM_TYPES.map (LINE_ITEM_PREFIX ++ ·) ++ VERDICT_TYPES

def MAX_OUTPUT_NAME_LENGTH : ℕ := 64

def RESERVED_NAMES : List String := ["__proto__", "constructor", "prototype"]

def isNameStart (c : Char) : Bool :=
  'A' ≤ c && c ≤ 'Z' || 'a' ≤ c && c ≤ 'z' || c = '_'

/-- `OUTPUT_NAME_PATTERN`. -/
def outputNamePattern (name : String) : Bool :=
  name.toList.head?.any isNameStart &&
    name.toList.all fun c => isNameStart c || '0' ≤ c && c ≤ '9'

def nameLength (name : String) : ℕ :=
  (name.toList.map fun c => if c.toNat < 0x10000 then 1 else 2).sum

inductive FieldMapIssue where
  | tooSmall (path : String) (minimum : ℕ)
  | tooBig (path : String) (maximum : ℕ)
  | invalidFormat (path message : String)
  | custom (path : List String) (message : String)
  deriving DecidableEq, Repr

abbrev ReceiptFieldMap := Record String

def outputNameIssues (path name : String) : List FieldMapIssue :=
  (if nameLength name < 1 then [.tooSmall path 1] else []) ++
  (if MAX_OUTPUT_NAME_LENGTH < nameLength name then [.tooBig path MAX_OUTPUT_NAME_LENGTH]
    else []) ++
  (if outputNamePattern name then []
    else [.invalidFormat path
      "Field names must start with a letter or underscore and contain only [A-Za-z0-9_]"])

def entryIssues (path name : String) : List FieldMapIssue :=
  (if path ∈ RECEIPT_FIELD_PATHS then []
    else [.custom [path] ("Unknown receipt field '" ++ path ++ "'. Valid fields: " ++
      ", ".intercalate RECEIPT_FIELD_PATHS)]) ++
  (if name ∈ RESERVED_NAMES then [.custom [path] ("'" ++ name ++ "' is a reserved field name")]
    else [])

/-- The paths of each name. -/
def byName (entries : List (String × String)) : Record (List String) :=
  entries.foldl (fun names entry =>
    JsRecord.set names entry.2 ((JsRecord.get names entry.2).getD [] ++ [entry.1])) ∅

def duplicateIssues (names : Record (List String)) : List FieldMapIssue :=
  names.rows.flatMap fun entry =>
    if 1 < entry.2.length then
      [.custom [] ("Duplicate output name '" ++ entry.1 ++ "' for fields " ++
        ", ".intercalate entry.2)]
    else []

/-- What `receiptFieldMapSchema` has against a map. -/
def receiptFieldMapIssues (map : ReceiptFieldMap) : List FieldMapIssue :=
  map.rows.flatMap (fun entry => outputNameIssues entry.1 entry.2) ++
  (if map.rows.length = 0 then [.custom [] "fieldMap must select at least one field"] else []) ++
  map.rows.flatMap (fun entry => entryIssues entry.1 entry.2) ++
  duplicateIssues (byName map.rows)

def startsWithLineItem (path : String) : Bool :=
  LINE_ITEM_PREFIX.toList.isPrefixOf path.toList

def lineItemSubPaths (map : ReceiptFieldMap) : List (String × String) :=
  (map.rows.filter fun entry => startsWithLineItem entry.1).map fun entry =>
    (String.ofList (entry.1.toList.drop LINE_ITEM_PREFIX.length), entry.2)

/-- The root's property, or that of the object under it when there is a second component. -/
def scalarAt (result : ReceiptParsingResult) (path : String) : Value :=
  match path.toList.splitOn '.' with
  | [] => .scalar .undefined
  | [head] => (JsRecord.get result.record (String.ofList head)).getD (.scalar .undefined)
  | head :: tail :: _ =>
    match JsRecord.get result.record (String.ofList head) with
    | some (.object o) => .scalar ((JsRecord.get o (String.ofList tail)).getD .undefined)
    | _ => .scalar .undefined

def verdictKey (map : ReceiptFieldMap) (field : String) : String :=
  (JsRecord.get map field).getD field

def projectItem (subs : List (String × String)) (item : LineItem) : Record Scalar :=
  if subs.length = 0 then item.record
  else fromEntries (subs.map fun sub =>
    (sub.2, (JsRecord.get item.record sub.1).getD .undefined))

/-- Whether the projection leaves a path out of its loop over the map. -/
def isSkipped (path : String) : Bool :=
  path = LINE_ITEMS_PATH || startsWithLineItem path || path ∈ VERDICT_TYPES

/-- The entries of the projection, in the order they are pushed. -/
def projectedEntries (result : ReceiptParsingResult) (map : ReceiptFieldMap) :
    List (String × Value) :=
  let subs := lineItemSubPaths map
  let arrayName := JsRecord.get map LINE_ITEMS_PATH
  ((map.rows.filter fun entry => !isSkipped entry.1).map fun entry =>
    (entry.2, scalarAt result entry.1)) ++
  (if arrayName.isSome ∨ 0 < subs.length then
    [(arrayName.getD LINE_ITEMS_PATH, .items (result.lineItems.map (projectItem subs)))]
    else []) ++
  [(verdictKey map "confidence", .scalar (.string result.confidence.text)),
    (verdictKey map "warnings", .strings result.warnings)]

def projectReceipt (result : ReceiptParsingResult) (map : ReceiptFieldMap) : Record Value :=
  fromEntries (projectedEntries result map)

/-- The value of a path outside of the line items. -/
def ReceiptParsingResult.canonical (result : ReceiptParsingResult) : String → Scalar
  | "merchant.name" => .ofString result.merchant.name
  | "merchant.address" => .ofString result.merchant.address
  | "merchant.tin" => .ofString result.merchant.tin
  | "dateTime" => .ofString result.dateTime
  | "currency" => .ofString result.currency
  | "subtotal" => .ofNumber result.subtotal
  | "tax" => .ofNumber result.tax
  | "tip" => .ofNumber result.tip
  | "total" => .ofNumber result.total
  | "paymentMethod" => .ofString result.paymentMethod
  | _ => .undefined

def LineItem.canonical (item : LineItem) : String → Scalar
  | "description" => .string item.description
  | "qty" => .ofNumber item.qty
  | "unitPrice" => .ofNumber item.unitPrice
  | "total" => .ofNumber item.total
  | _ => .undefined

/-- The items are in the output when they are selected, or a field of theirs is. -/
def ItemsSelected (map : ReceiptFieldMap) : Prop :=
  (JsRecord.get map LINE_ITEMS_PATH).isSome ∨
    ∃ field ∈ LINE_ITEM_TYPES, (JsRecord.get map (LINE_ITEM_PREFIX ++ field)).isSome

instance (map : ReceiptFieldMap) : Decidable (ItemsSelected map) :=
  inferInstanceAs (Decidable (_ ∨ _))

/-- An item has its selected fields under their names, and all of them when none is selected. -/
structure ItemDelivered (map : ReceiptFieldMap) (item : LineItem) (out : Record Scalar) : Prop where
  selected : ∀ field ∈ LINE_ITEM_TYPES, ∀ name ∈ JsRecord.get map (LINE_ITEM_PREFIX ++ field),
    JsRecord.get out name = some (item.canonical field)
  whole : (∀ field ∈ LINE_ITEM_TYPES, JsRecord.get map (LINE_ITEM_PREFIX ++ field) = none) →
    ∀ field ∈ LINE_ITEM_TYPES, JsRecord.get out field = some (item.canonical field)

/-- Nothing the map selects, nor the verdict, is missing from the output or overwritten. -/
structure Lossless (result : ReceiptParsingResult) (map : ReceiptFieldMap) : Prop where
  fields : ∀ path ∈ SCALAR_TYPES, ∀ name ∈ JsRecord.get map path,
    JsRecord.get (projectReceipt result map) name = some (.scalar (result.canonical path))
  items : ItemsSelected map → ∃ items,
    JsRecord.get (projectReceipt result map)
      ((JsRecord.get map LINE_ITEMS_PATH).getD LINE_ITEMS_PATH) = some (.items items) ∧
    List.Forall₂ (ItemDelivered map) result.lineItems items
  confidence : JsRecord.get (projectReceipt result map) (verdictKey map "confidence") =
    some (.scalar (.string result.confidence.text))
  warnings : JsRecord.get (projectReceipt result map) (verdictKey map "warnings") =
    some (.strings result.warnings)
  distinct : ((projectedEntries result map).map Prod.fst).Nodup

/-- The names the projection uses of its own accord. -/
def defaultNames (map : ReceiptFieldMap) : List String :=
  (if ItemsSelected map then [LINE_ITEMS_PATH] else []).filter (JsRecord.get map · = none) ++
    VERDICT_TYPES.filter (JsRecord.get map · = none)

/-- No name of the map, outside of the items, is one the projection uses of its own accord. -/
def NoDefaultTaken (map : ReceiptFieldMap) : Prop :=
  ∀ entry ∈ map.rows, startsWithLineItem entry.1 = false → entry.2 ∉ defaultNames map

instance (map : ReceiptFieldMap) : Decidable (NoDefaultTaken map) :=
  inferInstanceAs (Decidable (∀ entry ∈ map.rows, _ → _))

section Schema

variable {map : ReceiptFieldMap}

theorem path_mem_of_accepted (h : receiptFieldMapIssues map = []) {entry : String × String}
    (hentry : entry ∈ map.rows) : entry.1 ∈ RECEIPT_FIELD_PATHS := by
  simp only [receiptFieldMapIssues, List.append_eq_nil_iff, List.flatMap_eq_nil_iff] at h
  have hnone := (h.1.2 entry hentry)
  by_contra hpath
  simp [entryIssues, hpath] at hnone

theorem getD_get_byName (entries : List (String × String)) (name : String) :
    (JsRecord.get (byName entries) name).getD [] =
      (entries.filter fun entry => entry.2 = name).map Prod.fst := by
  induction entries using List.reverseRecOn with
  | nil => rfl
  | append_singleton rest entry ih =>
    rw [byName, List.foldl_append, List.foldl_cons, List.foldl_nil, ← byName, get_set,
      List.filter_append, List.map_append, ← ih]
    by_cases hname : entry.2 = name
    · subst hname
      simp
    · simp [hname]

/-- An accepted map gives no name twice. -/
theorem names_nodup (h : receiptFieldMapIssues map = []) : (map.rows.map Prod.snd).Nodup := by
  have hdup : duplicateIssues (byName map.rows) = [] := by
    rw [receiptFieldMapIssues, List.append_eq_nil_iff] at h
    exact h.2
  rw [List.nodup_iff_count_le_one]
  intro name
  have hcount : (map.rows.map Prod.snd).count name =
      ((JsRecord.get (byName map.rows) name).getD []).length := by
    rw [getD_get_byName, List.length_map, ← List.countP_eq_length_filter, List.count,
      List.countP_map]
    congr 1
  rw [hcount]
  cases hget : JsRecord.get (byName map.rows) name with
  | none => simp
  | some paths =>
    have hone := List.flatMap_eq_nil_iff.mp hdup _ (get_eq_some.mp hget)
    by_contra hmany
    simp [show 1 < paths.length by simpa using hmany] at hone

end Schema

theorem scalarAt_eq (result : ReceiptParsingResult) {path : String} (h : path ∈ SCALAR_TYPES) :
    scalarAt result path = .scalar (result.canonical path) := by
  simp only [SCALAR_TYPES, List.mem_cons, List.not_mem_nil, or_false] at h
  rcases h with rfl | rfl | rfl | rfl | rfl | rfl | rfl | rfl | rfl | rfl
  all_goals rfl

theorem get_record_eq (item : LineItem) {field : String} (h : field ∈ LINE_ITEM_TYPES) :
    JsRecord.get item.record field = some (item.canonical field) := by
  simp only [LINE_ITEM_TYPES, List.mem_cons, List.not_mem_nil, or_false] at h
  rcases h with rfl | rfl | rfl | rfl
  all_goals rfl

/-- How the projection takes each path there is. -/
theorem paths_taken :
    (∀ path ∈ SCALAR_TYPES, isSkipped path = false) ∧
    (∀ path ∈ RECEIPT_FIELD_PATHS, startsWithLineItem path = true ↔
      String.ofList (path.toList.drop LINE_ITEM_PREFIX.length) ∈ LINE_ITEM_TYPES ∧
        path = LINE_ITEM_PREFIX ++ String.ofList (path.toList.drop LINE_ITEM_PREFIX.length)) ∧
    (∀ field ∈ LINE_ITEM_TYPES, startsWithLineItem (LINE_ITEM_PREFIX ++ field) = true ∧
      String.ofList ((LINE_ITEM_PREFIX ++ field).toList.drop LINE_ITEM_PREFIX.length) = field) ∧
    (∀ path ∈ LINE_ITEMS_PATH :: VERDICT_TYPES,
      isSkipped path = true ∧ startsWithLineItem path = false) ∧
    (LINE_ITEMS_PATH :: VERDICT_TYPES).Nodup := by
  decide +kernel

theorem isSkipped_of_mem {path : String} (h : path ∈ SCALAR_TYPES) : isSkipped path = false :=
  paths_taken.1 path h

/-- The paths that start like one of an item are those of its fields. -/
theorem startsWithLineItem_iff {path : String} (h : path ∈ RECEIPT_FIELD_PATHS) :
    startsWithLineItem path = true ↔
      String.ofList (path.toList.drop LINE_ITEM_PREFIX.length) ∈ LINE_ITEM_TYPES ∧
        path = LINE_ITEM_PREFIX ++ String.ofList (path.toList.drop LINE_ITEM_PREFIX.length) :=
  paths_taken.2.1 path h

theorem sub_of_field {field : String} (h : field ∈ LINE_ITEM_TYPES) :
    startsWithLineItem (LINE_ITEM_PREFIX ++ field) = true ∧
      String.ofList ((LINE_ITEM_PREFIX ++ field).toList.drop LINE_ITEM_PREFIX.length) = field :=
  paths_taken.2.2.1 field h

section Names

variable {map : ReceiptFieldMap} {result : ReceiptParsingResult}

theorem mem_lineItemSubPaths (h : receiptFieldMapIssues map = []) {field name : String} :
    (field, name) ∈ lineItemSubPaths map ↔
      field ∈ LINE_ITEM_TYPES ∧ (LINE_ITEM_PREFIX ++ field, name) ∈ map := by
  simp only [lineItemSubPaths, List.mem_map, List.mem_filter, Prod.mk.injEq]
  constructor
  · rintro ⟨⟨path, name'⟩, ⟨hmem, hstarts⟩, rfl, rfl⟩
    obtain ⟨hfield, hpath⟩ := (startsWithLineItem_iff (path_mem_of_accepted h hmem)).mp hstarts
    exact ⟨hfield, hpath ▸ hmem⟩
  · rintro ⟨hfield, hmem⟩
    obtain ⟨hstarts, hsub⟩ := sub_of_field hfield
    exact ⟨_, ⟨hmem, hstarts⟩, hsub, rfl⟩

theorem itemsSelected_iff (h : receiptFieldMapIssues map = []) :
    ItemsSelected map ↔
      (JsRecord.get map LINE_ITEMS_PATH).isSome ∨ 0 < (lineItemSubPaths map).length := by
  rw [ItemsSelected, List.length_pos_iff_exists_mem]
  refine or_congr_right ⟨?_, ?_⟩
  · rintro ⟨field, hfield, hsome⟩
    obtain ⟨name, hname⟩ := Option.isSome_iff_exists.mp hsome
    exact ⟨(field, name), (mem_lineItemSubPaths h).mpr ⟨hfield, get_eq_some.mp hname⟩⟩
  · rintro ⟨⟨field, name⟩, hmem⟩
    obtain ⟨hfield, hname⟩ := (mem_lineItemSubPaths h).mp hmem
    exact ⟨field, hfield, Option.isSome_iff_exists.mpr ⟨name, get_eq_some.mpr hname⟩⟩

/-- The paths of the entries of the projection beside their names. -/
def placed (map : ReceiptFieldMap) : List (String × String) :=
  map.rows.filter (fun entry => !isSkipped entry.1) ++
  (if ItemsSelected map then
    [(LINE_ITEMS_PATH, (JsRecord.get map LINE_ITEMS_PATH).getD LINE_ITEMS_PATH)] else []) ++
  VERDICT_TYPES.map fun field => (field, verdictKey map field)

theorem projectedEntries_names (h : receiptFieldMapIssues map = []) :
    (projectedEntries result map).map Prod.fst = (placed map).map Prod.snd := by
  simp only [projectedEntries, placed, ← itemsSelected_iff h]
  split_ifs
  · simp [VERDICT_TYPES, Function.comp_def]
  · simp [VERDICT_TYPES, Function.comp_def]

theorem isSkipped_of_verdict {field : String} (h : field ∈ VERDICT_TYPES) :
    isSkipped field = true ∧ startsWithLineItem field = false :=
  paths_taken.2.2.2.1 field (List.mem_cons_of_mem _ h)

theorem isSkipped_lineItems :
    isSkipped LINE_ITEMS_PATH = true ∧ startsWithLineItem LINE_ITEMS_PATH = false :=
  paths_taken.2.2.2.1 LINE_ITEMS_PATH List.mem_cons_self

theorem placed_paths_nodup : ((placed map).map Prod.fst).Nodup := by
  have hrows : ((map.rows.filter fun entry => !isSkipped entry.1).map Prod.fst).Nodup :=
    (List.filter_sublist.map _).nodup map.nodup
  have hfree : ∀ path ∈ (map.rows.filter fun entry => !isSkipped entry.1).map Prod.fst,
      isSkipped path = false := by
    simp only [List.mem_map, List.mem_filter, Bool.not_eq_true']
    rintro path ⟨entry, ⟨-, hfree⟩, rfl⟩
    exact hfree
  have hverdict : ∀ path ∈ VERDICT_TYPES, isSkipped path = true :=
    fun path hpath => (isSkipped_of_verdict hpath).1
  have hown : (LINE_ITEMS_PATH :: VERDICT_TYPES).Nodup := paths_taken.2.2.2.2
  rw [placed, List.append_assoc, List.map_append, List.nodup_append]
  split_ifs with hselected
  · have htail : (([(LINE_ITEMS_PATH, (JsRecord.get map LINE_ITEMS_PATH).getD LINE_ITEMS_PATH)] ++
        VERDICT_TYPES.map fun field => (field, verdictKey map field)).map Prod.fst) =
        LINE_ITEMS_PATH :: VERDICT_TYPES := by simp [Function.comp_def]
    rw [htail]
    refine ⟨hrows, hown, fun path hpath path' hpath' hsame => ?_⟩
    have hskipped : isSkipped path' = true := by
      rcases List.mem_cons.mp hpath' with rfl | hpath'
      · exact isSkipped_lineItems.1
      · exact hverdict _ hpath'
    simp [← hsame, hfree path hpath] at hskipped
  · have htail : (([] ++ VERDICT_TYPES.map fun field => (field, verdictKey map field)).map
        Prod.fst) = VERDICT_TYPES := by simp [Function.comp_def]
    rw [htail]
    refine ⟨hrows, hown.of_cons, fun path hpath path' hpath' hsame => ?_⟩
    have hskipped := hverdict path' hpath'
    simp [← hsame, hfree path hpath] at hskipped

/-- The name of a path that has a default: the map's, or the path itself. -/
theorem getD_get_eq_iff {path name : String} :
    (JsRecord.get map path).getD path = name ↔
      (path, name) ∈ map ∨ path = name ∧ JsRecord.get map path = none := by
  rw [← get_eq_some]
  cases JsRecord.get map path with
  | none => simp
  | some name' => simp

theorem mem_defaultNames {name : String} : name ∈ defaultNames map ↔
    (name = LINE_ITEMS_PATH ∧ ItemsSelected map ∨ name ∈ VERDICT_TYPES) ∧
      JsRecord.get map name = none := by
  simp only [defaultNames, List.mem_append, List.mem_filter, decide_eq_true_eq]
  split_ifs with hselected
  · simp [hselected, or_and_right]
  · simp [hselected]

/-- An entry is named by the map or, when the map leaves it out, by its own path. -/
theorem mem_placed {path name : String} :
    (path, name) ∈ placed map ↔
      (path, name) ∈ map ∧ startsWithLineItem path = false ∨
        path = name ∧ name ∈ defaultNames map := by
  have hplaced : (path, name) ∈ placed map ↔
      (path, name) ∈ map ∧ isSkipped path = false ∨
        (path = LINE_ITEMS_PATH ∧ ItemsSelected map ∨ path ∈ VERDICT_TYPES) ∧
          (JsRecord.get map path).getD path = name := by
    simp only [placed, List.mem_append, List.mem_filter, Bool.not_eq_true', List.mem_map,
      Prod.mk.injEq, Table.mem_def, or_assoc, or_and_right]
    refine or_congr_right (or_congr ?_ ?_)
    · split_ifs with hselected
      · simp only [List.mem_singleton, Prod.mk.injEq, hselected, and_true]
        constructor
        · rintro ⟨rfl, rfl⟩
          exact ⟨rfl, rfl⟩
        · rintro ⟨rfl, rfl⟩
          exact ⟨rfl, rfl⟩
      · simp [hselected]
    · constructor
      · rintro ⟨field, hfield, rfl, rfl⟩
        exact ⟨hfield, rfl⟩
      · rintro ⟨hfield, hname⟩
        exact ⟨path, hfield, rfl, hname⟩
  rw [hplaced, getD_get_eq_iff, mem_defaultNames]
  constructor
  · rintro (⟨hmem, hfree⟩ | ⟨hkind, hmem | ⟨rfl, hnone⟩⟩)
    · refine .inl ⟨hmem, ?_⟩
      by_contra hstarts
      simp [isSkipped, hstarts] at hfree
    · refine .inl ⟨hmem, ?_⟩
      rcases hkind with ⟨rfl, -⟩ | hverdict
      · exact isSkipped_lineItems.2
      · exact (isSkipped_of_verdict hverdict).2
    · exact .inr ⟨rfl, hkind, hnone⟩
  · rintro (⟨hmem, hstarts⟩ | ⟨rfl, hkind, hnone⟩)
    · by_cases hskipped : isSkipped path = true
      · refine .inr ⟨?_, .inl hmem⟩
        simp only [isSkipped, hstarts, Bool.or_false, Bool.or_eq_true, decide_eq_true_eq]
          at hskipped
        refine hskipped.imp_left fun hpath => ⟨hpath, .inl ?_⟩
        rw [← hpath, Option.isSome_iff_exists]
        exact ⟨name, get_eq_some.mpr hmem⟩
      · exact .inl ⟨hmem, by simpa using hskipped⟩
    · exact .inr ⟨hkind, .inr ⟨rfl, hnone⟩⟩

theorem distinct_iff (h : receiptFieldMapIssues map = []) :
    ((projectedEntries result map).map Prod.fst).Nodup ↔ NoDefaultTaken map := by
  have hplaced : (placed map).Nodup := List.Nodup.of_map _ placed_paths_nodup
  rw [projectedEntries_names h, List.nodup_map_iff_inj_on hplaced]
  constructor
  · rintro hinj ⟨path, name⟩ hmem hstarts hdefault
    have hown := mem_placed.mpr (.inl ⟨hmem, hstarts⟩)
    have hother := mem_placed.mpr (.inr ⟨rfl, hdefault⟩)
    have hsame := hinj _ hown _ hother rfl
    have hpath : path = name := congrArg Prod.fst hsame
    have hget : JsRecord.get map path = some name := get_eq_some.mpr hmem
    rw [hpath, (mem_defaultNames.mp hdefault).2] at hget
    cases hget
  · rintro hfree ⟨path, name⟩ hentry ⟨path', name'⟩ hentry' rfl
    rcases mem_placed.mp hentry with ⟨hmem, hstarts⟩ | ⟨rfl, hdefault⟩
    · rcases mem_placed.mp hentry' with ⟨hmem', -⟩ | ⟨rfl, hdefault⟩
      · exact List.inj_on_of_nodup_map (names_nodup h) hmem hmem' rfl
      · exact absurd hdefault (hfree _ hmem hstarts)
    · rcases mem_placed.mp hentry' with ⟨hmem', hstarts⟩ | ⟨rfl, -⟩
      · exact absurd hdefault (hfree _ hmem' hstarts)
      · rfl

end Names

section Output

variable {map : ReceiptFieldMap}

/-- Of the items, whether they are projected or not, none loses a field. -/
theorem itemDelivered (h : receiptFieldMapIssues map = []) (item : LineItem) :
    ItemDelivered map item (projectItem (lineItemSubPaths map) item) := by
  constructor
  · intro field hfield name hname
    have hmem : (field, name) ∈ lineItemSubPaths map :=
      (mem_lineItemSubPaths h).mpr ⟨hfield, get_eq_some.mp hname⟩
    have hsome : (lineItemSubPaths map).length ≠ 0 := by
      have hpos := List.length_pos_of_mem hmem
      omega
    have hnodup : ((lineItemSubPaths map).map Prod.snd).Nodup := by
      have hnames := (List.filter_sublist (p := fun entry => startsWithLineItem entry.1)).map
        Prod.snd |>.nodup (names_nodup h)
      simpa [lineItemSubPaths, Function.comp_def] using hnames
    rw [projectItem, if_neg hsome]
    apply get_fromEntries_of_mem
    · simpa [Function.comp_def] using hnodup
    · refine List.mem_map.mpr ⟨(field, name), hmem, ?_⟩
      rw [get_record_eq item hfield, Option.getD_some]
  · intro hnone field hfield
    have hempty : (lineItemSubPaths map).length = 0 := by
      rw [List.length_eq_zero_iff, List.eq_nil_iff_forall_not_mem]
      rintro ⟨field', name⟩ hmem
      obtain ⟨hfield', hmem⟩ := (mem_lineItemSubPaths h).mp hmem
      have hget := hnone field' hfield'
      rw [get_eq_some.mpr hmem] at hget
      cases hget
    rw [projectItem, if_pos hempty, get_record_eq item hfield]

/-- The projection of a receipt under an accepted map is lossless exactly when the map gives no
field outside of the items a name that the projection uses of its own accord. -/
theorem lossless_iff (map : ReceiptFieldMap) (h : receiptFieldMapIssues map = [])
    (result : ReceiptParsingResult) : Lossless result map ↔ NoDefaultTaken map := by
  constructor
  · intro hlossless
    exact (distinct_iff h).mp hlossless.distinct
  · intro hfree
    have hdistinct : ((projectedEntries result map).map Prod.fst).Nodup :=
      (distinct_iff h).mpr hfree
    have hdelivered {name : String} {value : Value}
        (hmem : (name, value) ∈ projectedEntries result map) :
        JsRecord.get (projectReceipt result map) name = some value :=
      get_fromEntries_of_mem hdistinct hmem
    refine ⟨?_, ?_, ?_, ?_, hdistinct⟩
    · intro path hpath name hname
      apply hdelivered
      have hrow : (path, name) ∈ map.rows.filter fun entry => !isSkipped entry.1 :=
        List.mem_filter.mpr ⟨get_eq_some.mp hname, by simp [isSkipped_of_mem hpath]⟩
      have hentry := List.mem_map_of_mem (f := fun entry => (entry.2, scalarAt result entry.1)) hrow
      rw [scalarAt_eq result hpath] at hentry
      simp only [projectedEntries, List.mem_append]
      exact .inl (.inl hentry)
    · intro hselected
      refine ⟨result.lineItems.map (projectItem (lineItemSubPaths map)), ?_, ?_⟩
      · apply hdelivered
        simp [projectedEntries, ← itemsSelected_iff h, hselected]
      · rw [List.forall₂_map_right_iff]
        exact List.forall₂_same.mpr fun item _ => itemDelivered h item
    · apply hdelivered
      simp [projectedEntries]
    · apply hdelivered
      simp [projectedEntries]

/-- A map with a name of its own for each thing. -/
def amountDue : ReceiptFieldMap := ⟨[("total", "amount_due")], by simp⟩

def receipt : ReceiptParsingResult where
  merchant := ⟨some "Mama Put", some "12 Awolowo Rd", some "TIN-001"⟩
  dateTime := some "2026-09-01T13:20:00"
  currency := some "NGN"
  lineItems := [⟨"Jollof Rice", some 2, some 1500, some 3000⟩]
  subtotal := some 3000
  tax := none
  tip := none
  total := some 3000
  paymentMethod := some "CASH"
  confidence := .low
  warnings := []

theorem lossless_amountDue : Lossless receipt amountDue :=
  (lossless_iff amountDue (by decide +kernel) receipt).mpr (by decide +kernel)

/-- `{ "total": "confidence" }`: accepted, and the verdict takes the total's name. -/
theorem total_lost : ¬ ∀ (map : ReceiptFieldMap), receiptFieldMapIssues map = [] →
    ∀ result : ReceiptParsingResult, Lossless result map := by
  intro hall
  have hfields := (hall ⟨[("total", "confidence")], by simp⟩ (by decide +kernel) receipt).fields
    "total" (by simp [SCALAR_TYPES]) "confidence" rfl
  cases hfields

end Output

end HeirsOcr.ReceiptProjection
