import HeirsOcr.ObjectSchema
import HeirsOcr.ReviewBar

/-!
# A receipt's score under the caller's names

The score of a receipt is computed from the object the caller is sent, so the verdict, the
warnings and the fields are read back through the field map. What is read under a name is what
the projection wrote there last.
-/
namespace HeirsOcr.ReceiptConfidence
open Confidence JsRecord KeyedTable ObjectSchema ReceiptProjection

def Scalar.json : Scalar → Json.Value ℚ
  | .undefined | .null => .null
  | .string s => .string s
  | .number q => .number q

def recordJson (o : Record Scalar) : Json.Value ℚ :=
  .object (o.rows.map fun entry => (entry.1, Scalar.json entry.2))

/-- A value as its tree, where nothing is made of `undefined` that is not made of null. -/
def Value.json : Value → Json.Value ℚ
  | .scalar s => Scalar.json s
  | .object o => recordJson o
  | .items os => .array (os.map recordJson)
  | .strings ss => .array (ss.map .string)

/-- The fields a receipt is parsed for, and their labels. -/
def KEY_FIELDS : List (String × String) :=
  [("merchant.name", "merchant name"), ("dateTime", "date"), ("total", "total"),
    ("lineItems", "line items")]

def failedReason : String := "Receipt totals do not reconcile."

/-- What a record has under a canonical path. -/
def valueAt (output : Record Value) (path : String) : Value :=
  match path.toList.splitOn '.' with
  | [] => .scalar .undefined
  | [head] => (JsRecord.get output (String.ofList head)).getD (.scalar .undefined)
  | head :: tail :: _ =>
    match JsRecord.get output (String.ofList head) with
    | some (.object o) => .scalar ((JsRecord.get o (String.ofList tail)).getD .undefined)
    | _ => .scalar .undefined

/-- A canonical field of a possibly projected receipt; none when the map did not select it. -/
def selectedReceiptField (output : Record Value) (fieldMap : Option ReceiptFieldMap)
    (path : String) : Option Value :=
  match fieldMap with
  | none => some (valueAt output path)
  | some map =>
    if path = LINE_ITEMS_PATH then
      let arrayName := JsRecord.get map LINE_ITEMS_PATH
      if arrayName.isSome ∨ 0 < (lineItemSubPaths map).length then
        some ((JsRecord.get output (arrayName.getD LINE_ITEMS_PATH)).getD (.scalar .undefined))
      else none
    else
      (JsRecord.get map path).map fun name =>
        (JsRecord.get output name).getD (.scalar .undefined)

def outputKey (fieldMap : Option ReceiptFieldMap) (field : String) : String :=
  fieldMap.elim field fun map => verdictKey map field

def readVerdict (output : Record Value) (fieldMap : Option ReceiptFieldMap) :
    ReceiptProjection.Confidence :=
  match JsRecord.get output (outputKey fieldMap "confidence") with
  | some (.scalar (.string "high")) => .high
  | _ => .low

/-- The warnings are cast, and a list wherever an output has them. -/
def readWarnings (output : Record Value) (fieldMap : Option ReceiptFieldMap) : List String :=
  match JsRecord.get output (outputKey fieldMap "warnings") with
  | some (.strings warnings) => warnings
  | _ => []

def readFields (output : Record Value) (fieldMap : Option ReceiptFieldMap) : Record Bool :=
  fromEntries (KEY_FIELDS.filterMap fun key =>
    (selectedReceiptField output fieldMap key.1).map fun value =>
      (key.2, isPresent (Value.json value)))

def assessReceiptParsing (output : Record Value) (fieldMap : Option ReceiptFieldMap) :
    ConfidenceAssessment :=
  scoreFrom
    ((verdictDeductions (readVerdict output fieldMap) (readWarnings output fieldMap)
      failedReason).map some ++ [completeness (readFields output fieldMap)])

def Selected (map : ReceiptFieldMap) (path : String) : Prop :=
  if path = LINE_ITEMS_PATH then ItemsSelected map else (JsRecord.get map path).isSome

instance (map : ReceiptFieldMap) (path : String) : Decidable (Selected map path) :=
  inferInstanceAs (Decidable (ite _ _ _))

/-- Whether the receipt itself has something at a path. -/
def present (result : ReceiptParsingResult) (path : String) : Bool :=
  isPresent (Value.json (scalarAt result path))

/-- The score of the receipt's own verdict and warnings, and of the key fields the map selects. -/
def ownAssessment (result : ReceiptParsingResult) (map : ReceiptFieldMap) : ConfidenceAssessment :=
  assess result.confidence result.warnings failedReason
    (fromEntries ((KEY_FIELDS.filter fun key => Selected map key.1).map fun key =>
      (key.2, present result key.1)))

/-- Without a map every key field is scored. -/
theorem assess_canonical (result : ReceiptParsingResult) :
    assessReceiptParsing result.record none = assess result.confidence result.warnings failedReason
      (fromEntries (KEY_FIELDS.map fun key => (key.2, present result key.1))) := by
  have hverdict : readVerdict result.record none = result.confidence := by
    obtain ⟨_, _, _, _, _, _, _, _, _, confidence, _⟩ := result
    cases confidence with
    | high => rfl
    | low => rfl
  unfold assessReceiptParsing assess
  rw [hverdict]
  rfl

/-- What the projection writes after the fields. -/
def LATE_PATHS : List String := LINE_ITEMS_PATH :: VERDICT_TYPES

/-- Names that leave the score alone: no high verdict shares its name with the warnings, and a key
field that shares its name with what is written after it is present when that is, and only then. -/
structure NamesHarmless (result : ReceiptParsingResult) (map : ReceiptFieldMap) : Prop where
  verdict : result.confidence = .high → verdictKey map "confidence" ≠ verdictKey map "warnings"
  fields : ∀ key ∈ KEY_FIELDS, ∀ late ∈ LATE_PATHS, ∀ name, (key.1, name) ∈ placed map →
    (late, name) ∈ placed map → present result late = present result key.1

section Names

variable {map : ReceiptFieldMap} {result : ReceiptParsingResult}

theorem mem_placed_late {path name : String} (h : (path, name) ∈ placed map)
    (hlate : path ∈ LATE_PATHS) :
    (path = LINE_ITEMS_PATH → ItemsSelected map) ∧ (JsRecord.get map path).getD path = name := by
  have hskipped : isSkipped path = true ∧ startsWithLineItem path = false := by
    rcases List.mem_cons.mp hlate with rfl | hverdict
    · exact isSkipped_lineItems
    · exact isSkipped_of_verdict hverdict
  rcases mem_placed.mp h with ⟨hmem, -⟩ | ⟨rfl, hdefault⟩
  · refine ⟨?_, getD_get_eq_iff.mpr (.inl hmem)⟩
    rintro rfl
    exact .inl (Option.isSome_iff_exists.mpr ⟨name, get_eq_some.mpr hmem⟩)
  · obtain ⟨hkind, hnone⟩ := mem_defaultNames.mp hdefault
    refine ⟨?_, getD_get_eq_iff.mpr (.inr ⟨rfl, hnone⟩)⟩
    rintro rfl
    rcases hkind with ⟨-, hselected⟩ | hverdict
    · exact hselected
    · simp [LINE_ITEMS_PATH, VERDICT_TYPES] at hverdict

theorem late_mem_placed {path : String} (hlate : path ∈ LATE_PATHS)
    (hselected : path = LINE_ITEMS_PATH → ItemsSelected map) :
    (path, (JsRecord.get map path).getD path) ∈ placed map := by
  rcases List.mem_cons.mp hlate with rfl | hverdict
  · simp [placed, hselected rfl]
  · refine List.mem_append_right _ (List.mem_map.mpr ⟨path, hverdict, rfl⟩)

theorem mem_map_of_placed {path name : String} (hplaced : (path, name) ∈ placed map)
    (hnotLate : path ∉ LATE_PATHS) : (path, name) ∈ map := by
  rcases mem_placed.mp hplaced with ⟨hmem, -⟩ | ⟨rfl, hdefault⟩
  · exact hmem
  · refine absurd ?_ hnotLate
    rcases (mem_defaultNames.mp hdefault).1 with ⟨rfl, -⟩ | hverdict
    · exact List.mem_cons_self
    · exact List.mem_cons_of_mem _ hverdict

/-- No three paths have one name: the map gives a name once, and only one path is its own name. -/
theorem placed_shared (h : receiptFieldMapIssues map = []) {path path' path'' name : String}
    (hpath : (path, name) ∈ placed map) (hpath' : (path', name) ∈ placed map)
    (hpath'' : (path'', name) ∈ placed map) : path = path' ∨ path' = path'' ∨ path = path'' := by
  have hmap {p p' : String} (hp : (p, name) ∈ map) (hp' : (p', name) ∈ map) : p = p' :=
    congrArg Prod.fst (List.inj_on_of_nodup_map (names_nodup h) hp hp' rfl)
  rcases mem_placed.mp hpath with ⟨hmem, -⟩ | ⟨hown, -⟩
  · rcases mem_placed.mp hpath' with ⟨hmem', -⟩ | ⟨hown', -⟩
    · exact .inl (hmap hmem hmem')
    · rcases mem_placed.mp hpath'' with ⟨hmem'', -⟩ | ⟨hown'', -⟩
      · exact .inr (.inr (hmap hmem hmem''))
      · exact .inr (.inl (hown'.trans hown''.symm))
  · rcases mem_placed.mp hpath' with ⟨hmem', -⟩ | ⟨hown', -⟩
    · rcases mem_placed.mp hpath'' with ⟨hmem'', -⟩ | ⟨hown'', -⟩
      · exact .inr (.inl (hmap hmem' hmem''))
      · exact .inr (.inr (hown.trans hown''.symm))
    · exact .inl (hown.trans hown'.symm)

/-- The value the projection has for a path. -/
def placedValue (map : ReceiptFieldMap) (result : ReceiptParsingResult) (path : String) : Value :=
  if path = LINE_ITEMS_PATH then
    .items (result.lineItems.map (projectItem (lineItemSubPaths map)))
  else scalarAt result path

theorem placedValue_confidence :
    placedValue map result "confidence" = .scalar (.string result.confidence.text) := by
  rw [placedValue, if_neg (by decide)]
  rfl

theorem placedValue_warnings : placedValue map result "warnings" = .strings result.warnings := by
  rw [placedValue, if_neg (by decide)]
  rfl

theorem placedValue_of_kept {path : String} (hkept : isSkipped path = false) :
    placedValue map result path = scalarAt result path := by
  apply if_neg
  rintro rfl
  rw [isSkipped_lineItems.1] at hkept
  cases hkept

theorem projectedEntries_eq_placed (h : receiptFieldMapIssues map = []) :
    projectedEntries result map =
      (placed map).map fun entry => (entry.2, placedValue map result entry.1) := by
  have hkept : (map.rows.filter fun entry => !isSkipped entry.1).map (fun entry =>
      (entry.2, scalarAt result entry.1)) =
      (map.rows.filter fun entry => !isSkipped entry.1).map fun entry =>
        (entry.2, placedValue map result entry.1) := by
    apply List.map_congr_left
    intro entry hentry
    rw [placedValue_of_kept (by simpa using (List.mem_filter.mp hentry).2)]
  have hitems : placedValue map result LINE_ITEMS_PATH =
      .items (result.lineItems.map (projectItem (lineItemSubPaths map))) := if_pos rfl
  simp only [projectedEntries, placed, itemsSelected_iff h, List.map_append, hkept]
  congr 1
  · congr 1
    split_ifs
    · rw [List.map_singleton, hitems]
    · rfl
  · simp only [VERDICT_TYPES, List.map_cons, List.map_nil, placedValue_confidence,
      placedValue_warnings]

/-- To project the items leaves as many of them. -/
theorem isPresent_placedValue (path : String) :
    isPresent (Value.json (placedValue map result path)) = present result path := by
  unfold placedValue present
  split_ifs with hpath
  · subst hpath
    show decide (0 < (List.map recordJson _).length) = decide (0 < (List.map recordJson _).length)
    simp
  · rfl

/-- A name has the value of the last entry placed under it. -/
theorem get_projectReceipt (h : receiptFieldMapIssues map = []) {last name : String}
    (hlast : (placed map).reverse.find? (fun entry => entry.2 = name) = some (last, name)) :
    JsRecord.get (projectReceipt result map) name = some (placedValue map result last) := by
  rw [projectReceipt, get_fromEntries, projectedEntries_eq_placed h, ← List.map_reverse,
    List.find?_map]
  show (((placed map).reverse.find? fun entry => decide (entry.2 = name)).map _).map _ = _
  rw [hlast]
  rfl

theorem not_placed_of_verdict {name : String}
    (hnone : (VERDICT_TYPES.map fun field => (field, verdictKey map field)).reverse.find?
      (fun entry => entry.2 = name) = none) {field : String} (hfield : field ∈ VERDICT_TYPES) :
    (field, name) ∉ placed map := by
  intro hplaced
  have hkey := (mem_placed_late hplaced (List.mem_cons_of_mem _ hfield)).2
  have hne := List.find?_eq_none.mp hnone (field, verdictKey map field)
    (List.mem_reverse.mpr (List.mem_map_of_mem hfield))
  exact hne (decide_eq_true hkey)

/-- The last entry under the name of a field or of the items is its own, or one that is written
later, over any other of these. -/
theorem last_placed (h : receiptFieldMapIssues map = []) {path last name : String}
    (hpath : (path, name) ∈ placed map) (hfield : path = LINE_ITEMS_PATH ∨ path ∉ LATE_PATHS)
    (hlast : (placed map).reverse.find? (fun entry => entry.2 = name) = some (last, name)) :
    (last = path ∨ last ∈ LATE_PATHS) ∧
      ∀ late ∈ LATE_PATHS, (late, name) ∈ placed map → late = path ∨ late = last := by
  have hmem : (last, name) ∈ placed map := List.mem_reverse.mp (List.mem_of_find?_eq_some hlast)
  simp only [placed, List.reverse_append, List.find?_append, Option.or_eq_some_iff] at hlast
  rcases hlast with hverdict | ⟨hnone, hitems | ⟨hnoItems, hkept⟩⟩
  · have hlate : last ∈ VERDICT_TYPES := by
      obtain ⟨field, hfield, heq⟩ := List.mem_map.mp
        (List.mem_reverse.mp (List.mem_of_find?_eq_some hverdict))
      cases heq
      exact hfield
    refine ⟨.inr (List.mem_cons_of_mem _ hlate), fun late _ hplaced => ?_⟩
    have hne : path ≠ last := by
      rintro rfl
      rcases hfield with rfl | hnotLate
      · simp [LINE_ITEMS_PATH, VERDICT_TYPES] at hlate
      · exact hnotLate (List.mem_cons_of_mem _ hlate)
    rcases placed_shared h hpath hmem hplaced with heq | heq | heq
    · exact absurd heq hne
    · exact .inr heq.symm
    · exact .inl heq.symm
  · have hlate : last = LINE_ITEMS_PATH := by
      have hitem := List.mem_reverse.mp (List.mem_of_find?_eq_some hitems)
      split_ifs at hitem
      · exact congrArg Prod.fst (List.mem_singleton.mp hitem)
      · exact absurd hitem List.not_mem_nil
    subst hlate
    refine ⟨.inr List.mem_cons_self, fun late hlate hplaced => ?_⟩
    rcases List.mem_cons.mp hlate with rfl | hverdict
    · exact .inr rfl
    · exact absurd hplaced (not_placed_of_verdict hnone hverdict)
  · have hlate (late : String) (hlate : late ∈ LATE_PATHS) : (late, name) ∉ placed map := by
      intro hplaced
      rcases List.mem_cons.mp hlate with rfl | hverdict
      · obtain ⟨hselected, hkey⟩ := mem_placed_late hplaced List.mem_cons_self
        rw [if_pos (hselected rfl)] at hnoItems
        simp [hkey] at hnoItems
      · exact not_placed_of_verdict hnone hverdict hplaced
    have hfromMap {p : String} (hp : (p, name) ∈ placed map) : (p, name) ∈ map :=
      mem_map_of_placed hp fun hmem' => hlate p hmem' hp
    have hlast : last = path := congrArg Prod.fst
      (List.inj_on_of_nodup_map (names_nodup h) (hfromMap hmem) (hfromMap hpath) rfl)
    exact ⟨.inl hlast, fun late hmem' hplaced => absurd hplaced (hlate late hmem')⟩

/-- Under the name of a field or of the items is what was placed there last. -/
theorem read_placed (h : receiptFieldMapIssues map = []) {path name : String}
    (hpath : (path, name) ∈ placed map) (hfield : path = LINE_ITEMS_PATH ∨ path ∉ LATE_PATHS) :
    ∃ last, (last, name) ∈ placed map ∧ (last = path ∨ last ∈ LATE_PATHS) ∧
      (∀ late ∈ LATE_PATHS, (late, name) ∈ placed map → late = path ∨ late = last) ∧
      JsRecord.get (projectReceipt result map) name = some (placedValue map result last) := by
  have hentries : (placed map).reverse.find? (fun entry => entry.2 = name) ≠ none := by
    intro hnone
    have hne := List.find?_eq_none.mp hnone _ (List.mem_reverse.mpr hpath)
    simp at hne
  obtain ⟨⟨last, name'⟩, hlast⟩ := Option.ne_none_iff_exists'.mp hentries
  obtain rfl : name' = name := by simpa using List.find?_some hlast
  obtain ⟨hkind, hlate⟩ := last_placed h hpath hfield hlast
  exact ⟨last, List.mem_reverse.mp (List.mem_of_find?_eq_some hlast), hkind, hlate,
    get_projectReceipt h hlast⟩

end Names

section Read

variable {map : ReceiptFieldMap} {result : ReceiptParsingResult}

theorem get_verdictKey (name : String)
    (h : verdictKey map "warnings" = name ∨ verdictKey map "confidence" = name) :
    JsRecord.get (projectReceipt result map) name =
      if verdictKey map "warnings" = name then some (.strings result.warnings)
      else some (.scalar (.string result.confidence.text)) := by
  rw [projectReceipt, get_fromEntries, projectedEntries, List.reverse_append]
  show Option.map Prod.snd (List.find? _ ((verdictKey map "warnings", _) ::
    (verdictKey map "confidence", _) :: _)) = _
  by_cases hwarnings : verdictKey map "warnings" = name
  · simp [hwarnings]
  · have hconfidence := h.resolve_left hwarnings
    simp [hwarnings, hconfidence]

theorem readWarnings_eq :
    readWarnings (projectReceipt result map) (some map) = result.warnings := by
  show (match JsRecord.get (projectReceipt result map) (verdictKey map "warnings") with
    | some (.strings warnings) => warnings
    | _ => []) = _
  rw [get_verdictKey _ (.inl rfl), if_pos rfl]

theorem readVerdict_eq : readVerdict (projectReceipt result map) (some map) =
    if verdictKey map "confidence" = verdictKey map "warnings" then .low
    else result.confidence := by
  show (match JsRecord.get (projectReceipt result map) (verdictKey map "confidence") with
    | some (.scalar (.string "high")) => ReceiptProjection.Confidence.high
    | _ => .low) = _
  rw [get_verdictKey _ (.inr rfl)]
  by_cases hsame : verdictKey map "warnings" = verdictKey map "confidence"
  · rw [if_pos hsame, if_pos hsame.symm]
  · rw [if_neg hsame, if_neg fun heq => hsame heq.symm]
    cases result.confidence with
    | high => rfl
    | low => rfl

theorem key_spec {key : String × String} (hkey : key ∈ KEY_FIELDS) :
    startsWithLineItem key.1 = false ∧ (key.1 = LINE_ITEMS_PATH ∨ key.1 ∉ LATE_PATHS) ∧
      Json.arrayIndex? key.2 = none := by
  revert key
  decide +kernel

theorem selected_placed (h : receiptFieldMapIssues map = []) {key : String × String}
    (hkey : key ∈ KEY_FIELDS) (hselected : Selected map key.1) :
    ∃ name, (key.1, name) ∈ placed map ∧
      selectedReceiptField (projectReceipt result map) (some map) key.1 =
        some ((JsRecord.get (projectReceipt result map) name).getD (.scalar .undefined)) := by
  have hnotItem := (key_spec hkey).1
  unfold Selected at hselected
  unfold selectedReceiptField
  dsimp only
  split_ifs at hselected ⊢ with hpath hitems
  · rw [hpath]
    exact ⟨_, late_mem_placed List.mem_cons_self fun _ => hselected, rfl⟩
  · exact absurd ((itemsSelected_iff h).mp hselected) hitems
  · obtain ⟨name, hname⟩ := Option.isSome_iff_exists.mp hselected
    refine ⟨name, mem_placed.mpr (.inl ⟨get_eq_some.mp hname, hnotItem⟩), ?_⟩
    rw [hname, Option.map_some]

theorem selected_of_placed {key : String × String} {name : String} (hkey : key ∈ KEY_FIELDS)
    (hplaced : (key.1, name) ∈ placed map) : Selected map key.1 := by
  unfold Selected
  rcases (key_spec hkey).2.1 with hitems | hnotLate
  · rw [if_pos hitems]
    rw [hitems] at hplaced
    exact (mem_placed_late hplaced List.mem_cons_self).1 rfl
  · have hne : key.1 ≠ LINE_ITEMS_PATH := by
      intro hitems
      rw [hitems] at hnotLate
      exact hnotLate List.mem_cons_self
    rw [if_neg hne]
    have hmem := mem_map_of_placed hplaced hnotLate
    exact Option.isSome_iff_exists.mpr ⟨name, get_eq_some.mpr hmem⟩

theorem selectedReceiptField_isSome (h : receiptFieldMapIssues map = []) (output : Record Value)
    {path : String} :
    (selectedReceiptField output (some map) path).isSome = true ↔ Selected map path := by
  unfold selectedReceiptField Selected
  dsimp only
  by_cases hpath : path = LINE_ITEMS_PATH
  · rw [if_pos hpath, if_pos hpath, itemsSelected_iff h]
    split_ifs with hitems
    · simp [hitems]
    · simp [hitems]
  · rw [if_neg hpath, if_neg hpath, Option.isSome_map]

/-- Whether a key field is reported present is right exactly when what is written over it, if
anything is, is present like the field. -/
theorem read_present (h : receiptFieldMapIssues map = []) {key : String × String}
    (hkey : key ∈ KEY_FIELDS) (hselected : Selected map key.1) :
    ∃ value, selectedReceiptField (projectReceipt result map) (some map) key.1 = some value ∧
      (isPresent (Value.json value) = present result key.1 ↔
        ∀ late ∈ LATE_PATHS, ∀ name, (key.1, name) ∈ placed map → (late, name) ∈ placed map →
          present result late = present result key.1) := by
  obtain ⟨name, hplaced, hread⟩ := @selected_placed map result h key hkey hselected
  obtain ⟨last, hlast, hkind, honly, hget⟩ :=
    @read_placed map result h key.1 name hplaced (key_spec hkey).2.1
  refine ⟨_, hread, ?_⟩
  rw [hget, Option.getD_some, isPresent_placedValue]
  constructor
  · intro hsame late hlate name' hplaced' hlate'
    obtain rfl : name' = name := congrArg Prod.snd
      (List.inj_on_of_nodup_map placed_paths_nodup hplaced' hplaced rfl)
    rcases honly late hlate hlate' with rfl | rfl
    · rfl
    · exact hsame
  · intro hlate
    rcases hkind with rfl | hlast'
    · rfl
    · exact hlate last hlast' name hplaced hlast

/-- The record of the key fields that the map selects. -/
def foundBy (map : ReceiptFieldMap) (found : String × String → Bool) : Record Bool :=
  fromEntries ((KEY_FIELDS.filter fun key => Selected map key.1).map fun key =>
    (key.2, found key))

theorem readFields_eq (h : receiptFieldMapIssues map = []) (output : Record Value) :
    readFields output (some map) = foundBy map fun key =>
      ((selectedReceiptField output (some map) key.1).map fun value =>
        isPresent (Value.json value)).getD false := by
  unfold readFields foundBy
  rw [← List.filterMap_eq_map, List.filterMap_filter]
  congr 1
  apply List.filterMap_congr
  intro key _
  have hselected := @selectedReceiptField_isSome map h output key.1
  cases hread : selectedReceiptField output (some map) key.1 with
  | none =>
    rw [hread] at hselected
    rw [if_neg (by simpa using hselected), Option.map_none]
  | some value =>
    rw [hread] at hselected
    rw [if_pos (by simpa using hselected), Option.map_some]
    simp [hread]

theorem missingLabels_foundBy (found : String × String → Bool) :
    missingLabels (foundBy map found) =
      ((KEY_FIELDS.filter fun key => Selected map key.1).filter fun key => !found key).map
        Prod.snd := by
  have hlabels : (((KEY_FIELDS.filter fun key => Selected map key.1).map fun key =>
      (key.2, found key)).map Prod.fst).Nodup := by
    rw [List.map_map]
    exact (List.filter_sublist.map _).nodup (by decide : (KEY_FIELDS.map Prod.snd).Nodup)
  have horder : Json.propertyOrder ((KEY_FIELDS.filter fun key => Selected map key.1).map fun key =>
      (key.2, found key)) =
      (KEY_FIELDS.filter fun key => Selected map key.1).map fun key => (key.2, found key) := by
    apply Json.propertyOrder_eq_self
    intro entry hentry
    obtain ⟨key, hkey, rfl⟩ := List.mem_map.mp hentry
    exact (key_spec (List.mem_of_mem_filter hkey)).2.2
  rw [missingLabels, foundBy, rows_fromEntries hlabels, horder, List.filter_map, List.map_map]
  rfl

theorem cons_append_ne {α : Type} {a : α} {l l' : List α} (ha : a ∉ l') (w : List α) :
    a :: (w ++ l) ≠ w ++ l' := by
  induction w with
  | nil =>
    rintro rfl
    exact ha List.mem_cons_self
  | cons b w ih =>
    intro heq
    obtain ⟨rfl, hrest⟩ := List.cons.inj heq
    exact ih hrest

/-- The text of a list of missing labels tells which they are. -/
theorem missing_text_injective {missing missing' : List String}
    (h : missing ∈ (KEY_FIELDS.map Prod.snd).sublists)
    (h' : missing' ∈ (KEY_FIELDS.map Prod.snd).sublists)
    (htext : "Not found on the document: " ++ ", ".intercalate missing ++ "." =
      "Not found on the document: " ++ ", ".intercalate missing' ++ ".") : missing = missing' := by
  have hnodup : ((KEY_FIELDS.map Prod.snd).sublists.map fun missing =>
      "Not found on the document: " ++ ", ".intercalate missing ++ ".").Nodup := by decide +kernel
  exact List.inj_on_of_nodup_map hnodup h h' htext

theorem failedReason_ne (missing : List String) :
    failedReason ≠ "Not found on the document: " ++ ", ".intercalate missing ++ "." := by
  intro heq
  have hfirst := congrArg (fun s : String => s.toList.head?) heq
  simp [failedReason] at hfirst

theorem missingLabels_mem_sublists (found : String × String → Bool) :
    missingLabels (foundBy map found) ∈ (KEY_FIELDS.map Prod.snd).sublists := by
  rw [missingLabels_foundBy, List.mem_sublists]
  exact (List.filter_sublist.trans List.filter_sublist).map _

theorem mem_missingLabels {found : String × String → Bool} {key : String × String}
    (hkey : key ∈ KEY_FIELDS) (hselected : Selected map key.1) :
    key.2 ∈ missingLabels (foundBy map found) ↔ found key = false := by
  rw [missingLabels_foundBy, List.mem_map]
  constructor
  · rintro ⟨key', hkey', hlabel⟩
    obtain ⟨hkept, hmissing⟩ := List.mem_filter.mp hkey'
    have hsame : key' = key := List.inj_on_of_nodup_map
      (by decide : (KEY_FIELDS.map Prod.snd).Nodup) (List.mem_of_mem_filter hkept) hkey hlabel
    simpa [hsame] using hmissing
  · intro hmissing
    refine ⟨key, List.mem_filter.mpr ⟨List.mem_filter.mpr ⟨hkey, ?_⟩, ?_⟩, rfl⟩
    · exact decide_eq_true hselected
    · simp [hmissing]

theorem missingLabels_eq_of_reasons {found found' : String × String → Bool}
    (h : (if missingLabels (foundBy map found) = [] then []
        else ["Not found on the document: " ++
          ", ".intercalate (missingLabels (foundBy map found)) ++ "."]) =
      if missingLabels (foundBy map found') = [] then []
        else ["Not found on the document: " ++
          ", ".intercalate (missingLabels (foundBy map found')) ++ "."]) :
    missingLabels (foundBy map found) = missingLabels (foundBy map found') := by
  split_ifs at h with hnone hnone'
  · rw [hnone, hnone']
  · exact missing_text_injective (missingLabels_mem_sublists found)
      (missingLabels_mem_sublists found') (List.singleton_inj.mp h)

/-- Two scores with the same warnings agree when their verdicts and their fields do. -/
theorem assess_foundBy_iff {verdict verdict' : ReceiptProjection.Confidence}
    {warnings : List String} {found found' : String × String → Bool} :
    assess verdict warnings failedReason (foundBy map found) =
        assess verdict' warnings failedReason (foundBy map found') ↔
      verdict = verdict' ∧ ∀ key ∈ KEY_FIELDS, Selected map key.1 → found key = found' key := by
  constructor
  · intro hscore
    have hreasons := congrArg ConfidenceAssessment.reasons hscore
    rw [assess_reasons, assess_reasons] at hreasons
    have hnotFailed (missing : List String) : failedReason ∉ if missing = [] then []
        else ["Not found on the document: " ++ ", ".intercalate missing ++ "."] := by
      split_ifs
      · exact List.not_mem_nil
      · rw [List.mem_singleton]
        exact failedReason_ne missing
    have hverdict : verdict = verdict' := by
      cases verdict with
      | high =>
        cases verdict' with
        | high => rfl
        | low => exact absurd hreasons.symm (cons_append_ne (hnotFailed _) warnings)
      | low =>
        cases verdict' with
        | high => exact absurd hreasons (cons_append_ne (hnotFailed _) warnings)
        | low => rfl
    subst hverdict
    have hmissing := missingLabels_eq_of_reasons
      (List.append_cancel_left (List.append_cancel_left hreasons))
    refine ⟨rfl, fun key hkey hselected => ?_⟩
    have hiff : found key = false ↔ found' key = false := by
      rw [← mem_missingLabels hkey hselected, hmissing, mem_missingLabels hkey hselected]
    rw [Bool.eq_iff_iff, ← not_iff_not, Bool.not_eq_true, Bool.not_eq_true]
    exact hiff
  · rintro ⟨rfl, hfound⟩
    have hfields : foundBy map found = foundBy map found' := by
      unfold foundBy
      congr 1
      apply List.map_congr_left
      intro key hkey
      rw [hfound key (List.mem_of_mem_filter hkey) (by simpa using (List.mem_filter.mp hkey).2)]
    rw [hfields]

end Read

/-- A receipt's score under an accepted map is the receipt's own exactly when the names are
harmless; so two maps that select the same key fields under harmless names give one score. -/
theorem own_score_iff (map : ReceiptFieldMap) (h : receiptFieldMapIssues map = [])
    (result : ReceiptParsingResult) :
    (assessReceiptParsing (projectReceipt result map) (some map) = ownAssessment result map ↔
      NamesHarmless result map) ∧
    ∀ map', receiptFieldMapIssues map' = [] →
      (∀ key ∈ KEY_FIELDS, Selected map key.1 ↔ Selected map' key.1) →
        NamesHarmless result map → NamesHarmless result map' →
          assessReceiptParsing (projectReceipt result map) (some map) =
            assessReceiptParsing (projectReceipt result map') (some map') := by
  have hiff (map : ReceiptFieldMap) (h : receiptFieldMapIssues map = []) :
      assessReceiptParsing (projectReceipt result map) (some map) = ownAssessment result map ↔
        NamesHarmless result map := by
    unfold assessReceiptParsing ownAssessment
    rw [readWarnings_eq, readVerdict_eq, readFields_eq h, ← assess, ← foundBy, assess_foundBy_iff]
    have hverdict : (if verdictKey map "confidence" = verdictKey map "warnings" then .low
        else result.confidence) = result.confidence ↔
        (result.confidence = .high → verdictKey map "confidence" ≠ verdictKey map "warnings") := by
      cases result.confidence with
      | high => split_ifs <;> simp_all
      | low => simp
    rw [hverdict]
    constructor
    · rintro ⟨hhigh, hfound⟩
      refine ⟨hhigh, fun key hkey late hlate name hname hlate' => ?_⟩
      by_cases hselected : Selected map key.1
      · obtain ⟨value, hread, hpresent⟩ := @read_present map result h key hkey hselected
        have hsame := hfound key hkey hselected
        rw [hread, Option.map_some, Option.getD_some] at hsame
        exact hpresent.mp hsame late hlate name hname hlate'
      · exact absurd (selected_of_placed hkey hname) hselected
    · intro hharmless
      refine ⟨hharmless.verdict, fun key hkey hselected => ?_⟩
      obtain ⟨value, hread, hpresent⟩ := @read_present map result h key hkey hselected
      rw [hread, Option.map_some, Option.getD_some]
      exact hpresent.mpr (hharmless.fields key hkey)
  refine ⟨hiff map h, fun map' h' hsame hharmless hharmless' => ?_⟩
  have hown : ownAssessment result map = ownAssessment result map' := by
    have hfilter : (KEY_FIELDS.filter fun key => Selected map key.1) =
        KEY_FIELDS.filter fun key => Selected map' key.1 := by
      apply List.filter_congr
      intro key hkey
      exact decide_eq_decide.mpr (hsame key hkey)
    rw [ownAssessment, ownAssessment, hfilter]
  rw [(hiff map h).mpr hharmless, (hiff map' h').mpr hharmless', hown]

theorem own_score_amountDue :
    assessReceiptParsing (projectReceipt receipt amountDue) (some amountDue) =
      ownAssessment receipt amountDue := by
  refine (own_score_iff amountDue (by decide +kernel) receipt).1.mpr ⟨by decide +kernel, ?_⟩
  have hnames : ∀ own ∈ placed amountDue, ∀ other ∈ placed amountDue, own.2 = other.2 →
      own = other := by decide +kernel
  intro key _ late _ name hkey hlate
  have hsame := hnames _ hkey _ hlate rfl
  rw [congrArg Prod.fst hsame]

/-- `{ "total": "confidence" }` on a receipt without a total: the verdict is taken for it. -/
theorem missing_total_found : ¬ ∀ (map : ReceiptFieldMap), receiptFieldMapIssues map = [] →
    ∀ result : ReceiptParsingResult,
      assessReceiptParsing (projectReceipt result map) (some map) = ownAssessment result map := by
  intro hall
  let map : ReceiptFieldMap := ⟨[("total", "confidence")], by simp⟩
  have hsame := hall map (by decide +kernel) { receipt with total := none }
  exact absurd hsame (by decide +kernel)

end HeirsOcr.ReceiptConfidence
