import HeirsOcr.JsRecord
import HeirsOcr.JsonMeasure
import HeirsOcr.NumberText

/-!
# The argument form

The console draws a form for the arguments of a function from their JSON Schema. Whatever is not
one value is typed as one line, cut at its commas. The form starts with the defaults, each as the
line a person would have typed, and its state becomes the arguments in one go, with a message for
every field that does not parse.
-/
namespace HeirsOcr.SchemaArgs
open Doubles NumberText JsText Json JsRecord

abbrev JsonValue := Value Double

/-- `type` -/
inductive TypeField where
  | one (t : String)
  | many (ts : List String)
  deriving DecidableEq

/-- A property of a schema; an empty list is one that is not there. -/
structure SchemaProp where
  type : Option TypeField := none
  default : Option JsonValue := none
  enum : Option (List JsonValue) := none
  minimum : Option Double := none
  maximum : Option Double := none
  minLength : Option ℕ := none
  maxLength : Option ℕ := none
  minItems : Option ℕ := none
  maxItems : Option ℕ := none
  items : Option SchemaProp := none
  prefixItems : List SchemaProp := []
  properties : Option (List (String × SchemaProp)) := none
  required : List String := []
  additionalProperties : Option SchemaProp := none

structure ObjectSchema where
  type : Option String := none
  properties : Option (List (String × SchemaProp)) := none
  required : List String := []
  anyOf : List ObjectSchema := []

/-- A line of text holds whatever is not a single value. -/
inductive Control where
  | enum (options : List (List Char))
  | switch
  | number (integer : Bool)
  | text
  | list
  | numbers (count : Option ℕ) (integer : Bool)
  | pairs
  | specs (types : List (List Char))
  | group (properties : List (String × SchemaProp)) (required : List String)

def joinLine (parts : List (List Char)) : List Char := [',', ' '].intercalate parts

def NULL : List Char := "null".toList

def boolText (b : Bool) : List Char := (toString b).toList

def OBJECT : List Char := "[object Object]".toList

mutual

/-- `String(value)` -/
def stringOf : JsonValue → List Char
  | .null => NULL
  | .bool b => boolText b
  | .number x => (Num.finite x).toText
  | .string s => s.toList
  | .array items => [','].intercalate (elementTexts items)
  | .object _ => OBJECT

def elementTexts : List JsonValue → List (List Char)
  | [] => []
  | .null :: rest => [] :: elementTexts rest
  | item :: rest => stringOf item :: elementTexts rest

end

/-- `Boolean(value)` -/
def truthy : JsonValue → Bool
  | .null => false
  | .bool b => b
  | .number x => x.val ≠ 0
  | .string s => s ≠ ""
  | .array _ | .object _ => true

/-- A member of a value, if it is an object that has it. -/
def memberOf (value : JsonValue) (key : String) : Option JsonValue :=
  match value with
  | .object members => members.lookup key
  | _ => none

def quoted (text : List Char) : String := "\"" ++ String.ofList text ++ "\""

def numberText (x : Double) : String := String.ofList (Num.finite x).toText

def propType (prop : SchemaProp) : Option String :=
  match prop.type with
  | none => none
  | some (.one t) => some t
  | some (.many ts) => ts.find? (· ≠ "null")

def isNumeric (prop : SchemaProp) : Bool :=
  propType prop = some "number" || propType prop = some "integer"

def specTypes (item : SchemaProp) : Option (List (List Char)) :=
  if propType item ≠ some "object" then none
  else do
    let properties ← item.properties
    let name ← properties.lookup "name"
    let type ← properties.lookup "type"
    if propType name ≠ some "string" then none
    else
      let options ← type.enum
      if options = [] then none else some (options.map stringOf)

/-- The control of a list. -/
def arrayControl (prop : SchemaProp) : Option Control :=
  if prop.prefixItems ≠ [] then
    if prop.prefixItems.all isNumeric then
      some (.numbers (some prop.prefixItems.length)
        (prop.prefixItems.all fun p => propType p = some "integer"))
    else none
  else
    match prop.items with
    | none => none
    | some item =>
      if propType item = some "string" ∨ item.enum.isSome then some .list
      else if isNumeric item then some (.numbers none (propType item = some "integer"))
      else (specTypes item).map .specs

/-- The control of a property that is not drawn as a group. -/
def fieldControl (prop : SchemaProp) : Option Control :=
  match prop.enum with
  | some options => some (.enum (options.map stringOf))
  | none =>
    if propType prop = some "boolean" then some .switch
    else if propType prop = some "number" then some (.number false)
    else if propType prop = some "integer" then some (.number true)
    else if propType prop = some "string" then some .text
    else if propType prop = some "array" then arrayControl prop
    else if propType prop = some "object" ∧ prop.properties.isNone then
      if prop.additionalProperties.any fun extra => propType extra = some "string" then some .pairs
      else none
    else none

/-- The properties of a group. One of them that has properties itself is a group or cannot be drawn,
and neither will do. -/
def groupProperties (prop : SchemaProp) : Option (List (String × SchemaProp)) :=
  if prop.enum.isNone ∧ propType prop = some "object" then
    prop.properties.filter fun children =>
      !children.isEmpty && children.all fun child => (fieldControl child.2).isSome
  else none

def controlFor (prop : SchemaProp) : Option Control :=
  match groupProperties prop with
  | some children => some (.group children prop.required)
  | none => fieldControl prop

def isDrawable (schema : ObjectSchema) : Bool :=
  let props := schema.properties.getD []
  !props.isEmpty && props.all fun prop => (controlFor prop.2).isSome

mutual

/-- The schema itself or the first branch that can be drawn. -/
def asObjectSchema : ObjectSchema → Option ObjectSchema
  | ⟨type, properties, required, anyOf⟩ =>
    if type = some "object" ∧ properties.isSome then some ⟨type, properties, required, anyOf⟩
    else firstDrawable anyOf

def firstDrawable : List ObjectSchema → Option ObjectSchema
  | [] => none
  | branch :: rest =>
    match (asObjectSchema branch).filter isDrawable with
    | some resolved => some resolved
    | none => firstDrawable rest

end

/-- The entries between the commas. -/
def splitEntries (text : List Char) : List (List Char) :=
  ((text.splitOnP (· == ',')).map trim).filter fun part => !part.isEmpty

/-- `member ?? fallback` -/
def orDefault (fallback : String) : Option JsonValue → JsonValue
  | none | some .null => .string fallback
  | some value => value

/-- A field spec as its entry. -/
def specText (spec : JsonValue) : List Char :=
  let name := orDefault "" (memberOf spec "name")
  let type := orDefault "string" (memberOf spec "type")
  (stringOf name ++ ':' :: ' ' :: stringOf type) ++
    if ((memberOf spec "required").map truthy).getD false then ['*'] else []

def pairText (key : List Char) (name : JsonValue) : List Char := key ++ ':' :: ' ' :: stringOf name

def toText (control : Control) : JsonValue → List Char
  | .null => []
  | value =>
    match control, value with
    | .list, .array items | .numbers _ _, .array items => joinLine (items.map stringOf)
    | .pairs, .object members => joinLine (members.map fun m => pairText m.1.toList m.2)
    | .pairs, .array items =>
      joinLine (items.mapIdx fun i item => pairText (toString i).toList item)
    | .pairs, _ => []
    | .specs _, .array specs => joinLine (specs.map specText)
    | .specs _, _ => []
    | _, value => stringOf value

/-- A value as the form holds it: `other` is anything that is not a text, a switch or missing, with
its text. -/
inductive Raw where
  | undefined
  | null
  | bool (b : Bool)
  | string (s : List Char)
  | other (text : List Char)
  deriving DecidableEq

/-- `String(raw)` -/
def Raw.toText : Raw → List Char
  | .undefined => "undefined".toList
  | .null => NULL
  | .bool b => boolText b
  | .string s => s
  | .other text => text

/-- The line a control reads; what is missing is an empty one. -/
def lineOf : Raw → List Char
  | .undefined | .null => []
  | raw => trim raw.toText

inductive Parsed where
  | omitted
  | value (v : JsonValue)
  | error (message : String)
  deriving DecidableEq

def parseText (prop : SchemaProp) (text : List Char) : Parsed :=
  match prop.minLength.filter (units text < ·) with
  | some n =>
    .error ("Needs at least " ++ toString n ++ " character" ++ (if n = 1 then "" else "s") ++ ".")
  | none =>
    match prop.maxLength.filter (· < units text) with
    | some n => .error ("Keep this to " ++ toString n ++ " characters or fewer.")
    | none => .value (.string (String.ofList text))

def parseNumber (prop : SchemaProp) (integer : Bool) (text : List Char) : Parsed :=
  match toNumber text with
  | .finite x =>
    if integer && !x.val.isInt then .error "Use a whole number."
    else
      match prop.minimum.filter (x.val < ·.val) with
      | some m => .error ("Must be " ++ numberText m ++ " or more.")
      | none =>
        match prop.maximum.filter (·.val < x.val) with
        | some m => .error ("Must be " ++ numberText m ++ " or less.")
        | none => .value (.number x)
  | _ => .error (quoted text ++ " is not a number.")

/-- Values that may be too many for the field. -/
def parseItems (prop : SchemaProp) (noun : String) (items : List JsonValue) : Parsed :=
  if items = [] then .omitted
  else
    match prop.maxItems.filter (· < items.length) with
    | some n => .error ("That is " ++ toString items.length ++ " " ++ noun ++ "; the limit is " ++
        toString n ++ ".")
    | none => .value (.array items)

def readNumber (integer : Bool) (entry : List Char) : Except String Double :=
  match toNumber entry with
  | .finite x =>
    if integer && !x.val.isInt then .error (quoted entry ++ " must be a whole number.") else .ok x
  | _ => .error (quoted entry ++ " is not a number.")

def parseNumbers (count : Option ℕ) (integer : Bool) (entries : List (List Char)) : Parsed :=
  match entries.mapM (readNumber integer) with
  | .error message => .error message
  | .ok numbers =>
    match count.filter (· ≠ numbers.length) with
    | some n => .error ("Enter " ++ toString n ++
        " numbers separated by a comma — for example \"1, 5\".")
    | none => .value (.array (numbers.map .number))

/-- What lies before and behind the first colon. -/
def atColon (entry : List Char) : Option (List Char × List Char) :=
  match entry.dropWhile (· ≠ ':') with
  | [] => none
  | _ :: after => some (entry.takeWhile (· ≠ ':'), after)

def readPair (entry : List Char) : Except String (String × String) :=
  match atColon entry with
  | none => .error ("Write each one as \"original: your name\" — " ++ quoted entry ++
      " has no colon.")
  | some (before, after) =>
    if trim before = [] ∨ trim after = [] then
      .error ("Write each one as \"original: your name\" — " ++ quoted entry ++ " is incomplete.")
    else .ok (String.ofList (trim before), String.ofList (trim after))

/-- The pairs as an object; setting `__proto__` to a text does nothing. -/
def mapOf (pairs : List (String × String)) : Record String :=
  fromEntries (pairs.filter (·.1 ≠ "__proto__"))

def parsePairs (entries : List (List Char)) : Parsed :=
  match entries.mapM readPair with
  | .error message => .error message
  | .ok pairs =>
    if (mapOf pairs).rows = [] then .omitted
    else .value (.object ((mapOf pairs).rows.map fun m => (m.1, .string m.2)))

structure FieldSpec where
  name : List Char
  type : List Char
  required : Bool
  deriving DecidableEq

/-- The mark at the end of a text, and the text without it. -/
def unstar (text : List Char) : Bool × List Char :=
  if text.getLast? = some '*' then (true, trim text.dropLast) else (false, text)

/-- A name and its type; a name alone has the first type. -/
def nameAndType (toLowerCase : List Char → List Char) (types : List (List Char))
    (body : List Char) : List Char × List Char :=
  match atColon body with
  | none => (body, types.headD [])
  | some (before, after) => (trim before, toLowerCase (trim after))

def checkSpec (types : List (List Char)) (entry : List Char) (spec : FieldSpec) :
    Except String FieldSpec :=
  if spec.name = [] then .error (quoted entry ++ " has no field name.")
  else if spec.type ∉ types then
    .error (quoted spec.type ++ " is not a type. Use " ++ String.ofList (joinLine types) ++ ".")
  else .ok spec

/-- One entry of a field list, with the mark on either side of the colon. -/
def readSpec (toLowerCase : List Char → List Char) (types : List (List Char)) (entry : List Char) :
    Except String FieldSpec :=
  let (marked, body) := unstar entry
  let (written, type) := nameAndType toLowerCase types body
  let (starred, name) := unstar written
  checkSpec types entry ⟨name, type, marked || starred⟩

def FieldSpec.value (spec : FieldSpec) : JsonValue :=
  .object ([("name", .string (String.ofList spec.name)),
      ("type", .string (String.ofList spec.type))] ++
    if spec.required then [("required", .bool true)] else [])

def parseSpecs (toLowerCase : List Char → List Char) (prop : SchemaProp)
    (types : List (List Char)) (entries : List (List Char)) : Parsed :=
  match entries.mapM (readSpec toLowerCase types) with
  | .error message => .error message
  | .ok specs => parseItems prop "fields" (specs.map FieldSpec.value)

/-- What a control makes of a line that is not empty. -/
def parseLine (toLowerCase : List Char → List Char) (control : Control) (prop : SchemaProp)
    (text : List Char) : Parsed :=
  match control with
  | .text => parseText prop text
  | .number integer => parseNumber prop integer text
  | .list => parseItems prop "entries" ((splitEntries text).map fun e => .string (String.ofList e))
  | .numbers count integer => parseNumbers count integer (splitEntries text)
  | .pairs => parsePairs (splitEntries text)
  | .specs types => parseSpecs toLowerCase prop types (splitEntries text)
  | .enum _ | .switch | .group _ _ => .omitted

def parse (toLowerCase : List Char → List Char) (control : Control) (prop : SchemaProp)
    (raw : Raw) : Parsed :=
  match control, raw with
  | .switch, .bool b => .value (.bool b)
  | .switch, _ => .omitted
  | .enum _, .undefined | .enum _, .string [] => .omitted
  | .enum _, raw => .value (.string (String.ofList raw.toText))
  | control, raw =>
    if lineOf raw = [] then .omitted else parseLine toLowerCase control prop (lineOf raw)

/-- What a form holds under a key, and what that value answers for keys of its own. -/
structure FormValue where
  raw : Raw
  member : String → Raw

/-- A form state, by what it answers for a key. -/
abbrev ArgValues := String → FormValue

/-- `o[key] = value` for the keys of an object, which are distinct; `__proto__` does not become
one. -/
def assigned {ν : Type*} (key : String) (value : ν) : List (String × ν) :=
  if key = "__proto__" then [] else [(key, value)]

section Form

variable (blank : ArgValues) (toLowerCase : List Char → List Char)

/-- The state of a control with a default. -/
def seed (control : Control) (value : JsonValue) : Raw :=
  match control with
  | .switch => .bool (truthy value)
  | control => .string (toText control value)

/-- The entry of a field that is not a group. -/
def fieldDefault (field : String × SchemaProp) : List (String × Raw) :=
  match fieldControl field.2, field.2.default with
  | some control, some value => assigned field.1 (seed control value)
  | _, _ => []

def fieldDefaults (properties : List (String × SchemaProp)) : List (String × Raw) :=
  properties.flatMap fieldDefault

/-- What an object with the entries answers; for other keys it answers as an empty one does. -/
def answers (entries : List (String × Raw)) : String → Raw :=
  fun key => (entries.lookup key).getD (blank key).raw

/-- The entry of a property of the schema; nothing looks at the members of a line. -/
def defaultEntry (property : String × SchemaProp) : List (String × FormValue) :=
  match groupProperties property.2 with
  | some children =>
    if fieldDefaults children = [] then []
    else assigned property.1 ⟨.other OBJECT, answers blank (fieldDefaults children)⟩
  | none => (fieldDefault property).map fun entry => (entry.1, ⟨entry.2, fun _ => .undefined⟩)

def defaultArgs (schema : ObjectSchema) : ArgValues :=
  fun key =>
    let properties := ((asObjectSchema schema).bind (·.properties)).getD []
    ((properties.flatMap (defaultEntry blank)).lookup key).getD (blank key)

/-- The arguments, and the errors by their paths. -/
structure Built where
  args : List (String × JsonValue)
  errors : List (String × String)

def Built.all (parts : List Built) : Built := ⟨parts.flatMap Built.args, parts.flatMap Built.errors⟩

def pathTo (before key : String) : String := if before = "" then key else before ++ "." ++ key

/-- What a field that is not a group adds. -/
def buildField (required : List String) (path key : String) (control : Control) (prop : SchemaProp)
    (raw : Raw) : Built :=
  match parse toLowerCase control prop raw with
  | .error message => ⟨[], assigned path message⟩
  | .omitted =>
    ⟨[], if key ∈ required ∧ prop.default.isNone then assigned path "This one is needed." else []⟩
  | .value v => ⟨assigned key v, []⟩

/-- A field of a group; none of them is a group. -/
def buildChild (required : List String) (path : String) (current : String → Raw)
    (child : String × SchemaProp) : Built :=
  match fieldControl child.2 with
  | none => ⟨[], []⟩
  | some control =>
    buildField toLowerCase required (pathTo path child.1) child.1 control child.2 (current child.1)

def buildGroup (required : List String) (path : String) (children : List (String × SchemaProp))
    (current : String → Raw) : Built :=
  .all (children.map (buildChild toLowerCase required path current))

/-- `current[key] ?? {}` -/
def groupState (value : FormValue) : String → Raw :=
  match value.raw with
  | .undefined | .null => fun key => (blank key).raw
  | _ => value.member

/-- A property of the schema; a group is left out when nothing in it is filled in. -/
def buildProperty (required : List String) (current : ArgValues) (property : String × SchemaProp) :
    Built :=
  match controlFor property.2 with
  | none => ⟨[], []⟩
  | some (.group children childrenRequired) =>
    let nested := buildGroup toLowerCase childrenRequired property.1 children
      (groupState blank (current property.1))
    ⟨if nested.args = [] then [] else assigned property.1 (.object nested.args), nested.errors⟩
  | some control =>
    buildField toLowerCase required property.1 property.1 control property.2
      (current property.1).raw

def walk (schema : ObjectSchema) (current : ArgValues) : Built :=
  .all ((schema.properties.getD []).map (buildProperty blank toLowerCase schema.required current))

def buildArgs (schema : ObjectSchema) (values : ArgValues) : Built :=
  match asObjectSchema schema with
  | some resolved => walk blank toLowerCase resolved values
  | none => ⟨[], []⟩

end Form

end HeirsOcr.SchemaArgs
