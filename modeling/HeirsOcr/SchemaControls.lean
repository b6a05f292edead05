import HeirsOcr.SchemaLines

/-!
# What the controls leave unchecked

Each control checks some of the constraints of its property. What it leaves to the server is listed
here, control by control, as conditions on what is typed: a value read without an error is valid
exactly when they hold.
-/
namespace HeirsOcr.SchemaArgs
open Doubles NumberText JsText Json JsRecord

/-- The name and the value of an entry. -/
def pairOf (entry : List Char) : String × String :=
  (String.ofList (trim (entry.takeWhile (· ≠ ':'))),
    String.ofList (trim ((entry.dropWhile (· ≠ ':')).drop 1)))

/-- The constraints of an item on a field spec. -/
structure SpecMet (q : SchemaProp) (spec : FieldSpec) : Prop where
  name : ∀ r ∈ q.memberSchema "name", Meets r (.string (String.ofList spec.name))
  type : ∀ r ∈ q.memberSchema "type", Meets r (.string (String.ofList spec.type))
  mark : spec.required → ∀ r ∈ q.memberSchema "required", Meets r (.bool true)
  required : ∀ key ∈ q.required, key = "name" ∨ key = "type" ∨ spec.required ∧ key = "required" ∨
    HasDefault q.properties key

/-- The constraints on what is typed that its control does not check. -/
def LineMet (toLowerCase : List Char → List Char) (control : Control) (p : SchemaProp) (raw : Raw) :
    Prop :=
  let entries := splitEntries (lineOf raw)
  match control with
  | .enum _ => Meets p (.string (String.ofList raw.toText))
  | .list => (∀ n ∈ p.minItems, n ≤ entries.length) ∧
      ∀ e ∈ entries, ∀ q ∈ p.items, Meets q (.string (String.ofList e))
  | .numbers _ _ => (∀ n ∈ p.minItems, n ≤ entries.length) ∧
      (∀ n ∈ p.maxItems, entries.length ≤ n) ∧
      ∀ i e x q, entries[i]? = some e → toNumber e = .finite x → p.itemSchema i = some q →
        Meets q (.number x)
  | .pairs => (∀ m ∈ (mapOf (entries.map pairOf)).rows, ∀ q ∈ p.additionalProperties,
      Meets q (.string m.2)) ∧
      ∀ key ∈ p.required, key ∈ (mapOf (entries.map pairOf)).rows.map Prod.fst
  | .specs types => (∀ n ∈ p.minItems, n ≤ entries.length) ∧
      ∀ e ∈ entries, ∀ spec, readSpec toLowerCase types e = .ok spec → ∀ q ∈ p.items, SpecMet q spec
  | .switch | .number _ | .text | .group _ _ => True

/-- Something is typed, chosen or switched. -/
def Filled (control : Control) (raw : Raw) : Prop :=
  match control with
  | .enum _ => raw ≠ .undefined ∧ raw ≠ .string []
  | .switch => ∃ b, raw = .bool b
  | .text | .number _ | .numbers _ _ => lineOf raw ≠ []
  | .list | .specs _ => splitEntries (lineOf raw) ≠ []
  | .pairs => (mapOf ((splitEntries (lineOf raw)).map pairOf)).rows ≠ []
  | .group _ _ => False

section Lines

variable {toLowerCase : List Char → List Char} {p : SchemaProp} {raw : Raw} {v : JsonValue}

/-- A text that is long enough and not too long is valid. -/
theorem valid_parseText {text : List Char} (hdrawn : DrawnAs p .text)
    (h : parseText p text = .value v) : Valid p v := by
  rw [parseText] at h
  cases hmin : p.minLength.filter (units text < ·) with
  | some n =>
    rw [hmin] at h
    cases h
  | none =>
    rw [hmin] at h
    cases hmax : p.maxLength.filter (· < units text) with
    | some n =>
      rw [hmax] at h
      cases h
    | none =>
      rw [hmax] at h
      obtain rfl := Parsed.value.inj h
      refine valid_string_iff.mpr (meets_string hdrawn.1 hdrawn.2 (fun n hn => ?_) fun n hn => ?_)
      · simpa using Option.filter_eq_none_iff.mp hmin n hn
      · simpa using Option.filter_eq_none_iff.mp hmax n hn

/-- A number in its range, whole where it has to be, is valid. -/
theorem valid_parseNumber {integer : Bool} {text : List Char} (hdrawn : DrawnAs p (.number integer))
    (h : parseNumber p integer text = .value v) : Valid p v := by
  obtain ⟨henum, htype⟩ := hdrawn
  rw [parseNumber] at h
  cases hnumber : toNumber text with
  | nan => simp [hnumber] at h
  | infinity negative => simp [hnumber] at h
  | finite x =>
    rw [hnumber] at h
    dsimp only at h
    split_ifs at h with hwhole
    cases hmin : p.minimum.filter (x.val < ·.val) with
    | some m =>
      rw [hmin] at h
      cases h
    | none =>
      rw [hmin] at h
      cases hmax : p.maximum.filter (·.val < x.val) with
      | some m =>
        rw [hmax] at h
        cases h
      | none =>
        rw [hmax] at h
        obtain rfl := Parsed.value.inj h
        have hx : HasType (.number x) (if integer then "integer" else "number") := by
          cases integer with
          | false => exact .inl rfl
          | true => exact .inr ⟨rfl, by simpa using hwhole⟩
        refine valid_number_iff.mpr (meets_number henum htype hx (fun m hm => ?_) fun m hm => ?_)
        · simpa using Option.filter_eq_none_iff.mp hmin m hm
        · simpa using Option.filter_eq_none_iff.mp hmax m hm

theorem parseItems_eq_value {noun : String} {items : List JsonValue}
    (h : parseItems p noun items = .value v) :
    items ≠ [] ∧ v = .array items ∧ ∀ n ∈ p.maxItems, items.length ≤ n := by
  rw [parseItems] at h
  split_ifs at h with hne
  cases hmax : p.maxItems.filter (· < items.length) with
  | some n =>
    rw [hmax] at h
    cases h
  | none =>
    rw [hmax] at h
    refine ⟨hne, (Parsed.value.inj h).symm, fun n hn => ?_⟩
    simpa using Option.filter_eq_none_iff.mp hmax n hn

/-- Items of one schema. -/
theorem valid_items_iff {items : List JsonValue} {item : SchemaProp} (henum : p.enum = none)
    (htype : propType p = some "array") (hplain : p.prefixItems = [])
    (hitem : p.items = some item) :
    Valid p (.array items) ↔ (∀ n ∈ p.minItems, n ≤ items.length) ∧
      (∀ n ∈ p.maxItems, items.length ≤ n) ∧ ∀ x ∈ items, Valid item x := by
  have hschema : ∀ i q, p.itemSchema i = some q ↔ item = q := by
    intro i q
    simp [SchemaProp.itemSchema, hplain, hitem]
  rw [valid_array_iff, meets_array_iff henum htype]
  constructor
  · rintro ⟨⟨hmin, hmax, -⟩, hall⟩
    refine ⟨hmin, hmax, fun x hx => ?_⟩
    obtain ⟨i, hi⟩ := List.mem_iff_getElem?.mp hx
    exact hall i x item hi ((hschema i item).mpr rfl)
  · rintro ⟨hmin, hmax, hall⟩
    refine ⟨⟨hmin, hmax, fun h => absurd hplain h⟩, fun i x q hx hq => ?_⟩
    obtain rfl := (hschema i q).mp hq
    exact hall x (List.mem_of_getElem? hx)

/-- A list is valid when its entries are and there are enough of them. -/
theorem valid_list_iff (hdrawn : DrawnAs p .list)
    (h : parseLine toLowerCase .list p (lineOf raw) = .value v) :
    Valid p v ↔ LineMet toLowerCase .list p raw := by
  obtain ⟨henum, htype, hplain, item, hitem, -⟩ := hdrawn
  obtain ⟨-, rfl, hmax⟩ := parseItems_eq_value h
  rw [valid_items_iff henum htype hplain hitem, LineMet]
  simp only [List.length_map, List.forall_mem_map, valid_string_iff, hitem, Option.mem_def,
    Option.some.injEq, forall_eq']
  rw [List.length_map] at hmax
  constructor
  · rintro ⟨hmin, -, hall⟩
    exact ⟨hmin, hall⟩
  · rintro ⟨hmin, hall⟩
    exact ⟨hmin, hmax, hall⟩

theorem readNumber_eq_ok {integer : Bool} {entry : List Char} {x : Double}
    (h : readNumber integer entry = .ok x) :
    toNumber entry = .finite x ∧ (integer → x.val.isInt) := by
  rw [readNumber] at h
  cases hnumber : toNumber entry with
  | nan => simp [hnumber] at h
  | infinity negative => simp [hnumber] at h
  | finite y =>
    rw [hnumber] at h
    dsimp only at h
    split_ifs at h with hwhole
    obtain rfl := Except.ok.inj h
    refine ⟨rfl, fun hinteger => ?_⟩
    simpa [hinteger] using hwhole

/-- Numbers in a line are valid when each is in its slot and there are neither too few nor too
many. -/
theorem valid_numbers_iff {count : Option ℕ} {integer : Bool}
    (hdrawn : DrawnAs p (.numbers count integer))
    (h : parseLine toLowerCase (.numbers count integer) p (lineOf raw) = .value v) :
    Valid p v ↔ LineMet toLowerCase (.numbers count integer) p raw := by
  have hlist : p.enum = none ∧ propType p = some "array" ∧
      ∀ n : ℕ, (∀ k ∈ count, k = n) → p.prefixItems ≠ [] →
        p.prefixItems.length ≤ n ∧ (p.items = none → n = p.prefixItems.length) := by
    cases count with
    | none =>
      obtain ⟨henum, htype, hplain, -⟩ := hdrawn
      exact ⟨henum, htype, fun n _ hne => absurd hplain hne⟩
    | some k =>
      obtain ⟨henum, htype, rfl, -⟩ := hdrawn
      refine ⟨henum, htype, fun n hn _ => ?_⟩
      have hk := hn _ rfl
      exact ⟨hk.le, fun _ => hk.symm⟩
  obtain ⟨henum, htype, htuple⟩ := hlist
  rw [parseLine, parseNumbers] at h
  cases hread : (splitEntries (lineOf raw)).mapM (readNumber integer) with
  | error message =>
    rw [hread] at h
    cases h
  | ok xs =>
    rw [hread] at h
    dsimp only at h
    cases hcount : count.filter (· ≠ xs.length) with
    | some n =>
      rw [hcount] at h
      cases h
    | none =>
      rw [hcount] at h
      obtain rfl := Parsed.value.inj h
      have hslots := htuple xs.length fun k hk => by
        simpa using Option.filter_eq_none_iff.mp hcount k hk
      have hall := mapM_eq_ok_iff.mp hread
      have hlength := hall.length_eq
      rw [valid_array_iff, meets_array_iff henum htype, LineMet]
      simp only [List.length_map, hlength]
      constructor
      · rintro ⟨⟨hmin, hmax, -⟩, hitems⟩
        refine ⟨hmin, hmax, fun i e x q he hx hq => ?_⟩
        obtain ⟨hi, rfl⟩ := List.getElem?_eq_some_iff.mp he
        have hi' : i < xs.length := hlength ▸ hi
        have hsame := (readNumber_eq_ok (hall.get hi hi')).1.symm.trans hx
        obtain rfl : xs[i] = x := Num.finite.inj hsame
        exact (hitems i _ q (by simp [hi']) hq).meets
      · rintro ⟨hmin, hmax, hitems⟩
        refine ⟨⟨hmin, hmax, hslots⟩, fun i item q hitem hq => ?_⟩
        obtain ⟨hi, rfl⟩ := List.getElem?_eq_some_iff.mp hitem
        rw [List.length_map] at hi
        have hi' : i < (splitEntries (lineOf raw)).length := hlength.symm ▸ hi
        have hnumber := (readNumber_eq_ok (hall.get hi' hi)).1
        rw [List.getElem_map, valid_number_iff]
        exact hitems i _ _ q (List.getElem?_eq_getElem hi') hnumber hq

theorem readPair_eq_ok {entry : List Char} {pair : String × String}
    (h : readPair entry = .ok pair) : pair = pairOf entry := by
  rw [readPair, atColon] at h
  rw [pairOf]
  cases hafter : entry.dropWhile (· ≠ ':') with
  | nil =>
    rw [hafter] at h
    cases h
  | cons colon after =>
    rw [hafter] at h
    dsimp only at h
    split_ifs at h
    exact (Except.ok.inj h).symm

theorem map_pairOf {entries : List (List Char)} {pairs : List (String × String)}
    (h : entries.mapM readPair = .ok pairs) : entries.map pairOf = pairs := by
  have hall := mapM_eq_ok_iff.mp h
  rw [← List.forall₂_eq_eq_eq, List.forall₂_map_left_iff]
  exact hall.imp fun _ _ hpair => (readPair_eq_ok hpair).symm

theorem parsePairs_eq_value {entries : List (List Char)} (h : parsePairs entries = .value v) :
    v = .object ((mapOf (entries.map pairOf)).rows.map fun m => (m.1, .string m.2)) := by
  rw [parsePairs] at h
  cases hread : entries.mapM readPair with
  | error message =>
    rw [hread] at h
    cases h
  | ok pairs =>
    rw [hread] at h
    dsimp only at h
    split_ifs at h
    rw [map_pairOf hread]
    exact (Parsed.value.inj h).symm

/-- A map is valid when its values are and no required key is missing. -/
theorem valid_pairs_iff (hdrawn : DrawnAs p .pairs)
    (h : parseLine toLowerCase .pairs p (lineOf raw) = .value v) :
    Valid p v ↔ LineMet toLowerCase .pairs p raw := by
  obtain ⟨henum, htype, hproperties, extra, hextra, -⟩ := hdrawn
  have hmember : ∀ key, p.memberSchema key = some extra := by
    intro key
    rw [SchemaProp.memberSchema, hproperties, hextra]
    rfl
  have hdefault : ∀ key, ¬HasDefault p.properties key := by
    rintro key ⟨q, hq, -⟩
    rw [hproperties] at hq
    cases hq
  obtain rfl := parsePairs_eq_value h
  rw [valid_object_iff, meets_object_iff henum htype, LineMet]
  simp only [List.map_map, List.forall_mem_map, hmember, hextra, Option.mem_def,
    Option.some.injEq, forall_eq', valid_string_iff, hdefault, or_false]
  exact And.comm

theorem mem_of_mapM {α β ε : Type*} {f : α → Except ε β} {xs : List α} {ys : List β}
    (h : xs.mapM f = .ok ys) {y : β} : y ∈ ys ↔ ∃ x ∈ xs, f x = .ok y := by
  replace h := mapM_eq_ok_iff.mp h
  induction h with
  | nil => simp
  | cons hx _ ih => simp [ih, hx, @eq_comm _ y]

/-- A spec is valid when its members are and none that is required is missing. -/
theorem valid_spec_iff {q : SchemaProp} {types : List (List Char)} (henum : q.enum = none)
    (htypes : specTypes q = some types) (spec : FieldSpec) :
    Valid q spec.value ↔ SpecMet q spec := by
  obtain ⟨hobject, -⟩ := specTypes_eq_some htypes
  obtain ⟨name, type, required⟩ := spec
  rw [FieldSpec.value, valid_object_iff, meets_object_iff henum hobject]
  cases required with
  | false =>
    constructor
    · rintro ⟨hrequired, hmembers⟩
      refine ⟨fun r hr => ?_, fun r hr => ?_, nofun, fun key hkey => ?_⟩
      · exact valid_string_iff.mp (hmembers ("name", _) (by simp) r hr)
      · exact valid_string_iff.mp (hmembers ("type", _) (by simp) r hr)
      · simpa [or_assoc] using hrequired key hkey
    · rintro ⟨hname, htype, -, hrequired⟩
      refine ⟨fun key hkey => ?_, fun m hm r hr => ?_⟩
      · simpa [or_assoc] using hrequired key hkey
      · simp only [Bool.false_eq_true, if_false, List.append_nil, List.mem_cons, List.not_mem_nil,
          or_false] at hm
        rcases hm with rfl | rfl
        · exact valid_string_iff.mpr (hname r hr)
        · exact valid_string_iff.mpr (htype r hr)
  | true =>
    constructor
    · rintro ⟨hrequired, hmembers⟩
      refine ⟨fun r hr => ?_, fun r hr => ?_, fun _ r hr => ?_, fun key hkey => ?_⟩
      · exact valid_string_iff.mp (hmembers ("name", _) (by simp) r hr)
      · exact valid_string_iff.mp (hmembers ("type", _) (by simp) r hr)
      · exact valid_bool_iff.mp (hmembers ("required", _) (by simp) r hr)
      · simpa [or_assoc] using hrequired key hkey
    · rintro ⟨hname, htype, hmark, hrequired⟩
      refine ⟨fun key hkey => ?_, fun m hm r hr => ?_⟩
      · simpa [or_assoc] using hrequired key hkey
      · simp only [if_true, List.cons_append, List.nil_append, List.mem_cons, List.not_mem_nil,
          or_false] at hm
        rcases hm with rfl | rfl | rfl
        · exact valid_string_iff.mpr (hname r hr)
        · exact valid_string_iff.mpr (htype r hr)
        · exact valid_bool_iff.mpr (hmark rfl r hr)

/-- A field list is valid when its specs are and there are enough of them. -/
theorem valid_specs_iff {types : List (List Char)} (hdrawn : DrawnAs p (.specs types))
    (h : parseLine toLowerCase (.specs types) p (lineOf raw) = .value v) :
    Valid p v ↔ LineMet toLowerCase (.specs types) p raw := by
  obtain ⟨henum, htype, hplain, item, hitem, hitemEnum, htypes⟩ := hdrawn
  rw [parseLine, parseSpecs] at h
  cases hread : (splitEntries (lineOf raw)).mapM (readSpec toLowerCase types) with
  | error message =>
    rw [hread] at h
    cases h
  | ok specs =>
    rw [hread] at h
    obtain ⟨-, rfl, hmax⟩ := parseItems_eq_value h
    have hall := mapM_eq_ok_iff.mp hread
    rw [valid_items_iff henum htype hplain hitem, LineMet]
    simp only [List.length_map, List.forall_mem_map, hall.length_eq, hitem, Option.mem_def,
      Option.some.injEq, forall_eq', valid_spec_iff hitemEnum htypes]
    rw [List.length_map] at hmax
    constructor
    · rintro ⟨hmin, -, hspecs⟩
      exact ⟨hmin, fun e he spec hspec => hspecs spec ((mem_of_mapM hread).mpr ⟨e, he, hspec⟩)⟩
    · rintro ⟨hmin, hspecs⟩
      refine ⟨hmin, hmax, fun spec hmem => ?_⟩
      obtain ⟨e, he, hspec⟩ := (mem_of_mapM hread).mp hmem
      exact hspecs e he spec hspec

/-- What a control reads is valid when the line meets the constraints that the control does not
check. -/
theorem valid_value_iff {control : Control} (hdrawn : DrawnAs p control)
    (h : parse toLowerCase control p raw = .value v) :
    Valid p v ↔ LineMet toLowerCase control p raw := by
  have hline : (∀ options, control ≠ .enum options) → control ≠ .switch →
      parseLine toLowerCase control p (lineOf raw) = .value v := by
    intro henum hswitch
    rw [parse_line hswitch henum] at h
    split_ifs at h
    exact h
  cases control with
  | enum options =>
    have hv : v = .string (String.ofList raw.toText) := by
      cases raw with
      | string s =>
        cases s with
        | nil => cases h
        | cons c s => exact (Parsed.value.inj h).symm
      | undefined => cases h
      | _ => exact (Parsed.value.inj h).symm
    rw [hv, valid_string_iff, LineMet]
  | switch =>
    obtain ⟨b, rfl⟩ : ∃ b, v = .bool b := by
      cases raw with
      | bool b => exact ⟨b, (Parsed.value.inj h).symm⟩
      | _ => cases h
    exact iff_of_true (valid_bool_iff.mpr (meets_bool hdrawn.1 hdrawn.2)) trivial
  | number integer => exact iff_of_true (valid_parseNumber hdrawn (hline nofun nofun)) trivial
  | text => exact iff_of_true (valid_parseText hdrawn (hline nofun nofun)) trivial
  | list => exact valid_list_iff hdrawn (hline nofun nofun)
  | numbers count integer => exact valid_numbers_iff hdrawn (hline nofun nofun)
  | pairs => exact valid_pairs_iff hdrawn (hline nofun nofun)
  | specs types => exact valid_specs_iff hdrawn (hline nofun nofun)
  | group children required => exact absurd hdrawn id

theorem parseText_ne_omitted {text : List Char} : parseText p text ≠ .omitted := by
  rw [parseText]
  split
  · simp
  · split <;> simp

theorem parseNumber_ne_omitted {integer : Bool} {text : List Char} :
    parseNumber p integer text ≠ .omitted := by
  rw [parseNumber]
  split
  · split_ifs
    · simp
    · split
      · simp
      · split <;> simp
  · simp

theorem parseNumbers_ne_omitted {count : Option ℕ} {integer : Bool} {entries : List (List Char)} :
    parseNumbers count integer entries ≠ .omitted := by
  rw [parseNumbers]
  split
  · simp
  · split <;> simp

theorem parseItems_ne_omitted_iff {noun : String} {items : List JsonValue} :
    parseItems p noun items ≠ .omitted ↔ items ≠ [] := by
  rw [parseItems]
  split_ifs with hnil
  · simp [hnil]
  · refine iff_of_true ?_ hnil
    split <;> simp

theorem parsePairs_ne_omitted_iff {entries : List (List Char)}
    (herror : ∀ message, parsePairs entries ≠ .error message) :
    parsePairs entries ≠ .omitted ↔ (mapOf (entries.map pairOf)).rows ≠ [] := by
  rw [parsePairs] at herror ⊢
  cases hread : entries.mapM readPair with
  | error message =>
    rw [hread] at herror
    exact absurd rfl (herror message)
  | ok pairs =>
    rw [map_pairOf hread]
    dsimp only
    split_ifs with hnil
    · simp [hnil]
    · exact iff_of_true (by simp) hnil

theorem parseSpecs_ne_omitted_iff {types : List (List Char)} {entries : List (List Char)}
    (herror : ∀ message, parseSpecs toLowerCase p types entries ≠ .error message) :
    parseSpecs toLowerCase p types entries ≠ .omitted ↔ entries ≠ [] := by
  rw [parseSpecs] at herror ⊢
  cases hread : entries.mapM (readSpec toLowerCase types) with
  | error message =>
    rw [hread] at herror
    exact absurd rfl (herror message)
  | ok specs =>
    have hlength := (mapM_eq_ok_iff.mp hread).length_eq
    dsimp only
    rw [parseItems_ne_omitted_iff, Ne, Ne, List.map_eq_nil_iff, ← List.length_eq_zero_iff,
      ← List.length_eq_zero_iff, hlength]

/-- A control that reports no error leaves a field out when there is nothing in it. -/
theorem filled_iff {control : Control} (hdrawn : DrawnAs p control)
    (herror : ∀ message, parse toLowerCase control p raw ≠ .error message) :
    parse toLowerCase control p raw ≠ .omitted ↔ Filled control raw := by
  have hline : (∀ options, control ≠ .enum options) → control ≠ .switch →
      (parse toLowerCase control p raw ≠ .omitted ↔ lineOf raw ≠ [] ∧
        parseLine toLowerCase control p (lineOf raw) ≠ .omitted) := by
    intro henum hswitch
    rw [parse_line hswitch henum]
    split_ifs with hnil
    · simp [hnil]
    · simp [hnil]
  have hreads : (∀ options, control ≠ .enum options) → control ≠ .switch → lineOf raw ≠ [] →
      ∀ message, parseLine toLowerCase control p (lineOf raw) ≠ .error message := by
    intro henum hswitch hne message
    rw [← parse_of_ne_nil hswitch henum hne]
    exact herror message
  have hempty : lineOf raw = [] → splitEntries (lineOf raw) = [] := by
    intro hnil
    rw [hnil]
    rfl
  cases control with
  | enum options =>
    cases raw with
    | string s =>
      cases s with
      | nil => exact iff_of_false (not_not.mpr rfl) fun h => h.2 rfl
      | cons c s => exact iff_of_true (by simp [parse]) (by simp [Filled])
    | undefined => exact iff_of_false (not_not.mpr rfl) fun h => h.1 rfl
    | _ => exact iff_of_true (by simp [parse]) (by simp [Filled])
  | switch =>
    cases raw with
    | bool b => exact iff_of_true (by simp [parse]) ⟨b, rfl⟩
    | _ => exact iff_of_false (not_not.mpr rfl) (by simp [Filled])
  | number integer =>
    rw [hline (by simp) (by simp), Filled]
    exact and_iff_left parseNumber_ne_omitted
  | text =>
    rw [hline (by simp) (by simp), Filled]
    exact and_iff_left parseText_ne_omitted
  | list =>
    rw [hline (by simp) (by simp), Filled, parseLine, parseItems_ne_omitted_iff]
    constructor
    · rintro ⟨-, hvalue⟩ hentries
      exact hvalue (List.map_eq_nil_iff.mpr hentries)
    · intro hentries
      exact ⟨fun hnil => hentries (hempty hnil), fun h => hentries (List.map_eq_nil_iff.mp h)⟩
  | numbers count integer =>
    rw [hline (by simp) (by simp), Filled]
    exact and_iff_left parseNumbers_ne_omitted
  | pairs =>
    rw [hline (by simp) (by simp), Filled]
    constructor
    · rintro ⟨hne, hvalue⟩
      exact (parsePairs_ne_omitted_iff (hreads (by simp) (by simp) hne)).mp hvalue
    · intro hrows
      have hne : lineOf raw ≠ [] := by
        intro hnil
        rw [hempty hnil] at hrows
        exact hrows rfl
      exact ⟨hne, (parsePairs_ne_omitted_iff (hreads (by simp) (by simp) hne)).mpr hrows⟩
  | specs types =>
    rw [hline (by simp) (by simp), Filled]
    constructor
    · rintro ⟨hne, hvalue⟩
      exact (parseSpecs_ne_omitted_iff (hreads (by simp) (by simp) hne)).mp hvalue
    · intro hentries
      have hne : lineOf raw ≠ [] := fun hnil => hentries (hempty hnil)
      exact ⟨hne, (parseSpecs_ne_omitted_iff (hreads (by simp) (by simp) hne)).mpr hentries⟩
  | group children required => exact absurd hdrawn id

end Lines

end HeirsOcr.SchemaArgs
