import HeirsOcr.NumberRoundTrip
import HeirsOcr.ObjectSchema
import HeirsOcr.SchemaValid

/-!
# Lines are read back

What the form prints of a default it reads back, control by control: an entry stands between commas
and has no space at its ends, a pair is cut at its first colon, and the mark of a field spec is
the star at the end of its entry.
-/
namespace HeirsOcr.SchemaArgs
open Doubles NumberText JsText Json JsRecord

structure IsEntry (e : List Char) : Prop where
  ne_nil : e ≠ []
  trimmed : Trimmed e
  comma : ',' ∉ e

theorem trimmed_iff {cs : List Char} :
    Trimmed cs ↔ cs.head?.any isSpace = false ∧ cs.getLast?.any isSpace = false := by
  rw [Trimmed, Option.any_eq_false, Option.any_eq_false]
  simp

instance (cs : List Char) : Decidable (Trimmed cs) := decidable_of_iff _ trimmed_iff.symm

instance (e : List Char) : Decidable (IsEntry e) :=
  decidable_of_iff (e ≠ [] ∧ Trimmed e ∧ ',' ∉ e)
    ⟨fun h => ⟨h.1, h.2.1, h.2.2⟩, fun h => ⟨h.ne_nil, h.trimmed, h.comma⟩⟩

section Entries

variable {e x y : List Char} {es : List (List Char)}

/-- What stands between two texts without space at their ends does not matter. -/
theorem trimmed_between (hx : Trimmed x) (hx' : x ≠ []) (hy : Trimmed y) (hy' : y ≠ [])
    (mid : List Char) : Trimmed (x ++ (mid ++ y)) := by
  constructor
  · rw [List.head?_append_of_ne_nil _ hx']
    exact hx.1
  · rw [List.getLast?_append_of_ne_nil _ (List.append_ne_nil_of_right_ne_nil _ hy'),
      List.getLast?_append_of_ne_nil _ hy']
    exact hy.2

theorem joinLine_cons_cons (e e' : List Char) (es : List (List Char)) :
    joinLine (e :: e' :: es) = e ++ ([',', ' '] ++ joinLine (e' :: es)) := by
  rw [joinLine, List.intercalate_cons_cons, List.append_assoc]
  rfl

theorem joinLine_spec (h : ∀ e ∈ es, e ≠ [] ∧ Trimmed e) (hne : es ≠ []) :
    joinLine es ≠ [] ∧ Trimmed (joinLine es) := by
  induction es with
  | nil => exact absurd rfl hne
  | cons e es ih =>
    obtain ⟨he, hrest⟩ := List.forall_mem_cons.mp h
    cases es with
    | nil => simpa [joinLine] using he
    | cons e' es =>
      obtain ⟨hne', htrimmed⟩ := ih hrest (List.cons_ne_nil _ _)
      rw [joinLine_cons_cons]
      exact ⟨List.append_ne_nil_of_left_ne_nil he.1 _,
        trimmed_between he.2 he.1 htrimmed hne' _⟩

theorem splitEntries_append (x y : List Char) :
    splitEntries (x ++ ',' :: y) = splitEntries x ++ splitEntries y := by
  rw [splitEntries, List.splitOnP_append_cons (p := (· == ',')) x y rfl, List.map_append,
    List.filter_append]
  rfl

theorem trim_space_cons (cs : List Char) : trim (' ' :: cs) = trim cs := rfl

/-- A space at the front is trimmed off the first entry. -/
theorem splitEntries_space_cons (cs : List Char) : splitEntries (' ' :: cs) = splitEntries cs := by
  obtain ⟨part, parts, hparts⟩ := List.exists_cons_of_ne_nil
    (List.splitOnP_ne_nil (· == ',') cs)
  have hspace : (' ' :: cs).splitOnP (· == ',') = (' ' :: part) :: parts := by
    rw [List.splitOnP_cons_eq_if_modifyHead, hparts]
    rfl
  rw [splitEntries, splitEntries, hspace, hparts, List.map_cons, List.map_cons, trim_space_cons]

theorem IsEntry.split (h : IsEntry e) : splitEntries e = [e] := by
  have hfree : ∀ c ∈ e, (c == ',') = false := by
    intro c hc
    rw [beq_eq_false_iff_ne]
    rintro rfl
    exact h.comma hc
  rw [splitEntries, List.splitOnP_eq_singleton hfree, List.map_singleton,
    trim_of_trimmed h.trimmed]
  simp [h.ne_nil]

/-- Entries joined to a line are its entries. -/
theorem splitEntries_joinLine (h : ∀ e ∈ es, IsEntry e) : splitEntries (joinLine es) = es := by
  induction es with
  | nil => rfl
  | cons e es ih =>
    obtain ⟨he, hrest⟩ := List.forall_mem_cons.mp h
    cases es with
    | nil => simpa [joinLine] using he.split
    | cons e' es =>
      rw [joinLine_cons_cons, List.cons_append, splitEntries_append, he.split,
        List.singleton_append, List.singleton_append, splitEntries_space_cons, ih hrest]

/-- The line of entries, as the form holds it and as it is read. -/
theorem lineOf_joinLine (h : ∀ e ∈ es, IsEntry e) (hne : es ≠ []) :
    lineOf (.string (joinLine es)) ≠ [] ∧ splitEntries (lineOf (.string (joinLine es))) = es := by
  obtain ⟨hline, htrimmed⟩ := joinLine_spec (fun e he => ⟨(h e he).ne_nil, (h e he).trimmed⟩) hne
  have hself : lineOf (.string (joinLine es)) = joinLine es := trim_of_trimmed htrimmed
  rw [hself]
  exact ⟨hline, splitEntries_joinLine h⟩

end Entries

/-- A list is read entry by entry. -/
theorem mapM_eq_ok_iff {α β ε : Type*} {f : α → Except ε β} {l : List α} {r : List β} :
    l.mapM f = .ok r ↔ List.Forall₂ (fun a b => f a = .ok b) l r := by
  induction l generalizing r with
  | nil =>
    rw [List.mapM_nil, List.forall₂_nil_left_iff]
    exact ⟨fun h => (Except.ok.inj h).symm, fun h => congrArg Except.ok h.symm⟩
  | cons a l ih =>
    rw [List.mapM_cons, List.forall₂_cons_left_iff]
    cases ha : f a with
    | error e =>
      constructor
      · intro h
        cases h
      · rintro ⟨b, _, hb, -⟩
        cases hb
    | ok b =>
      cases hl : l.mapM f with
      | error e =>
        constructor
        · intro h
          cases h
        · rintro ⟨_, bs, -, hrest, -⟩
          rw [ih.mpr hrest] at hl
          cases hl
      | ok bs =>
        constructor
        · intro h
          obtain rfl : b :: bs = r := Except.ok.inj h
          exact ⟨b, bs, rfl, ih.mp hl, rfl⟩
        · rintro ⟨b', bs', hb, hrest, rfl⟩
          obtain rfl := Except.ok.inj hb
          rw [ih.mpr hrest] at hl
          obtain rfl := Except.ok.inj hl
          rfl

section Pairs

variable {key name entry : List Char}

theorem atColon_append (h : ':' ∉ key) (rest : List Char) :
    atColon (key ++ ':' :: rest) = some (key, rest) := by
  have hpos : ∀ c ∈ key, decide (c ≠ ':') = true := by
    intro c hc
    rw [decide_eq_true_eq]
    rintro rfl
    exact h hc
  have hdrop : (key ++ ':' :: rest).dropWhile (· ≠ ':') = ':' :: rest := by
    rw [List.dropWhile_append_of_pos hpos]
    simp
  have htake : (key ++ ':' :: rest).takeWhile (· ≠ ':') = key := by
    rw [List.takeWhile_append_of_pos hpos]
    simp
  rw [atColon, hdrop, htake]

/-- Two texts with a colon between them make an entry. -/
theorem isEntry_colon (hkey : IsEntry key) (hname : IsEntry name) :
    IsEntry (key ++ ':' :: ' ' :: name) where
  ne_nil := List.append_ne_nil_of_left_ne_nil hkey.ne_nil _
  trimmed := trimmed_between hkey.trimmed hkey.ne_nil hname.trimmed hname.ne_nil [':', ' ']
  comma := by simp [hkey.comma, hname.comma]

theorem readPair_colon (hkey : IsEntry key) (hcolon : ':' ∉ key) (hname : IsEntry name) :
    readPair (key ++ ':' :: ' ' :: name) = .ok (String.ofList key, String.ofList name) := by
  have htrim : trim (' ' :: name) = name := trim_of_trimmed hname.trimmed
  rw [readPair, atColon_append hcolon]
  dsimp only
  rw [trim_of_trimmed hkey.trimmed, htrim, if_neg (by simp [hkey.ne_nil, hname.ne_nil])]

end Pairs

/-- A value that says what a spec says: no more than its name, its type and whether it is
required. -/
def SpecOf (spec : FieldSpec) (item : JsonValue) : Prop :=
  ∃ members : List (String × JsonValue), item = .object members ∧
    (∀ m ∈ members, m.1 ∈ ["name", "type", "required"]) ∧
    members.lookup "name" = some (.string (String.ofList spec.name)) ∧
    members.lookup "type" = some (.string (String.ofList spec.type)) ∧
    (members.lookup "required").getD (.bool false) = .bool spec.required

/-- A spec whose entry says what it says. -/
structure WritesSpec (toLowerCase : List Char → List Char) (spec : FieldSpec) : Prop where
  name : IsEntry spec.name
  colon : ':' ∉ spec.name
  star : spec.name.getLast? ≠ some '*'
  type : IsEntry spec.type
  lower : toLowerCase spec.type = spec.type
  unmarked : spec.required = false → spec.type.getLast? ≠ some '*'

section Specs

variable {toLowerCase : List Char → List Char} {spec : FieldSpec} {item : JsonValue}

theorem specOf_value (spec : FieldSpec) : SpecOf spec spec.value := by
  obtain ⟨name, type, required⟩ := spec
  refine ⟨_, rfl, ?_, ?_⟩
  · cases required with
    | false => simp
    | true => simp
  · cases required with
    | false => simp [List.lookup_cons]
    | true => simp [List.lookup_cons]

/-- The entry of a spec. -/
def FieldSpec.entry (spec : FieldSpec) : List Char :=
  (spec.name ++ ':' :: ' ' :: spec.type) ++ if spec.required then ['*'] else []

theorem memberOf_object (members : List (String × JsonValue)) (key : String) :
    memberOf (.object members) key = members.lookup key := rfl

/-- Whether a spec is required, as its member says. -/
theorem truthy_required {member : Option JsonValue} {required : Bool}
    (h : member.getD (.bool false) = .bool required) :
    (member.map truthy).getD false = required := by
  cases member with
  | none => exact Value.bool.inj h
  | some value =>
    obtain rfl : value = .bool required := h
    rfl

theorem specText_of_specOf (h : SpecOf spec item) : specText item = spec.entry := by
  obtain ⟨members, rfl, -, hname, htype, hrequired⟩ := h
  rw [specText, memberOf_object, memberOf_object, memberOf_object, hname, htype,
    truthy_required hrequired, FieldSpec.entry]
  simp only [orDefault, stringOf, String.toList_ofList]

theorem isEntry_entry (h : WritesSpec toLowerCase spec) : IsEntry spec.entry := by
  have hbody := isEntry_colon h.name h.type
  rw [FieldSpec.entry]
  split_ifs
  · refine ⟨List.append_ne_nil_of_left_ne_nil hbody.ne_nil _, ?_, ?_⟩
    · have hmark : Trimmed ['*'] := ⟨by simp [isSpace], by simp [isSpace]⟩
      exact trimmed_between hbody.trimmed hbody.ne_nil hmark (by simp) []
    · simp [h.name.comma, h.type.comma]
  · rwa [List.append_nil]

theorem getLast?_body (h : WritesSpec toLowerCase spec) :
    (spec.name ++ ':' :: ' ' :: spec.type).getLast? = spec.type.getLast? := by
  rw [show spec.name ++ ':' :: ' ' :: spec.type = spec.name ++ [':', ' '] ++ spec.type by simp,
    List.getLast?_append_of_ne_nil _ h.type.ne_nil]

/-- The mark comes off the entry of a spec. -/
theorem unstar_entry (h : WritesSpec toLowerCase spec) :
    unstar spec.entry = (spec.required, spec.name ++ ':' :: ' ' :: spec.type) := by
  have hbody := isEntry_colon h.name h.type
  rw [FieldSpec.entry, unstar]
  cases hrequired : spec.required with
  | true =>
    rw [if_pos rfl, List.getLast?_concat, if_pos rfl, List.dropLast_concat,
      trim_of_trimmed hbody.trimmed]
  | false =>
    rw [if_neg Bool.false_ne_true, List.append_nil, getLast?_body h,
      if_neg (h.unmarked hrequired)]

theorem readSpec_entry {types : List (List Char)} (h : WritesSpec toLowerCase spec)
    (htype : spec.type ∈ types) : readSpec toLowerCase types spec.entry = .ok spec := by
  have htrim : trim (' ' :: spec.type) = spec.type := trim_of_trimmed h.type.trimmed
  have hname : unstar spec.name = (false, spec.name) := if_neg h.star
  have hparts : nameAndType toLowerCase types (spec.name ++ ':' :: ' ' :: spec.type) =
      (spec.name, spec.type) := by
    rw [nameAndType, atColon_append h.colon]
    dsimp only
    rw [trim_of_trimmed h.name.trimmed, htrim, h.lower]
  rw [readSpec, unstar_entry h]
  dsimp only
  rw [hparts]
  dsimp only
  rw [hname, checkSpec, if_neg h.name.ne_nil, if_neg (not_not.mpr htype), Bool.or_false]

end Specs

/-- `null` and what has nothing in it. -/
def IsEmpty : JsonValue → Prop
  | .null => True
  | .string s => s = ""
  | .array items => items = []
  | .object members => members = []
  | .bool _ | .number _ => False

/-- A default that the line of its control can hold. -/
def Expressible (toLowerCase : List Char → List Char) : Control → JsonValue → Prop
  | .enum _, .string _ | .switch, .bool _ => True
  | .number integer, .number x => integer → x.val.isInt
  | .text, .string s => Trimmed s.toList
  | .list, .array items =>
    ∃ es : List (List Char), items = es.map (fun e => .string (String.ofList e)) ∧
      ∀ e ∈ es, IsEntry e
  | .numbers count integer, .array items => ∃ xs : List Double, items = xs.map .number ∧
      (∀ n ∈ count, n = xs.length) ∧ (integer → ∀ x ∈ xs, x.val.isInt)
  | .pairs, .object members => ∃ pairs : List (List Char × List Char),
      members = pairs.map (fun m => (String.ofList m.1, .string (String.ofList m.2))) ∧
      (pairs.map Prod.fst).Nodup ∧
      ∀ m ∈ pairs, IsEntry m.1 ∧ ':' ∉ m.1 ∧ IsEntry m.2 ∧ m.1 ≠ "__proto__".toList
  | .specs _, .array items => ∃ specs : List FieldSpec, List.Forall₂ SpecOf specs items ∧
      ∀ spec ∈ specs, WritesSpec toLowerCase spec
  | _, _ => False

/-- What the form makes of a default: the same value, or specs that say the same. -/
def Unchanged : Control → JsonValue → JsonValue → Prop
  | .specs _, .array items, .array items' =>
    ∃ specs, List.Forall₂ SpecOf specs items ∧ List.Forall₂ SpecOf specs items'
  | _, v, v' => v' = v

section Defaults

variable {toLowerCase : List Char → List Char} {p : SchemaProp}

theorem parseText_eq {text : List Char} (h : Valid p (.string (String.ofList text))) :
    parseText p text = .value (.string (String.ofList text)) := by
  have hmin : p.minLength.filter (units text < ·) = none := by
    rw [Option.filter_eq_none_iff]
    intro n hn
    have hle := h.meets.minLength _ rfl n hn
    rw [String.toList_ofList] at hle
    simpa using hle
  have hmax : p.maxLength.filter (· < units text) = none := by
    rw [Option.filter_eq_none_iff]
    intro n hn
    have hle := h.meets.maxLength _ rfl n hn
    rw [String.toList_ofList] at hle
    simpa using hle
  rw [parseText, hmin]
  dsimp only
  rw [hmax]

theorem parseNumber_eq {x : Double} {integer : Bool} (h : Valid p (.number x))
    (hinteger : integer → x.val.isInt) :
    parseNumber p integer (Num.finite x).toText = .value (.number x) := by
  have hmin : p.minimum.filter (x.val < ·.val) = none := by
    rw [Option.filter_eq_none_iff]
    intro m hm
    simpa using h.meets.minimum x rfl m hm
  have hmax : p.maximum.filter (·.val < x.val) = none := by
    rw [Option.filter_eq_none_iff]
    intro m hm
    simpa using h.meets.maximum x rfl m hm
  have hwhole : ¬(integer && !x.val.isInt) = true := by
    cases integer with
    | false => simp
    | true => simp [hinteger rfl]
  rw [parseNumber, toNumber_toText]
  dsimp only
  rw [if_neg hwhole, hmin]
  dsimp only
  rw [hmax]

theorem parseItems_eq {items : List JsonValue} (noun : String) (hne : items ≠ [])
    (hmax : ∀ n ∈ p.maxItems, items.length ≤ n) :
    parseItems p noun items = .value (.array items) := by
  have hnone : p.maxItems.filter (· < items.length) = none := by
    rw [Option.filter_eq_none_iff]
    intro n hn
    simpa using hmax n hn
  rw [parseItems, if_neg hne, hnone]

/-- What is neither a switch nor a choice is a line. -/
theorem parse_line {control : Control} {raw : Raw} (hswitch : control ≠ .switch)
    (henum : ∀ options, control ≠ .enum options) : parse toLowerCase control p raw =
      if lineOf raw = [] then .omitted else parseLine toLowerCase control p (lineOf raw) := by
  rw [parse.eq_def]
  cases control with
  | switch => exact absurd rfl hswitch
  | enum options => exact absurd rfl (henum options)
  | _ => rfl

/-- A line that is not empty is parsed by its control. -/
theorem parse_of_ne_nil {control : Control} {raw : Raw} (hswitch : control ≠ .switch)
    (henum : ∀ options, control ≠ .enum options) (h : lineOf raw ≠ []) :
    parse toLowerCase control p raw = parseLine toLowerCase control p (lineOf raw) := by
  rw [parse_line hswitch henum, if_neg h]

theorem parse_enum {options : List (List Char)} {s : String} (hne : s ≠ "") :
    parse toLowerCase (.enum options) p (seed (.enum options) (.string s)) =
      .value (.string s) := by
  have hseed : seed (.enum options) (.string s) = .string s.toList := rfl
  rw [hseed]
  cases hchars : s.toList with
  | nil => exact absurd (String.toList_eq_nil_iff.mp hchars) hne
  | cons c cs =>
    have hself : String.ofList (c :: cs) = s := by rw [← hchars, String.ofList_toList]
    exact congrArg (fun text => Parsed.value (.string text)) hself

theorem parse_text {s : String} (hvalid : Valid p (.string s)) (htrimmed : Trimmed s.toList)
    (hne : s ≠ "") : parse toLowerCase .text p (seed .text (.string s)) = .value (.string s) := by
  have hline : lineOf (seed .text (.string s)) = s.toList := trim_of_trimmed htrimmed
  have hchars : s.toList ≠ [] := fun h => hne (String.toList_eq_nil_iff.mp h)
  have hself : String.ofList s.toList = s := String.ofList_toList
  have htext := parseText_eq (hself.symm ▸ hvalid)
  rw [hself] at htext
  rw [parse_of_ne_nil (by simp) (by simp) (by rwa [hline]), hline]
  exact htext

theorem parse_number {x : Double} {integer : Bool} (hvalid : Valid p (.number x))
    (hinteger : integer → x.val.isInt) :
    parse toLowerCase (.number integer) p (seed (.number integer) (.number x)) =
      .value (.number x) := by
  have hline : lineOf (seed (.number integer) (.number x)) = (Num.finite x).toText :=
    trim_of_trimmed (trimmed_of_isNumberChar (isNumberChar_toText x))
  rw [parse_of_ne_nil (by simp) (by simp) (by rw [hline]; exact toText_ne_nil x), hline]
  exact parseNumber_eq hvalid hinteger

/-- A control of entries reads the entries that its default was printed as. -/
theorem parse_entries {control : Control} {value : JsonValue} {es : List (List Char)}
    (hswitch : control ≠ .switch) (henum : ∀ options, control ≠ .enum options)
    (hseed : seed control value = .string (joinLine es)) (hentries : ∀ e ∈ es, IsEntry e)
    (hne : es ≠ []) : ∃ line, splitEntries line = es ∧
      parse toLowerCase control p (seed control value) = parseLine toLowerCase control p line := by
  obtain ⟨hline, hsplit⟩ := lineOf_joinLine hentries hne
  refine ⟨_, hsplit, ?_⟩
  rw [hseed, parse_of_ne_nil hswitch henum hline]

theorem parse_list {es : List (List Char)}
    (hvalid : Valid p (.array (es.map fun e => .string (String.ofList e))))
    (hentries : ∀ e ∈ es, IsEntry e) (hne : es ≠ []) :
    parse toLowerCase .list p (seed .list (.array (es.map fun e => .string (String.ofList e)))) =
      .value (.array (es.map fun e => .string (String.ofList e))) := by
  have hseed : seed .list (.array (es.map fun e => .string (String.ofList e))) =
      .string (joinLine es) := by
    have htexts : (es.map fun e => (.string (String.ofList e) : JsonValue)).map stringOf = es := by
      rw [List.map_map]
      exact (List.map_congr_left fun e _ => String.toList_ofList).trans (List.map_id es)
    exact congrArg (fun texts => Raw.string (joinLine texts)) htexts
  obtain ⟨line, hline, hparse⟩ :=
    @parse_entries toLowerCase p _ _ _ (by simp) (by simp) hseed hentries hne
  rw [hparse, parseLine, hline]
  exact parseItems_eq _ (by simpa using hne) fun n hn => hvalid.meets.maxItems _ rfl n hn

theorem isEntry_number (x : Double) : IsEntry (Num.finite x).toText where
  ne_nil := toText_ne_nil x
  trimmed := trimmed_of_isNumberChar (isNumberChar_toText x)
  comma hmem := absurd (isNumberChar_toText x _ hmem) (by decide)

theorem readNumber_toText {x : Double} {integer : Bool} (h : integer → x.val.isInt) :
    readNumber integer (Num.finite x).toText = .ok x := by
  have hwhole : ¬(integer && !x.val.isInt) = true := by
    cases integer with
    | false => simp
    | true => simp [h rfl]
  rw [readNumber, toNumber_toText]
  dsimp only
  rw [if_neg hwhole]

theorem parse_numbers_control {count : Option ℕ} {integer : Bool} {xs : List Double}
    (hcount : ∀ n ∈ count, n = xs.length) (hinteger : integer → ∀ x ∈ xs, x.val.isInt)
    (hne : xs ≠ []) : parse toLowerCase (.numbers count integer) p
        (seed (.numbers count integer) (.array (xs.map .number))) =
      .value (.array (xs.map .number)) := by
  have hseed : seed (.numbers count integer) (.array (xs.map .number)) =
      .string (joinLine (xs.map fun x => (Num.finite x).toText)) := by
    have htexts : (xs.map (Value.number (N := Double))).map stringOf =
        xs.map fun x => (Num.finite x).toText := List.map_map
    exact congrArg (fun texts => Raw.string (joinLine texts)) htexts
  have hentries : ∀ e ∈ xs.map fun x => (Num.finite x).toText, IsEntry e := by
    intro e he
    obtain ⟨x, -, rfl⟩ := List.mem_map.mp he
    exact isEntry_number x
  obtain ⟨line, hline, hparse⟩ :=
    @parse_entries toLowerCase p _ _ _ (by simp) (by simp) hseed hentries (by simpa using hne)
  have hread : (xs.map fun x => (Num.finite x).toText).mapM (readNumber integer) = .ok xs := by
    rw [mapM_eq_ok_iff, List.forall₂_map_left_iff, List.forall₂_same]
    exact fun x hx => readNumber_toText fun h => hinteger h x hx
  have hnone : count.filter (· ≠ xs.length) = none := by
    rw [Option.filter_eq_none_iff]
    intro n hn
    simpa using hcount n hn
  rw [hparse, parseLine, hline, parseNumbers, hread]
  dsimp only
  rw [hnone]

theorem parse_pairs {pairs : List (List Char × List Char)} (hnodup : (pairs.map Prod.fst).Nodup)
    (hpairs : ∀ m ∈ pairs, IsEntry m.1 ∧ ':' ∉ m.1 ∧ IsEntry m.2 ∧ m.1 ≠ "__proto__".toList)
    (hne : pairs ≠ []) : parse toLowerCase .pairs p (seed .pairs (.object
        (pairs.map fun m => (String.ofList m.1, .string (String.ofList m.2))))) =
      .value (.object (pairs.map fun m => (String.ofList m.1, .string (String.ofList m.2)))) := by
  have hseed : seed .pairs (.object
      (pairs.map fun m => (String.ofList m.1, .string (String.ofList m.2)))) =
      .string (joinLine (pairs.map fun m => m.1 ++ ':' :: ' ' :: m.2)) := by
    have htexts : (pairs.map fun m =>
        (String.ofList m.1, (.string (String.ofList m.2) : JsonValue))).map
        (fun m => pairText m.1.toList m.2) = pairs.map fun m => m.1 ++ ':' :: ' ' :: m.2 := by
      rw [List.map_map]
      apply List.map_congr_left
      intro m _
      simp [pairText, stringOf]
    exact congrArg (fun texts => Raw.string (joinLine texts)) htexts
  have hentries : ∀ e ∈ pairs.map fun m => m.1 ++ ':' :: ' ' :: m.2, IsEntry e := by
    intro e he
    obtain ⟨m, hm, rfl⟩ := List.mem_map.mp he
    exact isEntry_colon (hpairs m hm).1 (hpairs m hm).2.2.1
  obtain ⟨line, hline, hparse⟩ :=
    @parse_entries toLowerCase p _ _ _ (by simp) (by simp) hseed hentries (by simpa using hne)
  set read := pairs.map fun m => (String.ofList m.1, String.ofList m.2) with hdef
  have hread : (pairs.map fun m => m.1 ++ ':' :: ' ' :: m.2).mapM readPair = .ok read := by
    rw [mapM_eq_ok_iff, hdef, List.forall₂_map_left_iff, List.forall₂_map_right_iff,
      List.forall₂_same]
    exact fun m hm => readPair_colon (hpairs m hm).1 (hpairs m hm).2.1 (hpairs m hm).2.2.1
  have hkept : read.filter (·.1 ≠ "__proto__") = read := by
    rw [List.filter_eq_self]
    intro m hmem
    obtain ⟨m, hm, rfl⟩ := List.mem_map.mp hmem
    rw [decide_eq_true_eq]
    intro heq
    exact (hpairs m hm).2.2.2 (by rw [← heq, String.toList_ofList])
  have hkeys : (read.map Prod.fst).Nodup := by
    rw [hdef, List.map_map]
    have hof : (pairs.map Prod.fst).map String.ofList = pairs.map (Prod.fst ∘ fun m =>
        (String.ofList m.1, String.ofList m.2)) := List.map_map
    rw [← hof]
    exact hnodup.map fun _ _ h => String.ofList_injective h
  have hrows : (mapOf read).rows = read := by
    rw [mapOf, hkept, ObjectSchema.rows_fromEntries hkeys]
  rw [hparse, parseLine, hline, parsePairs, hread]
  dsimp only
  rw [hrows, if_neg (by simpa [hdef] using hne), hdef, List.map_map]
  rfl

/-- The types of valid specs are those the control offers. -/
theorem type_mem_of_valid {types : List (List Char)} (hdrawn : DrawnAs p (.specs types))
    {items : List JsonValue} (hvalid : Valid p (.array items)) {spec : FieldSpec} {item : JsonValue}
    (hitem : item ∈ items) (hspec : SpecOf spec item) : spec.type ∈ types := by
  obtain ⟨-, -, hplain, itemSchema, hitems, -, htypes⟩ := hdrawn
  obtain ⟨-, -, type, options, -, htype, -, hoptions, rfl⟩ := specTypes_eq_some htypes
  obtain ⟨i, hi⟩ := List.mem_iff_getElem?.mp hitem
  obtain ⟨members, rfl, -, -, hlookup, -⟩ := hspec
  have hitemValid := hvalid.item hi (by simp [SchemaProp.itemSchema, hplain, hitems] :
    p.itemSchema i = some itemSchema)
  have hmem : ("type", .string (String.ofList spec.type)) ∈ members := by
    obtain ⟨l₁, l₂, hmembers, -⟩ := List.lookup_eq_some_iff.mp hlookup
    simp [hmembers]
  have henum := (hitemValid.member hmem htype).meets.enum options hoptions
  exact List.mem_map.mpr ⟨_, henum, String.toList_ofList⟩

theorem parse_specs {types : List (List Char)} (hdrawn : DrawnAs p (.specs types))
    {items : List JsonValue} (hvalid : Valid p (.array items)) {specs : List FieldSpec}
    (hspecs : List.Forall₂ SpecOf specs items)
    (hwrites : ∀ spec ∈ specs, WritesSpec toLowerCase spec) (hne : items ≠ []) :
    parse toLowerCase (.specs types) p (seed (.specs types) (.array items)) =
      .value (.array (specs.map FieldSpec.value)) := by
  have hseed : seed (.specs types) (.array items) =
      .string (joinLine (specs.map FieldSpec.entry)) := by
    have htexts : items.map specText = specs.map FieldSpec.entry := by
      have hall : List.Forall₂ (fun spec item => spec.entry = specText item) specs items :=
        hspecs.imp fun _ _ h => (specText_of_specOf h).symm
      exact (List.forall₂_eq_eq_eq ▸ (List.forall₂_map_left_iff.mpr
        (List.forall₂_map_right_iff.mpr hall)) :
          specs.map FieldSpec.entry = items.map specText).symm
    exact congrArg (fun texts => Raw.string (joinLine texts)) htexts
  have hlength := hspecs.length_eq
  have hne' : specs ≠ [] := by
    rintro rfl
    exact hne (List.length_eq_zero_iff.mp hlength.symm)
  have hentries : ∀ e ∈ specs.map FieldSpec.entry, IsEntry e := by
    intro e he
    obtain ⟨spec, hspec, rfl⟩ := List.mem_map.mp he
    exact isEntry_entry (hwrites spec hspec)
  have htypes : ∀ spec ∈ specs, spec.type ∈ types := by
    intro spec hspec
    obtain ⟨i, hi, rfl⟩ := List.mem_iff_getElem.mp hspec
    have hi' : i < items.length := hlength ▸ hi
    exact type_mem_of_valid hdrawn hvalid (List.getElem_mem hi') (hspecs.get hi hi')
  obtain ⟨line, hline, hparse⟩ :=
    @parse_entries toLowerCase p _ _ _ (by simp) (by simp) hseed hentries (by simpa using hne')
  have hread : (specs.map FieldSpec.entry).mapM (readSpec toLowerCase types) = .ok specs := by
    rw [mapM_eq_ok_iff, List.forall₂_map_left_iff, List.forall₂_same]
    exact fun spec hspec => readSpec_entry (hwrites spec hspec) (htypes spec hspec)
  rw [hparse, parseLine, hline, parseSpecs, hread]
  exact parseItems_eq _ (by simpa using hne') fun n hn => by
    rw [List.length_map, hlength]
    exact hvalid.meets.maxItems _ rfl n hn

/-- A valid default that its line can hold is read back from it. -/
theorem parse_seed {control : Control} {d : JsonValue} (hdrawn : DrawnAs p control)
    (hvalid : Valid p d) (hexpressible : Expressible toLowerCase control d) (hne : ¬IsEmpty d) :
    ∃ v, parse toLowerCase control p (seed control d) = .value v ∧ Unchanged control d v := by
  cases control with
  | enum options =>
    cases d with
    | string s => exact ⟨_, parse_enum hne, rfl⟩
    | _ => exact absurd hexpressible id
  | switch =>
    cases d with
    | bool b => exact ⟨_, rfl, rfl⟩
    | _ => exact absurd hexpressible id
  | number integer =>
    cases d with
    | number x => exact ⟨_, parse_number hvalid hexpressible, rfl⟩
    | _ => exact absurd hexpressible id
  | text =>
    cases d with
    | string s => exact ⟨_, parse_text hvalid hexpressible hne, rfl⟩
    | _ => exact absurd hexpressible id
  | list =>
    cases d with
    | array items =>
      obtain ⟨es, rfl, hentries⟩ := hexpressible
      exact ⟨_, parse_list hvalid hentries fun h => hne (by simp [IsEmpty, h]), rfl⟩
    | _ => exact absurd hexpressible id
  | numbers count integer =>
    cases d with
    | array items =>
      obtain ⟨xs, rfl, hcount, hinteger⟩ := hexpressible
      exact ⟨_, parse_numbers_control hcount hinteger fun h => hne (by simp [IsEmpty, h]), rfl⟩
    | _ => exact absurd hexpressible id
  | pairs =>
    cases d with
    | object members =>
      obtain ⟨pairs, rfl, hnodup, hpairs⟩ := hexpressible
      exact ⟨_, parse_pairs hnodup hpairs fun h => hne (by simp [IsEmpty, h]), rfl⟩
    | _ => exact absurd hexpressible id
  | specs types =>
    cases d with
    | array items =>
      obtain ⟨specs, hspecs, hwrites⟩ := hexpressible
      refine ⟨_, parse_specs hdrawn hvalid hspecs hwrites hne, specs, hspecs, ?_⟩
      rw [List.forall₂_map_right_iff, List.forall₂_same]
      exact fun spec _ => specOf_value spec
    | _ => exact absurd hexpressible id
  | group children required => exact absurd hdrawn id

/-- A default that the form can hold: `null` or one that is valid and expressible. -/
def Written (toLowerCase : List Char → List Char) (p : SchemaProp) (control : Control)
    (d : JsonValue) : Prop :=
  d = .null ∨ Valid p d ∧ Expressible toLowerCase control d

/-- An empty default is an empty line. -/
theorem toText_of_isEmpty {control : Control} {d : JsonValue} (hempty : IsEmpty d)
    (h : d = .null ∨ Expressible toLowerCase control d) : toText control d = [] := by
  rcases h with rfl | h
  · rfl
  · cases d with
    | null => rfl
    | bool b => exact absurd hempty id
    | number x => exact absurd hempty id
    | string s =>
      obtain rfl : s = "" := hempty
      cases control with
      | enum options => rfl
      | text => rfl
      | _ => exact absurd h id
    | array items =>
      obtain rfl : items = [] := hempty
      cases control with
      | list => rfl
      | numbers count integer => rfl
      | specs types => rfl
      | _ => exact absurd h id
    | object members =>
      obtain rfl : members = [] := hempty
      cases control with
      | pairs => rfl
      | _ => exact absurd h id

theorem parse_empty {control : Control} (hswitch : control ≠ .switch) :
    parse toLowerCase control p (.string []) = .omitted := by
  cases control with
  | switch => exact absurd rfl hswitch
  | _ => rfl

/-- What a default is printed as is never an error. -/
theorem parse_seed_ne_error {control : Control} {d : JsonValue} (hdrawn : DrawnAs p control)
    (h : Written toLowerCase p control d) (message : String) :
    parse toLowerCase control p (seed control d) ≠ .error message := by
  by_cases hswitch : control = .switch
  · subst hswitch
    exact nofun
  by_cases hempty : IsEmpty d
  · have htext := toText_of_isEmpty hempty (h.imp_right And.right)
    have hseed : seed control d = .string (toText control d) := by
      cases control with
      | switch => exact absurd rfl hswitch
      | _ => rfl
    rw [hseed, htext, parse_empty hswitch]
    exact nofun
  · have hnull : d ≠ .null := by
      rintro rfl
      exact hempty trivial
    obtain ⟨hvalid, hexpressible⟩ := h.resolve_left hnull
    obtain ⟨v, hparse, -⟩ := parse_seed hdrawn hvalid hexpressible hempty
    rw [hparse]
    exact nofun

end Defaults

end HeirsOcr.SchemaArgs
