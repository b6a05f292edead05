import HeirsOcr.JsText
import Mathlib.Data.Prod.Lex
import Mathlib.Data.String.Basic

/-!
# JSON values and what a `jsonb` column keeps of them

A value is a tree; the members of an object come in an order. JavaScript puts the keys
that are array indexes first, and a `jsonb` column keeps one member a key, sorted by the
length of the key and then by its bytes. So a value is not what was written once it is
read back, but what was read is what the column holds when it is written again. Numbers
are those a JavaScript program writes, which a column keeps digit by digit.
-/
namespace HeirsOcr.Json

section Members

variable {ν : Type*}

/-- The order of the keys of a `jsonb` object. -/
def keyRank (key : String) : ℕ ×ₗ String := toLex (key.utf8ByteSize, key)

theorem keyRank_injective : Function.Injective keyRank := by
  intro key key' h
  have hpair : (key.utf8ByteSize, key) = (key'.utf8ByteSize, key') := toLex.injective h
  exact (Prod.mk.inj hpair).2

def Sorted (members : List (String × ν)) : Prop :=
  members.Pairwise fun a b => keyRank a.1 < keyRank b.1

/-- Put a member in its place, unless its key has one. -/
def insertMember (key : String) (value : ν) : List (String × ν) → List (String × ν)
  | [] => [(key, value)]
  | member :: rest =>
    if keyRank key < keyRank member.1 then (key, value) :: member :: rest
    else if key = member.1 then member :: rest
    else member :: insertMember key value rest

theorem mem_insertMember {key : String} {value : ν} {members : List (String × ν)}
    {m : String × ν} (h : m ∈ insertMember key value members) :
    m = (key, value) ∨ m ∈ members := by
  induction members with
  | nil => exact Or.inl (List.mem_singleton.mp h)
  | cons member rest ih =>
    unfold insertMember at h
    split_ifs at h with hlt heq
    · exact List.mem_cons.mp h
    · exact Or.inr h
    · rcases List.mem_cons.mp h with rfl | hrest
      · exact Or.inr List.mem_cons_self
      · exact (ih hrest).imp_right (List.mem_cons_of_mem member)

theorem sorted_insertMember {key : String} {value : ν} {members : List (String × ν)}
    (h : Sorted members) : Sorted (insertMember key value members) := by
  induction members with
  | nil => exact List.pairwise_singleton _ _
  | cons member rest ih =>
    obtain ⟨hfirst, hrest⟩ := List.pairwise_cons.mp h
    unfold insertMember
    split_ifs with hlt heq
    · refine List.pairwise_cons.mpr ⟨fun m hm => ?_, h⟩
      rcases List.mem_cons.mp hm with rfl | hm
      · exact hlt
      · exact hlt.trans (hfirst m hm)
    · exact h
    · refine List.pairwise_cons.mpr ⟨fun m hm => ?_, ih hrest⟩
      rcases mem_insertMember hm with rfl | hm
      · exact lt_of_le_of_ne (not_lt.mp hlt) fun he => heq (keyRank_injective he).symm
      · exact hfirst m hm

theorem insertMember_perm {key : String} (value : ν) {members : List (String × ν)}
    (h : key ∉ members.map Prod.fst) :
    (insertMember key value members).Perm ((key, value) :: members) := by
  induction members with
  | nil => exact List.Perm.refl _
  | cons member rest ih =>
    rw [List.map_cons, List.mem_cons, not_or] at h
    unfold insertMember
    split_ifs with hlt heq
    · exact List.Perm.refl _
    · exact absurd heq h.1
    · exact ((ih h.2).cons member).trans (List.Perm.swap _ _ _)

theorem Sorted.nodup_keys {members : List (String × ν)} (h : Sorted members) :
    (members.map Prod.fst).Nodup := by
  rw [List.Nodup, List.pairwise_map]
  exact List.Pairwise.imp (fun hlt heq => absurd (congrArg keyRank heq) hlt.ne) h

/-- There is one order to put members in. -/
theorem Sorted.eq_of_perm {members members' : List (String × ν)} (h : Sorted members)
    (h' : Sorted members') (hperm : members.Perm members') : members = members' :=
  hperm.eq_of_pairwise (fun _ _ _ _ hab hba => absurd (hab.trans hba) (lt_irrefl _)) h h'

theorem lookup_of_mem {members : List (String × ν)} (hnodup : (members.map Prod.fst).Nodup)
    {key : String} {value : ν} (hmem : (key, value) ∈ members) :
    members.lookup key = some value := by
  induction members with
  | nil => exact absurd hmem List.not_mem_nil
  | cons member rest ih =>
    obtain ⟨hfirst, hrest⟩ := List.nodup_cons.mp hnodup
    rcases List.mem_cons.mp hmem with rfl | hmem
    · exact List.lookup_cons_self
    · have hne : key ≠ member.1 := by
        rintro rfl
        exact hfirst (List.mem_map.mpr ⟨_, hmem, rfl⟩)
      rw [List.lookup_cons, beq_eq_false_iff_ne.mpr hne]
      exact ih hrest hmem

/-- The array index a key is, if it is one. -/
def arrayIndex? (key : String) : Option ℕ :=
  let digits := key.toList
  let index := digits.foldl (fun n c => 10 * n + (c.toNat - 0x30)) 0
  if digits ≠ [] ∧ digits.all JsText.isDigit ∧ (digits.head? = some '0' → digits = ['0']) ∧
      index < 2 ^ 32 - 1 then
    some index
  else none

/-- The order of the properties of an object: its array indexes first, from the least. -/
def propertyOrder (members : List (String × ν)) : List (String × ν) :=
  (members.filter fun m => (arrayIndex? m.1).isSome).insertionSort
      (fun a b => (arrayIndex? a.1).getD 0 ≤ (arrayIndex? b.1).getD 0) ++
    members.filter fun m => !(arrayIndex? m.1).isSome

theorem propertyOrder_perm (members : List (String × ν)) :
    (propertyOrder members).Perm members :=
  ((List.perm_insertionSort _ _).append_right _).trans (List.filter_append_perm _ members)

/-- Without array indexes the properties are in the order they came. -/
theorem propertyOrder_eq_self {members : List (String × ν)}
    (h : ∀ m ∈ members, arrayIndex? m.1 = none) : propertyOrder members = members := by
  have hindexes : (members.filter fun m => (arrayIndex? m.1).isSome) = [] := by
    apply List.filter_eq_nil_iff.mpr
    intro m hm
    simp [h m hm]
  have hothers : (members.filter fun m => !(arrayIndex? m.1).isSome) = members := by
    apply List.filter_eq_self.mpr
    intro m hm
    simp [h m hm]
  rw [propertyOrder, hindexes, hothers, List.insertionSort_nil, List.nil_append]

end Members

inductive Value (N : Type*) where
  | null
  | bool (b : Bool)
  | number (n : N)
  | string (s : String)
  | array (items : List (Value N))
  | object (members : List (String × Value N))
  deriving Repr

variable {N : Type*}

mutual

def Value.decEq [DecidableEq N] : (v w : Value N) → Decidable (v = w)
  | .null, .null => isTrue rfl
  | .bool b, .bool b' => decidable_of_iff (b = b') (by simp)
  | .number n, .number n' => decidable_of_iff (n = n') (by simp)
  | .string s, .string s' => decidable_of_iff (s = s') (by simp)
  | .array items, .array items' =>
    have := decEqItems items items'
    decidable_of_iff (items = items') (by simp)
  | .object members, .object members' =>
    have := decEqMembers members members'
    decidable_of_iff (members = members') (by simp)
  | .null, .bool _ | .null, .number _ | .null, .string _ | .null, .array _ | .null, .object _
  | .bool _, .null | .bool _, .number _ | .bool _, .string _ | .bool _, .array _
  | .bool _, .object _ | .number _, .null | .number _, .bool _ | .number _, .string _
  | .number _, .array _ | .number _, .object _ | .string _, .null | .string _, .bool _
  | .string _, .number _ | .string _, .array _ | .string _, .object _ | .array _, .null
  | .array _, .bool _ | .array _, .number _ | .array _, .string _ | .array _, .object _
  | .object _, .null | .object _, .bool _ | .object _, .number _ | .object _, .string _
  | .object _, .array _ => isFalse nofun

def decEqItems [DecidableEq N] : (items items' : List (Value N)) → Decidable (items = items')
  | [], [] => isTrue rfl
  | [], _ :: _ | _ :: _, [] => isFalse nofun
  | item :: rest, item' :: rest' =>
    have := item.decEq item'
    have := decEqItems rest rest'
    decidable_of_iff (item = item' ∧ rest = rest') (by simp)

def decEqMembers [DecidableEq N] :
    (members members' : List (String × Value N)) → Decidable (members = members')
  | [], [] => isTrue rfl
  | [], _ :: _ | _ :: _, [] => isFalse nofun
  | (key, value) :: rest, (key', value') :: rest' =>
    have := value.decEq value'
    have := decEqMembers rest rest'
    decidable_of_iff ((key = key' ∧ value = value') ∧ rest = rest') (by simp)

end

instance [DecidableEq N] : DecidableEq (Value N) := Value.decEq

/-- Induction over a value: the items of an array and the members of an object are smaller. -/
@[elab_as_elim]
theorem Value.induction {P : Value N → Prop} (null : P .null) (bool : ∀ b, P (.bool b))
    (number : ∀ n, P (.number n)) (string : ∀ s, P (.string s))
    (array : ∀ items, (∀ item ∈ items, P item) → P (.array items))
    (object : ∀ members, (∀ m ∈ members, P m.2) → P (.object members)) (v : Value N) : P v := by
  refine @Value.rec N P (fun items => ∀ item ∈ items, P item) (fun members => ∀ m ∈ members, P m.2)
    (fun m => P m.2) null bool number string array object ?_ ?_ ?_ ?_ ?_ v
  all_goals simp +contextual

mutual

/-- What a `jsonb` column makes of a value: its members sorted, the last one of a key kept. -/
def normalize : Value N → Value N
  | .null => .null
  | .bool b => .bool b
  | .number n => .number n
  | .string s => .string s
  | .array items => .array (normalizeItems items)
  | .object members => .object (normalizeMembers members)

def normalizeItems : List (Value N) → List (Value N)
  | [] => []
  | item :: rest => normalize item :: normalizeItems rest

def normalizeMembers : List (String × Value N) → List (String × Value N)
  | [] => []
  | (key, value) :: rest => insertMember key (normalize value) (normalizeMembers rest)

end

mutual

/-- What `JSON.parse` makes of a value: an object with its properties in their order. -/
def parse : Value N → Value N
  | .null => .null
  | .bool b => .bool b
  | .number n => .number n
  | .string s => .string s
  | .array items => .array (parseItems items)
  | .object members => .object (propertyOrder (parseMembers members))

def parseItems : List (Value N) → List (Value N)
  | [] => []
  | item :: rest => parse item :: parseItems rest

def parseMembers : List (String × Value N) → List (String × Value N)
  | [] => []
  | (key, value) :: rest => (key, parse value) :: parseMembers rest

end

theorem normalizeItems_eq_map (items : List (Value N)) :
    normalizeItems items = items.map normalize := by
  induction items with
  | nil => rfl
  | cons item rest ih => rw [normalizeItems, ih, List.map_cons]

theorem parseItems_eq_map (items : List (Value N)) : parseItems items = items.map parse := by
  induction items with
  | nil => rfl
  | cons item rest ih => rw [parseItems, ih, List.map_cons]

theorem parseMembers_eq_map (members : List (String × Value N)) :
    parseMembers members = members.map fun m => (m.1, parse m.2) := by
  induction members with
  | nil => rfl
  | cons m rest ih => rw [parseMembers, ih, List.map_cons]

theorem sorted_normalizeMembers (members : List (String × Value N)) :
    Sorted (normalizeMembers members) := by
  induction members with
  | nil => exact List.Pairwise.nil
  | cons m rest ih => exact sorted_insertMember ih

theorem mem_normalizeMembers {members : List (String × Value N)} {m : String × Value N}
    (h : m ∈ normalizeMembers members) : ∃ m₀ ∈ members, (m₀.1, normalize m₀.2) = m := by
  induction members with
  | nil => exact absurd h List.not_mem_nil
  | cons first rest ih =>
    rcases mem_insertMember h with rfl | hrest
    · exact ⟨first, List.mem_cons_self, rfl⟩
    · obtain ⟨m₀, hmem, heq⟩ := ih hrest
      exact ⟨m₀, List.mem_cons_of_mem first hmem, heq⟩

/-- An object without a key twice keeps every member. -/
theorem normalizeMembers_perm {members : List (String × Value N)}
    (hnodup : (members.map Prod.fst).Nodup) :
    (normalizeMembers members).Perm (members.map fun m => (m.1, normalize m.2)) := by
  induction members with
  | nil => exact List.Perm.refl _
  | cons first rest ih =>
    obtain ⟨hfirst, hrest⟩ := List.nodup_cons.mp hnodup
    have hnot : first.1 ∉ (normalizeMembers rest).map Prod.fst := by
      intro hkey
      obtain ⟨m, hm, heq⟩ := List.mem_map.mp hkey
      obtain ⟨m₀, hmem, rfl⟩ := mem_normalizeMembers hm
      exact hfirst (List.mem_map.mpr ⟨m₀, hmem, heq⟩)
    exact (insertMember_perm _ hnot).trans ((ih hrest).cons _)

/-- Sorted members come back from any list of them, in any order, whose values do. -/
theorem normalizeMembers_eq {members members' : List (String × Value N)} {f : Value N → Value N}
    (hsorted : Sorted members) (hf : ∀ m ∈ members, normalize (f m.2) = m.2)
    (hperm : members'.Perm (members.map fun m => (m.1, f m.2))) :
    normalizeMembers members' = members := by
  have hkeys : (members'.map Prod.fst).Perm (members.map Prod.fst) := by
    have hmap := hperm.map Prod.fst
    rw [List.map_map] at hmap
    exact hmap
  have hvalues : members.map (fun m => (m.1, normalize (f m.2))) = members := by
    refine (List.map_congr_left fun m hm => ?_).trans (List.map_id members)
    rw [hf m hm]
    rfl
  have hback := normalizeMembers_perm (hkeys.nodup_iff.mpr hsorted.nodup_keys)
  have hall := hback.trans (hperm.map fun m => (m.1, normalize m.2))
  rw [List.map_map] at hall
  exact (sorted_normalizeMembers _).eq_of_perm hsorted (hall.trans (List.Perm.of_eq hvalues))

theorem normalize_normalize (v : Value N) : normalize (normalize v) = normalize v := by
  induction v using Value.induction with
  | null | bool | number | string => rfl
  | array items ih =>
    simp only [normalize, normalizeItems_eq_map, List.map_map]
    exact congrArg Value.array (List.map_congr_left ih)
  | object members ih =>
    have hvalues : ∀ m ∈ normalizeMembers members, normalize (id m.2) = m.2 := by
      intro m hm
      obtain ⟨m₀, hmem, rfl⟩ := mem_normalizeMembers hm
      exact ih m₀ hmem
    have hback := normalizeMembers_eq (sorted_normalizeMembers members) hvalues
      (List.Perm.of_eq (List.map_id _).symm)
    exact congrArg Value.object hback

/-- Reading a value and writing it again gives the value the column held. -/
theorem normalize_parse_normalize (v : Value N) :
    normalize (parse (normalize v)) = normalize v := by
  induction v using Value.induction with
  | null | bool | number | string => rfl
  | array items ih =>
    simp only [normalize, parse, normalizeItems_eq_map, parseItems_eq_map, List.map_map]
    exact congrArg Value.array (List.map_congr_left ih)
  | object members ih =>
    have hvalues : ∀ m ∈ normalizeMembers members, normalize (parse m.2) = m.2 := by
      intro m hm
      obtain ⟨m₀, hmem, rfl⟩ := mem_normalizeMembers hm
      exact ih m₀ hmem
    have hperm : (propertyOrder (parseMembers (normalizeMembers members))).Perm
        ((normalizeMembers members).map fun m => (m.1, parse m.2)) := by
      rw [parseMembers_eq_map]
      exact propertyOrder_perm _
    exact congrArg Value.object
      (normalizeMembers_eq (sorted_normalizeMembers members) hvalues hperm)

/-- What a `jsonb` column can hold. -/
structure Jsonb (N : Type*) where
  value : Value N
  normal : normalize value = value

/-- `JSON.stringify(v)::jsonb`. -/
def Jsonb.ofValue (v : Value N) : Jsonb N := ⟨normalize v, normalize_normalize v⟩

/-- The column as a query returns it. -/
def Jsonb.toValue (d : Jsonb N) : Value N := parse d.value

@[ext]
theorem Jsonb.ext {d d' : Jsonb N} (h : d.value = d'.value) : d = d' := by
  cases d
  cases d'
  simpa using h

theorem Jsonb.ofValue_toValue (d : Jsonb N) : Jsonb.ofValue d.toValue = d := by
  apply Jsonb.ext
  have hback := normalize_parse_normalize d.value
  rw [d.normal] at hback
  exact hback

/-- A value written to a column and read back. -/
def reread (v : Value N) : Value N := (Jsonb.ofValue v).toValue

example : reread (.object [("id", .null), ("b", .bool true), ("10", .array [])] : Value ℕ) =
    .object [("10", .array []), ("b", .bool true), ("id", .null)] := by
  decide +kernel

/-- A value that was read and is written and read once more stays what it was to a column. -/
theorem ofValue_reread_toValue (d : Jsonb N) : Jsonb.ofValue (reread d.toValue) = d := by
  rw [reread, Jsonb.ofValue_toValue, Jsonb.ofValue_toValue]

/-- `v[key]`, where `undefined` is none. -/
def Value.get? (v : Value N) (key : String) : Option (Value N) :=
  match v with
  | .object members => members.lookup key
  | _ => none

@[simp] theorem reread_string (s : String) : reread (.string s : Value N) = .string s := rfl

@[simp] theorem reread_bool (b : Bool) : reread (.bool b : Value N) = .bool b := rfl

@[simp] theorem reread_array (items : List (Value N)) :
    reread (.array items) = .array (items.map reread) := by
  simp only [reread, Jsonb.toValue, Jsonb.ofValue, normalize, parse, normalizeItems_eq_map,
    parseItems_eq_map, List.map_map]
  rfl

/-- The members of an object come back, each as its value does. -/
theorem rereadMembers_perm {members : List (String × Value N)}
    (hnodup : (members.map Prod.fst).Nodup) :
    (propertyOrder (parseMembers (normalizeMembers members))).Perm
      (members.map fun m => (m.1, reread m.2)) := by
  rw [parseMembers_eq_map]
  have hmap := (normalizeMembers_perm hnodup).map fun m => (m.1, parse m.2)
  rw [List.map_map] at hmap
  exact (propertyOrder_perm _).trans hmap

theorem nodup_rereadMembers {members : List (String × Value N)}
    (hnodup : (members.map Prod.fst).Nodup) :
    ((propertyOrder (parseMembers (normalizeMembers members))).map Prod.fst).Nodup := by
  have hsame := ((rereadMembers_perm hnodup).map Prod.fst).nodup_iff
  rw [List.map_map] at hsame
  exact hsame.mpr hnodup

/-- A property of an object is there when the object is read back. -/
theorem get?_reread {members : List (String × Value N)}
    (hnodup : (members.map Prod.fst).Nodup) {key : String} {v : Value N}
    (hmem : (key, v) ∈ members) : (reread (.object members)).get? key = some (reread v) :=
  lookup_of_mem (nodup_rereadMembers hnodup)
    ((rereadMembers_perm hnodup).mem_iff.mpr (List.mem_map.mpr ⟨_, hmem, rfl⟩))

end HeirsOcr.Json
