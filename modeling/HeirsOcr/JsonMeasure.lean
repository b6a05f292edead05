import HeirsOcr.Json

/-!
# How large a JSON value is

Four measures of a value: how many values it is made of, how deep its objects and arrays nest,
how long its text is in UTF-16 code units and how long in bytes of UTF-8. The first two are folds
over the tree. A scalar lies as deep as the containers around it, so a path to a scalar is as
long as the nesting and a path to an empty container is shorter by one.
-/
namespace HeirsOcr.Json

variable {N α : Type*}

mutual

/-- What a scalar counts for, and what a container does whose children were folded. -/
def Value.fold (scalar : α) (container : List α → α) : Value N → α
  | .array items => container (foldItems scalar container items)
  | .object members => container (foldMembers scalar container members)
  | .null | .bool _ | .number _ | .string _ => scalar

def foldItems (scalar : α) (container : List α → α) : List (Value N) → List α
  | [] => []
  | item :: rest => item.fold scalar container :: foldItems scalar container rest

def foldMembers (scalar : α) (container : List α → α) : List (String × Value N) → List α
  | [] => []
  | (_, value) :: rest => value.fold scalar container :: foldMembers scalar container rest

end

/-- `Object.values(v)`. -/
def Value.children : Value N → List (Value N)
  | .array items => items
  | .object members => members.map Prod.snd
  | .null | .bool _ | .number _ | .string _ => []

def Value.isScalar : Value N → Bool
  | .array _ | .object _ => false
  | .null | .bool _ | .number _ | .string _ => true

theorem foldItems_eq_map (scalar : α) (container : List α → α) (items : List (Value N)) :
    foldItems scalar container items = items.map (Value.fold scalar container) := by
  induction items with
  | nil => rfl
  | cons item rest ih => rw [foldItems, ih, List.map_cons]

theorem foldMembers_eq_map (scalar : α) (container : List α → α)
    (members : List (String × Value N)) :
    foldMembers scalar container members =
      (members.map Prod.snd).map (Value.fold scalar container) := by
  induction members with
  | nil => rfl
  | cons m rest ih => rw [foldMembers, ih, List.map_cons, List.map_cons]

/-- A fold goes through the children. -/
theorem Value.fold_eq (scalar : α) (container : List α → α) (v : Value N) :
    v.fold scalar container =
      if v.isScalar then scalar else container (v.children.map (Value.fold scalar container)) := by
  cases v with
  | array items => simp [Value.fold, Value.isScalar, Value.children, foldItems_eq_map]
  | object members => simp [Value.fold, Value.isScalar, Value.children, foldMembers_eq_map]
  | null | bool | number | string => rfl

theorem Value.children_of_isScalar {v : Value N} (h : v.isScalar) : v.children = [] := by
  cases v with
  | array | object => cases h
  | null | bool | number | string => rfl

/-- How many values there are in a value, itself one of them. -/
def Value.nodes (v : Value N) : ℕ := v.fold 1 fun counts => counts.sum + 1

/-- How many objects and arrays lie one in another. -/
def Value.nesting (v : Value N) : ℕ := v.fold 0 fun depths => depths.foldr max 0 + 1

/-- How many steps down the longest path takes, to a scalar or to an empty container. -/
def Value.height (v : Value N) : ℕ := v.fold 0 fun heights => (heights.map (· + 1)).foldr max 0

/-- A scalar lies a number of steps down. -/
def Value.ScalarAt : ℕ → Value N → Prop
  | 0, v => v.isScalar
  | n + 1, v => ∃ child ∈ v.children, ScalarAt n child

theorem Value.nodes_of_container {v : Value N} (h : v.isScalar = false) :
    v.nodes = (v.children.map Value.nodes).sum + 1 := by
  rw [nodes, fold_eq, if_neg (by simp [h])]
  rfl

theorem Value.height_of_container {v : Value N} (h : v.isScalar = false) :
    v.height = (v.children.map fun child => child.height + 1).foldr max 0 := by
  rw [height, fold_eq, if_neg (by simp [h]), List.map_map]
  rfl

theorem foldr_max_le {l : List ℕ} {n : ℕ} : l.foldr max 0 ≤ n ↔ ∀ m ∈ l, m ≤ n := by
  induction l with
  | nil => simp
  | cons m l ih => simp [ih]

theorem Value.height_le {v : Value N} {n : ℕ} :
    v.height ≤ n ↔ ∀ child ∈ v.children, child.height + 1 ≤ n := by
  rw [height, fold_eq]
  split_ifs with hscalar
  · simp [children_of_isScalar hscalar]
  · rw [foldr_max_le]
    simp [height]

theorem Value.nesting_le_succ {v : Value N} {n : ℕ} :
    v.nesting ≤ n + 1 ↔ ∀ child ∈ v.children, child.nesting ≤ n := by
  rw [nesting, fold_eq]
  split_ifs with hscalar
  · simp [children_of_isScalar hscalar]
  · rw [Nat.add_le_add_iff_right, foldr_max_le]
    simp [nesting]

theorem Value.nesting_eq_zero {v : Value N} : v.nesting ≤ 0 ↔ v.isScalar := by
  rw [nesting, fold_eq]
  split_ifs with hscalar
  · simp [hscalar]
  · simp [hscalar]

/-- Paths are at most `n` steps long when containers nest one deeper at most and no scalar lies
in the last of them. -/
theorem Value.height_le_iff {v : Value N} {n : ℕ} :
    v.height ≤ n ↔ v.nesting ≤ n + 1 ∧ ¬ v.ScalarAt (n + 1) := by
  induction n generalizing v with
  | zero =>
    rw [height_le, nesting_le_succ, ScalarAt]
    constructor
    · intro hnone
      exact ⟨fun child hchild => absurd (hnone child hchild) (by omega),
        fun ⟨child, hchild, _⟩ => absurd (hnone child hchild) (by omega)⟩
    · rintro ⟨hscalars, hno⟩ child hchild
      exact absurd ⟨child, hchild, nesting_eq_zero.mp (hscalars child hchild)⟩ hno
  | succ n ih =>
    rw [height_le, nesting_le_succ, ScalarAt]
    constructor
    · intro hheight
      have hchild := fun child hc => ih.mp (Nat.le_of_succ_le_succ (hheight child hc))
      exact ⟨fun child hc => (hchild child hc).1,
        fun ⟨child, hc, hscalar⟩ => (hchild child hc).2 hscalar⟩
    · rintro ⟨hnesting, hno⟩ child hc
      exact Nat.succ_le_succ (ih.mpr ⟨hnesting child hc, fun hs => hno ⟨child, hc, hs⟩⟩)

def hexDigits : List Char := "0123456789abcdef".toList

/-- One character of a string as JSON writes it. -/
def quoteChar (c : Char) : List Char :=
  match c.toNat with
  | 0x08 => ['\\', 'b']
  | 0x09 => ['\\', 't']
  | 0x0a => ['\\', 'n']
  | 0x0c => ['\\', 'f']
  | 0x0d => ['\\', 'r']
  | 0x22 => ['\\', '"']
  | 0x5c => ['\\', '\\']
  | n =>
    if n < 0x20 then
      ['\\', 'u', '0', '0', hexDigits.getD (n / 16) '0', hexDigits.getD (n % 16) '0']
    else [c]

def quote (s : String) : List Char := '"' :: s.toList.flatMap quoteChar ++ ['"']

mutual

/-- `JSON.stringify(v)`, where `numberText` writes a number. -/
def stringify (numberText : N → String) : Value N → List Char
  | .null => "null".toList
  | .bool b => if b then "true".toList else "false".toList
  | .number n => (numberText n).toList
  | .string s => quote s
  | .array items => '[' :: List.intercalate [','] (stringifyItems numberText items) ++ [']']
  | .object members =>
    '{' :: List.intercalate [','] (stringifyMembers numberText members) ++ ['}']

def stringifyItems (numberText : N → String) : List (Value N) → List (List Char)
  | [] => []
  | item :: rest => stringify numberText item :: stringifyItems numberText rest

def stringifyMembers (numberText : N → String) : List (String × Value N) → List (List Char)
  | [] => []
  | (key, value) :: rest =>
    (quote key ++ ':' :: stringify numberText value) :: stringifyMembers numberText rest

end

/-- The UTF-16 code units of a text, its `length` to JavaScript. -/
def units (cs : List Char) : ℕ := (cs.map fun c => if c.toNat < 0x10000 then 1 else 2).sum

/-- The bytes of a text in UTF-8. -/
def bytes (cs : List Char) : ℕ := (cs.map Char.utf8Size).sum

/-- A character takes no more code units than bytes. -/
theorem units_le_bytes (cs : List Char) : units cs ≤ bytes cs := by
  refine List.sum_le_sum fun c _ => ?_
  by_cases hnarrow : c.toNat < 0x10000
  · rw [if_pos hnarrow]
    exact Char.utf8Size_pos c
  · have hvalue : c.val.toNat = c.toNat := rfl
    have hwide : ¬ c.val ≤ 0x7f := by
      rw [UInt32.le_iff_toNat_le, hvalue]
      have hlimit : (0x7f : UInt32).toNat = 0x7f := rfl
      omega
    rw [if_neg hnarrow, Char.utf8Size]
    split_ifs with hone
    · exact absurd hone hwide
    all_goals decide

end HeirsOcr.Json
