import HeirsOcr.NumberText

/-!
# Pages of a list

The page and its size come from the query, as whatever a caller typed, and the lists that page in
SQL turn them into `LIMIT` and `OFFSET`. The size is capped and the page is not.
-/
namespace HeirsOcr.Pagination
open Doubles NumberText

/-- A value of the parsed query string. -/
inductive QueryValue where
  | missing
  | text (s : List Char)
  | list (items : List QueryValue)
  | object

mutual

/-- What an element adds to the text of an array. -/
def QueryValue.elementText : QueryValue → List Char
  | .missing => []
  | .text s => s
  | .list items => arrayText items
  | .object => "[object Object]".toList

/-- `String(items)`. -/
def arrayText : List QueryValue → List Char
  | [] => []
  | [item] => item.elementText
  | item :: rest => item.elementText ++ ',' :: arrayText rest

end

/-- `Number(raw)`. -/
def numberOf : QueryValue → NumberText.Num
  | .missing => .nan
  | .text s => toNumber s
  | .list items => toNumber (arrayText items)
  | .object => .nan

/-- `Number(Array.isArray(raw) ? raw[0] : raw)`. -/
def firstNumber : QueryValue → NumberText.Num
  | .list [] => .nan
  | .list (item :: _) => numberOf item
  | raw => numberOf raw

def positiveInt (raw : QueryValue) (fallback : Double) : Double :=
  match firstNumber raw with
  | .finite x => if 1 ≤ x.val then x.floor else fallback
  | _ => fallback

def one : Double := .ofInt 1 (by norm_num)

def DEFAULT_PAGE_SIZE : Double := .ofInt 25 (by norm_num)

def MAX_PAGE_SIZE : Double := .ofInt 200 (by norm_num)

structure PageParams where
  page : Double
  pageSize : Double

def minimum (x y : Double) : Double := if x.val ≤ y.val then x else y

def pageParams (page pageSize : QueryValue) : PageParams where
  page := positiveInt page one
  pageSize := minimum (positiveInt pageSize DEFAULT_PAGE_SIZE) MAX_PAGE_SIZE

inductive Param where
  | text (s : String)
  | number (n : NumberText.Num)
  deriving DecidableEq

/-- A paged statement, and the places of its `LIMIT` and `OFFSET` among the parameters. -/
structure PagedStatement where
  text : String
  params : List Param
  limit : ℕ
  offset : ℕ

/-- The conditions of a `WHERE` and what they are bound to. -/
structure Filter where
  clauses : List String
  params : List Param

/-- Adds a condition on a value, which an absent or empty option does not. -/
def Filter.add (f : Filter) (clause : String) (value : Option String) : Filter :=
  match value.filter (· ≠ "") with
  | none => f
  | some v =>
    let params := f.params ++ [.text v]
    ⟨f.clauses ++ [clause ++ " $" ++ toString params.length], params⟩

def Filter.where' (f : Filter) : String :=
  if f.clauses = [] then "" else "WHERE " ++ " AND ".intercalate f.clauses

inductive Outcome where
  | success
  | error
  deriving DecidableEq, Repr

/-- The lists that page in SQL, with their options. -/
inductive PagedList where
  | documents (tenantId functionKey : Option String) (outcome : Option Outcome)
  | requestLogs (tenantId : String) (functionKey : Option String) (outcome : Option Outcome)
  | deliveries (tenantId : String) (endpointId : Option String)
  | auditEvents (action actor : Option String)

def documentFilter (tenantId functionKey : Option String) (outcome : Option Outcome) : Filter :=
  let outcomeText := outcome.map fun
    | .success => "success"
    | .error => "error"
  ((Filter.add ⟨[], []⟩ "tenant_id =" tenantId).add "function_key =" functionKey).add "outcome ="
    outcomeText

/-- The filter of `listRequestLogsPage`. -/
def filterFor (tenantId : String) (functionKey : Option String) (outcome : Option Outcome) :
    Filter :=
  let f := Filter.add ⟨["tenant_id = $1"], [.text tenantId]⟩ "function_key =" functionKey
  match outcome with
  | none => f
  | some .success => { f with clauses := f.clauses ++ ["status_code < 400"] }
  | some .error => { f with clauses := f.clauses ++ ["status_code >= 400"] }

def deliveryFilter (tenantId : String) (endpointId : Option String) : Filter :=
  Filter.add ⟨["tenant_id = $1"], [.text tenantId]⟩ "endpoint_id =" endpointId

def auditFilter (action actor : Option String) : Filter :=
  (Filter.add ⟨[], []⟩ "action LIKE" ((action.filter (· ≠ "")).map (· ++ "%"))).add "actor =" actor

/-- `(page - 1) * pageSize`, rounded at both steps. -/
def offsetOf (p : PageParams) : NumberText.Num :=
  match NumberText.Num.ofRat (p.page.val - 1) with
  | .finite before => .ofRat (before.val * p.pageSize.val)
  | other => other

/-- The filter's parameters, and behind them the size and the offset. -/
def pagedStatement (select : String) (f : Filter) (p : PageParams) : PagedStatement :=
  let paged := f.params ++ [.number (.finite p.pageSize), .number (offsetOf p)]
  { text := select ++ " " ++ f.where' ++ " ORDER BY created_at DESC, id DESC LIMIT $" ++
      toString (paged.length - 1) ++ " OFFSET $" ++ toString paged.length
    params := paged
    limit := paged.length - 1
    offset := paged.length }

def PagedList.statement : PagedList → PageParams → PagedStatement
  | .documents tenantId functionKey outcome =>
    pagedStatement
      ("SELECT id, tenant_id, function_key, file_name, byte_size, page_count, outcome, provider, " ++
        "tokens_used, duration_ms, created_at, storage_key FROM documents")
      (documentFilter tenantId functionKey outcome)
  | .requestLogs tenantId functionKey outcome =>
    pagedStatement "SELECT * FROM request_logs" (filterFor tenantId functionKey outcome)
  | .deliveries tenantId endpointId =>
    pagedStatement "SELECT * FROM webhook_deliveries" (deliveryFilter tenantId endpointId)
  | .auditEvents action actor =>
    pagedStatement
      ("SELECT id, action, actor, actor_label, target, target_label, metadata, created_at " ++
        "FROM audit_events")
      (auditFilter action actor)

/-- The parameter a placeholder is bound to. -/
def PagedStatement.bound (s : PagedStatement) (placeholder : ℕ) : Option Param :=
  s.params[placeholder - 1]?

/-- The whole number a raw value asks for. -/
def asked (raw : QueryValue) (fallback : ℕ) : ℕ :=
  match firstNumber raw with
  | .finite x => if 1 ≤ x.val then ⌊x.val⌋.toNat else fallback
  | _ => fallback

/-- The size a raw value asks for, at most the largest. -/
def askedSize (raw : QueryValue) : ℕ := min (asked raw 25) 200

/-- `LIMIT` is the size asked for, between 1 and the largest, and `OFFSET` is exactly the number
of rows before the page, in the range of a `bigint`. -/
structure Usable (s : PagedStatement) (page pageSize : QueryValue) : Prop where
  limit : ∃ x : Double, s.bound s.limit = some (.number (.finite x)) ∧
    x.val = askedSize pageSize ∧ 1 ≤ askedSize pageSize ∧ askedSize pageSize ≤ 200
  offset : ∃ x : Double, s.bound s.offset = some (.number (.finite x)) ∧
    x.val = ((asked page 1 - 1) * askedSize pageSize : ℕ) ∧
    (asked page 1 - 1) * askedSize pageSize < 2 ^ 63

section Values

variable {raw page pageSize : QueryValue}

theorem one_le_asked {fallback : ℕ} (h : 1 ≤ fallback) : 1 ≤ asked raw fallback := by
  rw [asked]
  cases firstNumber raw with
  | nan => exact h
  | infinity negative => exact h
  | finite x =>
    dsimp only
    split_ifs with hx
    · have hfloor : (1 : ℤ) ≤ ⌊x.val⌋ := Int.le_floor.mpr (by exact_mod_cast hx)
      omega
    · exact h

/-- The code's value is the one asked for. -/
theorem positiveInt_val {fallback : Double} {n : ℕ} (h : fallback.val = n) :
    (positiveInt raw fallback).val = asked raw n := by
  rw [positiveInt, asked]
  cases firstNumber raw with
  | nan => exact h
  | infinity negative => exact h
  | finite x =>
    dsimp only
    split_ifs with hx
    · have hfloor : (0 : ℤ) ≤ ⌊x.val⌋ := Int.floor_nonneg.mpr (by linarith)
      have hcast : ((⌊x.val⌋.toNat : ℤ) : ℚ) = (⌊x.val⌋ : ℚ) := by
        rw [Int.toNat_of_nonneg hfloor]
      have hval : (x.floor).val = (⌊x.val⌋ : ℚ) := rfl
      rw [hval]
      exact_mod_cast hcast.symm
    · exact h

theorem pageSize_val : (pageParams page pageSize).pageSize.val = askedSize pageSize := by
  have hsize : (positiveInt pageSize DEFAULT_PAGE_SIZE).val = asked pageSize 25 :=
    positiveInt_val (by norm_num [DEFAULT_PAGE_SIZE, Double.ofInt])
  have hmax : MAX_PAGE_SIZE.val = 200 := by norm_num [MAX_PAGE_SIZE, Double.ofInt]
  rw [pageParams, minimum, hsize, hmax, askedSize]
  split_ifs with hle
  · have hnat : asked pageSize 25 ≤ 200 := by exact_mod_cast hle
    rw [hsize, min_eq_left hnat]
  · have hnat : 200 ≤ asked pageSize 25 := by
      have hlt := not_le.mp hle
      exact_mod_cast hlt.le
    rw [hmax, min_eq_right hnat]
    norm_num

theorem page_val : (pageParams page pageSize).page.val = asked page 1 :=
  positiveInt_val (by norm_num [one, Double.ofInt])

theorem bound_limit (select : String) (f : Filter) (p : PageParams) :
    (pagedStatement select f p).bound (pagedStatement select f p).limit =
      some (.number (.finite p.pageSize)) := by
  simp [PagedStatement.bound, pagedStatement]

theorem bound_offset (select : String) (f : Filter) (p : PageParams) :
    (pagedStatement select f p).bound (pagedStatement select f p).offset =
      some (.number (offsetOf p)) := by
  simp [PagedStatement.bound, pagedStatement]

end Values

/-- The rows before a page, while they are few enough to be a `bigint` and a number of double
precision. -/
def Reachable (page pageSize : QueryValue) : Prop :=
  let rows := (asked page 1 - 1) * askedSize pageSize
  rows < 2 ^ 63 ∧ ∃ m k : ℕ, m < 2 ^ 53 ∧ rows = m * 2 ^ k

theorem le_maxFinite_of_lt {n : ℕ} (h : n < 2 ^ 63) : (n : ℚ) ≤ maxFinite := by
  have hcast : (n : ℚ) ≤ 2 ^ 63 := by exact_mod_cast h.le
  calc (n : ℚ) ≤ (2 ^ 53 - 1) * 2 ^ 11 := hcast.trans (by norm_num)
    _ ≤ maxFinite :=
        mul_le_mul_of_nonneg_left (pow_le_pow_right₀ (by norm_num) (by norm_num)) (by norm_num)

theorem ofRat_of_isDouble {q : ℚ} (h : IsDouble q) : NumberText.Num.ofRat q = .finite ⟨q, h⟩ :=
  NumberText.Num.ofRat_val ⟨q, h⟩

/-- Both steps of the product are exact when the product is a double. -/
theorem offsetOf_eq {page pageSize : QueryValue} (h : Reachable page pageSize) :
    ∃ x : Double, offsetOf (pageParams page pageSize) = .finite x ∧
      x.val = ((asked page 1 - 1) * askedSize pageSize : ℕ) := by
  obtain ⟨hlt, hodd⟩ := h
  have hrows : IsDouble (((asked page 1 - 1) * askedSize pageSize : ℕ) : ℚ) :=
    (isDouble_natCast_iff (le_maxFinite_of_lt hlt)).mpr hodd
  have hpage : (pageParams page pageSize).page.val = asked page 1 := page_val
  have hpos : 1 ≤ asked page 1 := one_le_asked le_rfl
  have hsize : 1 ≤ askedSize pageSize := le_min (one_le_asked (by norm_num)) (by norm_num)
  obtain ⟨n, hn⟩ := Nat.exists_eq_add_of_le' hpos
  have hdouble : IsDouble ((n + 1 : ℕ) : ℚ) := by
    rw [← hn, ← hpage]
    exact (pageParams page pageSize).page.isDouble
  rw [hn, Nat.add_sub_cancel] at hrows ⊢
  have hbefore := isDouble_pred_of_mul hdouble hsize hrows
  refine ⟨⟨_, hrows⟩, ?_, rfl⟩
  have hsub : (pageParams page pageSize).page.val - 1 = n := by
    rw [hpage, hn]
    push_cast
    ring
  have hmul : (n : ℚ) * (pageParams page pageSize).pageSize.val =
      ((n * askedSize pageSize : ℕ) : ℚ) := by
    rw [pageSize_val]
    push_cast
    rfl
  rw [offsetOf, hsub, ofRat_of_isDouble hbefore]
  dsimp only
  rw [hmul, ofRat_of_isDouble hrows]

/-- The page parameters are usable if and only if the rows before the page are a number of double
precision in the range of a `bigint`. -/
theorem usable_iff (list : PagedList) (page pageSize : QueryValue) :
    Usable (list.statement (pageParams page pageSize)) page pageSize ↔
      Reachable page pageSize := by
  obtain ⟨select, f, hstatement⟩ : ∃ select f, list.statement = pagedStatement select f := by
    cases list <;> exact ⟨_, _, rfl⟩
  rw [hstatement]
  constructor
  · intro h
    obtain ⟨x, -, hx, hlt⟩ := h.offset
    have hdouble := x.isDouble
    rw [hx] at hdouble
    exact ⟨hlt, (isDouble_natCast_iff (le_maxFinite_of_lt hlt)).mp hdouble⟩
  · intro h
    obtain ⟨x, hoffset, hx⟩ := offsetOf_eq h
    refine ⟨⟨_, bound_limit _ _ _, pageSize_val, ?_, min_le_right _ _⟩, x, ?_, hx, h.1⟩
    · exact le_min (one_le_asked (by norm_num)) (by norm_num)
    · rw [bound_offset, hoffset]

/-- `?page=1e19`. -/
def farPage : QueryValue := .text "1e19".toList

theorem far_page_unusable :
    ¬ Usable ((PagedList.documents none none none).statement (pageParams farPage .missing))
      farPage .missing := by
  intro h
  obtain ⟨-, -, -, hlt⟩ := h.offset
  revert hlt
  decide +kernel

end HeirsOcr.Pagination
