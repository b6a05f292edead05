import HeirsOcr.JsText

/-!
# Redaction of log fields

A logger for the requests of a sensitive function hands its fields on with the values of certain
keys replaced. The redaction goes down objects, to a bounded depth, and takes an array as it is.
A log field is a tree of objects and arrays. The question is what the logger underneath can tell
of the values under the sensitive keys of the tree, wherever in it they are.
-/
namespace HeirsOcr.LogRedaction

variable {α : Type*}

/-- A value of a log entry; `other` is what is neither a string, an array nor an object. An object
is its own enumerable properties, in order. -/
inductive LogValue (α : Type*) where
  | string (s : String)
  | other (a : α)
  | array (items : List (LogValue α))
  | object (fields : List (String × LogValue α))
  deriving Repr

abbrev LogFields (α : Type*) := List (String × LogValue α)

def toLowerCase (s : String) : String := String.ofList (JsText.toLowerCase s.toList)

def SENSITIVE_LOG_KEYS : List String :=
  ["markdown", "plainText", "plaintext", "text", "content", "result", "fields", "field",
    "fullName", "surname", "firstName", "middleName", "dateOfBirth", "documentNumber", "mrz",
    "cropUrl", "signatoryName"].map toLowerCase

def REDACTED : String := "[redacted]"

def isSensitive (key : String) : Bool := toLowerCase key ∈ SENSITIVE_LOG_KEYS

mutual

/-- What is put under a key that is not sensitive, in the entries of an object at `depth`. -/
def redactValue (depth : ℕ) : LogValue α → LogValue α
  | .object fields =>
    .object (if depth + 1 > 4 then fields else redactEntries (depth + 1) fields)
  | .string s => .string s
  | .other a => .other a
  | .array items => .array items

/-- The loop over the entries. To assign to `__proto__` makes no property. -/
def redactEntries (depth : ℕ) : LogFields α → LogFields α
  | [] => []
  | (key, value) :: rest =>
    if isSensitive key then (key, .string REDACTED) :: redactEntries depth rest
    else if key = "__proto__" then redactEntries depth rest
    else (key, redactValue depth value) :: redactEntries depth rest

end

def redactFields (fields : LogFields α) (depth : ℕ) : LogFields α :=
  if depth > 4 then fields else redactEntries depth fields

mutual

/-- Every value under a sensitive key, at any depth and inside any array, replaced by `s`. -/
def hideValue (s : String) : LogValue α → LogValue α
  | .string t => .string t
  | .other a => .other a
  | .array items => .array (hideItems s items)
  | .object fields => .object (hideEntries s fields)

def hideItems (s : String) : List (LogValue α) → List (LogValue α)
  | [] => []
  | item :: rest => hideValue s item :: hideItems s rest

def hideEntries (s : String) : LogFields α → LogFields α
  | [] => []
  | (key, value) :: rest =>
    (key, if isSensitive key then .string s else hideValue s value) :: hideEntries s rest

end

mutual

/-- No key in the tree is sensitive. -/
def plainValue : LogValue α → Bool
  | .string _ | .other _ => true
  | .array items => plainItems items
  | .object fields => plainEntries fields

def plainItems : List (LogValue α) → Bool
  | [] => true
  | item :: rest => plainValue item && plainItems rest

def plainEntries : LogFields α → Bool
  | [] => true
  | (key, value) :: rest => !isSensitive key && plainValue value && plainEntries rest

end

mutual

def coveredValue (depth : ℕ) : LogValue α → Bool
  | .object fields =>
    if depth + 1 > 4 then plainEntries fields else coveredEntries (depth + 1) fields
  | .string _ | .other _ => true
  | .array items => plainItems items

/-- Every sensitive key is where the redaction gets to: not inside an array, and not in objects
more than four levels down. -/
def coveredEntries (depth : ℕ) : LogFields α → Bool
  | [] => true
  | (key, value) :: rest =>
    (isSensitive key || key = "__proto__" || coveredValue depth value) &&
      coveredEntries depth rest

end

inductive LogLevel where
  | debug | info | warn | error
  deriving DecidableEq, Repr

/-- A call of a logger or of a child of it, with the fields each child on the way was made of. -/
structure LogCall (α : Type*) where
  children : List (LogFields α)
  level : LogLevel
  msg : String
  fields : Option (LogFields α)

abbrev Logger (α ω : Type*) := LogCall α → ω

def Logger.child {ω : Type*} (logger : Logger α ω) (fields : LogFields α) : Logger α ω :=
  fun call => logger { call with children := fields :: call.children }

def createRedactingLogger {ω : Type*} (inner : Logger α ω) : Logger α ω :=
  fun call => inner { call with
    children := call.children.map fun fields => redactFields fields 0
    fields := call.fields.map fun fields => redactFields fields 0 }

/-- A child of a redacting logger redacts, and is made of redacted fields. -/
theorem child_createRedactingLogger {ω : Type*} (inner : Logger α ω) (fields : LogFields α) :
    (createRedactingLogger inner).child fields =
      createRedactingLogger (inner.child (redactFields fields 0)) := rfl

def LogCall.hide (s : String) (call : LogCall α) : LogCall α :=
  { call with
    children := call.children.map (hideEntries s)
    fields := call.fields.map (hideEntries s) }

/-- Two calls that differ at most in what stands under sensitive keys. -/
def EqualButSensitive (call call' : LogCall α) : Prop := call.hide REDACTED = call'.hide REDACTED

def LogCall.Covered (call : LogCall α) : Prop :=
  (∀ fields ∈ call.children, coveredEntries 0 fields = true) ∧
    ∀ fields ∈ call.fields, coveredEntries 0 fields = true

section Hide

variable (s s' : String)

mutual

theorem hideValue_hideValue : ∀ v : LogValue α, hideValue s (hideValue s' v) = hideValue s v
  | .string _ | .other _ => rfl
  | .array items => by rw [hideValue, hideValue, hideItems_hideItems, hideValue]
  | .object fields => by rw [hideValue, hideValue, hideEntries_hideEntries, hideValue]

theorem hideItems_hideItems :
    ∀ items : List (LogValue α), hideItems s (hideItems s' items) = hideItems s items
  | [] => rfl
  | item :: rest => by
    rw [hideItems, hideItems, hideValue_hideValue, hideItems_hideItems, hideItems]

theorem hideEntries_hideEntries :
    ∀ fields : LogFields α, hideEntries s (hideEntries s' fields) = hideEntries s fields
  | [] => rfl
  | (key, value) :: rest => by
    rw [hideEntries, hideEntries, hideEntries_hideEntries, hideEntries]
    by_cases hkey : isSensitive key = true
    · simp [hkey]
    · simp [hkey, hideValue_hideValue]

end

mutual

theorem plainValue_hideValue : ∀ v : LogValue α, plainValue (hideValue s v) = plainValue v
  | .string _ | .other _ => rfl
  | .array items => by rw [hideValue, plainValue, plainItems_hideItems, plainValue]
  | .object fields => by rw [hideValue, plainValue, plainEntries_hideEntries, plainValue]

theorem plainItems_hideItems :
    ∀ items : List (LogValue α), plainItems (hideItems s items) = plainItems items
  | [] => rfl
  | item :: rest => by
    rw [hideItems, plainItems, plainValue_hideValue, plainItems_hideItems, plainItems]

theorem plainEntries_hideEntries :
    ∀ fields : LogFields α, plainEntries (hideEntries s fields) = plainEntries fields
  | [] => rfl
  | (key, value) :: rest => by
    rw [hideEntries, plainEntries, plainEntries_hideEntries, plainEntries]
    by_cases hkey : isSensitive key = true
    · simp [hkey]
    · simp [hkey, plainValue_hideValue]

end

mutual

theorem coveredValue_hideValue (depth : ℕ) :
    ∀ v : LogValue α, coveredValue depth (hideValue s v) = coveredValue depth v
  | .string _ | .other _ => rfl
  | .array items => by rw [hideValue, coveredValue, plainItems_hideItems, coveredValue]
  | .object fields => by
    rw [hideValue, coveredValue, plainEntries_hideEntries, coveredEntries_hideEntries,
      coveredValue]

theorem coveredEntries_hideEntries (depth : ℕ) :
    ∀ fields : LogFields α, coveredEntries depth (hideEntries s fields) =
      coveredEntries depth fields
  | [] => rfl
  | (key, value) :: rest => by
    rw [hideEntries, coveredEntries, coveredEntries_hideEntries, coveredEntries]
    by_cases hkey : isSensitive key = true
    · simp [hkey]
    · simp [hkey, coveredValue_hideValue]

end

mutual

theorem hideValue_of_plain : ∀ v : LogValue α, plainValue v = true → hideValue s v = v
  | .string _, _ | .other _, _ => rfl
  | .array items, h => by
    rw [plainValue] at h
    rw [hideValue, hideItems_of_plain items h]
  | .object fields, h => by
    rw [plainValue] at h
    rw [hideValue, hideEntries_of_plain fields h]

theorem hideItems_of_plain :
    ∀ items : List (LogValue α), plainItems items = true → hideItems s items = items
  | [], _ => rfl
  | item :: rest, h => by
    rw [plainItems, Bool.and_eq_true] at h
    rw [hideItems, hideValue_of_plain item h.1, hideItems_of_plain rest h.2]

theorem hideEntries_of_plain :
    ∀ fields : LogFields α, plainEntries fields = true → hideEntries s fields = fields
  | [], _ => rfl
  | (key, value) :: rest, h => by
    simp only [plainEntries, Bool.and_eq_true, Bool.not_eq_true'] at h
    have hvalue := hideValue_of_plain value h.1.2
    have hrest := hideEntries_of_plain rest h.2
    simp [hideEntries, h.1.1, hvalue, hrest]

end

mutual

theorem redactValue_hideValue (depth : ℕ) : ∀ v : LogValue α, coveredValue depth v = true →
    redactValue depth (hideValue s v) = redactValue depth v
  | .string _, _ | .other _, _ => rfl
  | .array items, h => by
    rw [coveredValue] at h
    rw [hideValue, hideItems_of_plain s items h]
  | .object fields, h => by
    rw [coveredValue] at h
    rw [hideValue, redactValue, redactValue]
    split_ifs at h with hdepth
    · rw [if_pos hdepth, if_pos hdepth, hideEntries_of_plain s fields h]
    · rw [if_neg hdepth, if_neg hdepth, redactEntries_hideEntries (depth + 1) fields h]

theorem redactEntries_hideEntries (depth : ℕ) : ∀ fields : LogFields α,
    coveredEntries depth fields = true →
      redactEntries depth (hideEntries s fields) = redactEntries depth fields
  | [], _ => rfl
  | (key, value) :: rest, h => by
    rw [coveredEntries, Bool.and_eq_true] at h
    have hrest := redactEntries_hideEntries depth rest h.2
    rw [hideEntries, redactEntries, redactEntries, hrest]
    by_cases hkey : isSensitive key = true
    · simp [hkey]
    · by_cases hproto : key = "__proto__"
      · simp [hproto]
      · have hvalue := redactValue_hideValue depth value (by simpa [hkey, hproto] using h.1)
        simp [hkey, hproto, hvalue]

end

end Hide

section Exposed

variable {s s' : String}

mutual

theorem plainValue_of_hideValue_eq (hne : s ≠ s') : ∀ v : LogValue α,
    hideValue s v = hideValue s' v → plainValue v = true
  | .string _, _ | .other _, _ => rfl
  | .array items, h => by
    rw [hideValue, hideValue, LogValue.array.injEq] at h
    rw [plainValue]
    exact plainItems_of_hideItems_eq hne items h
  | .object fields, h => by
    rw [hideValue, hideValue, LogValue.object.injEq] at h
    rw [plainValue]
    exact plainEntries_of_hideEntries_eq hne fields h

theorem plainItems_of_hideItems_eq (hne : s ≠ s') : ∀ items : List (LogValue α),
    hideItems s items = hideItems s' items → plainItems items = true
  | [], _ => rfl
  | item :: rest, h => by
    rw [hideItems, hideItems, List.cons.injEq] at h
    rw [plainItems, plainValue_of_hideValue_eq hne item h.1,
      plainItems_of_hideItems_eq hne rest h.2, Bool.and_self]

theorem plainEntries_of_hideEntries_eq (hne : s ≠ s') : ∀ fields : LogFields α,
    hideEntries s fields = hideEntries s' fields → plainEntries fields = true
  | [], _ => rfl
  | (key, value) :: rest, h => by
    rw [hideEntries, hideEntries, List.cons.injEq, Prod.mk.injEq] at h
    have hrest := plainEntries_of_hideEntries_eq hne rest h.2
    have hvalue := h.1.2
    by_cases hkey : isSensitive key = true
    · rw [if_pos hkey, if_pos hkey, LogValue.string.injEq] at hvalue
      exact absurd hvalue hne
    · rw [if_neg hkey, if_neg hkey] at hvalue
      simp [plainEntries, hkey, hrest, plainValue_of_hideValue_eq hne value hvalue]

end

mutual

theorem coveredValue_of_redactValue_eq (hne : s ≠ s') (depth : ℕ) : ∀ v : LogValue α,
    redactValue depth (hideValue s v) = redactValue depth (hideValue s' v) →
      coveredValue depth v = true
  | .string _, _ | .other _, _ => rfl
  | .array items, h => by
    simp only [hideValue, redactValue, LogValue.array.injEq] at h
    rw [coveredValue]
    exact plainItems_of_hideItems_eq hne items h
  | .object fields, h => by
    simp only [hideValue, redactValue, LogValue.object.injEq] at h
    rw [coveredValue]
    split_ifs at h ⊢ with hdepth
    · exact plainEntries_of_hideEntries_eq hne fields h
    · exact coveredEntries_of_redactEntries_eq hne (depth + 1) fields h

theorem coveredEntries_of_redactEntries_eq (hne : s ≠ s') (depth : ℕ) : ∀ fields : LogFields α,
    redactEntries depth (hideEntries s fields) = redactEntries depth (hideEntries s' fields) →
      coveredEntries depth fields = true
  | [], _ => rfl
  | (key, value) :: rest, h => by
    rw [hideEntries, hideEntries, redactEntries, redactEntries] at h
    rw [coveredEntries, Bool.and_eq_true]
    by_cases hkey : isSensitive key = true
    · rw [if_pos hkey, if_pos hkey, List.cons.injEq] at h
      exact ⟨by simp [hkey], coveredEntries_of_redactEntries_eq hne depth rest h.2⟩
    · by_cases hproto : key = "__proto__"
      · simp only [if_neg hkey, if_pos hproto] at h
        exact ⟨by simp [hproto], coveredEntries_of_redactEntries_eq hne depth rest h⟩
      · simp only [if_neg hkey, if_neg hproto, List.cons.injEq, Prod.mk.injEq] at h
        have hvalue := coveredValue_of_redactValue_eq hne depth value h.1.2
        exact ⟨by simp [hvalue], coveredEntries_of_redactEntries_eq hne depth rest h.2⟩

end

end Exposed

theorem redactFields_zero (fields : LogFields α) :
    redactFields fields 0 = redactEntries 0 fields := by
  simp [redactFields]

theorem coveredEntries_of_redactFields_eq {fields : LogFields α}
    (h : redactFields (hideEntries "0" fields) 0 = redactFields (hideEntries "1" fields) 0) :
    coveredEntries 0 fields = true := by
  rw [redactFields_zero, redactFields_zero] at h
  exact coveredEntries_of_redactEntries_eq (by decide) 0 fields h

theorem hide_hide (s s' : String) (call : LogCall α) : (call.hide s).hide s' = call.hide s' := by
  have hfields : (hideEntries s' ∘ hideEntries s : LogFields α → LogFields α) = hideEntries s' :=
    funext fun fields => hideEntries_hideEntries s' s fields
  simp [LogCall.hide, hfields]

theorem covered_hide (s : String) (call : LogCall α) : (call.hide s).Covered ↔ call.Covered := by
  simp [LogCall.Covered, LogCall.hide, coveredEntries_hideEntries]

/-- What stands under the sensitive keys of a covered call does not reach the logger
underneath. -/
theorem createRedactingLogger_hide {ω : Type*} (inner : Logger α ω) {call : LogCall α}
    (hcov : call.Covered) (s : String) :
    createRedactingLogger inner (call.hide s) = createRedactingLogger inner call := by
  have hredact (fields : LogFields α) (hfields : coveredEntries 0 fields = true) :
      redactFields (hideEntries s fields) 0 = redactFields fields 0 := by
    rw [redactFields_zero, redactEntries_hideEntries s 0 fields hfields, redactFields_zero]
  have hchildren := List.map_congr_left fun fields h => hredact fields (hcov.1 fields h)
  have hfields := Option.map_congr fun fields h => hredact fields (hcov.2 fields h)
  simp only [createRedactingLogger, LogCall.hide, List.map_map, Option.map_map, Function.comp_def]
  rw [hchildren, hfields]

/-- Exactly when all sensitive keys of a call are where the redaction gets to, no logger
underneath can tell the call from one with other values under these keys. -/
theorem redacted_alike_iff (call : LogCall α) :
    (∀ call', EqualButSensitive call' call → ∀ inner : Logger α (LogCall α),
      createRedactingLogger inner call' = createRedactingLogger inner call) ↔ call.Covered := by
  constructor
  · intro h
    have hsame (s : String) := h (call.hide s) (hide_hide s REDACTED call) id
    have htwo := (hsame "0").trans (hsame "1").symm
    simp only [createRedactingLogger, LogCall.hide, id_eq, LogCall.mk.injEq, List.map_map,
      Option.map_map, true_and] at htwo
    constructor
    · intro fields hfields
      exact coveredEntries_of_redactFields_eq (List.map_inj_left.mp htwo.1 fields hfields)
    · intro fields hfields
      rw [hfields] at htwo
      exact coveredEntries_of_redactFields_eq (Option.some.inj htwo.2)
  · intro hcov call' halike inner
    have hcov' : call'.Covered := by
      rw [← covered_hide REDACTED, halike, covered_hide]
      exact hcov
    rw [← createRedactingLogger_hide inner hcov' REDACTED, halike,
      createRedactingLogger_hide inner hcov REDACTED]

/-- A log line with the pages of a document: the text of the page is inside an array. -/
def pages (text : String) : LogCall ℕ where
  children := []
  level := .info
  msg := "pages"
  fields := some [("pages", .array [.object [("text", .string text)]])]

/-- An array keeps what is in it. -/
theorem array_not_redacted : ¬ ∀ call call' : LogCall ℕ, EqualButSensitive call' call →
    ∀ inner : Logger ℕ (LogCall ℕ),
      createRedactingLogger inner call' = createRedactingLogger inner call := by
  intro hall
  have halike : EqualButSensitive (pages "Ada") (pages "Ben") := by
    have hkey : isSensitive "text" = true := by decide +kernel
    have hother : isSensitive "pages" = false := by decide +kernel
    simp [EqualButSensitive, LogCall.hide, pages, hideEntries, hideValue, hideItems, hkey, hother]
  have hsame := hall (pages "Ben") (pages "Ada") halike id
  have hother : isSensitive "pages" = false := by decide +kernel
  simp [createRedactingLogger, pages, redactFields, redactEntries, redactValue, hother] at hsame

end HeirsOcr.LogRedaction
