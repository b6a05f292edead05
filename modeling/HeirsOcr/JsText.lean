import Mathlib.Tactic

/-!
# Text as JavaScript sees it

The character classes and case maps a program written in JavaScript relies on, over
lists of characters. Capitals and small letters are mapped where one side of the map
lies in ASCII; a letter whose both forms lie outside stays as it is.
-/
namespace HeirsOcr.JsText

/-- The class `\s` of a regular expression. -/
def isSpace (c : Char) : Bool :=
  c.toNat ∈ [0x09, 0x0a, 0x0b, 0x0c, 0x0d, 0x20, 0xa0, 0x1680, 0x2028, 0x2029, 0x202f, 0x205f,
    0x3000, 0xfeff] || (0x2000 ≤ c.toNat && c.toNat ≤ 0x200a)

/-- The class `\d`. -/
def isDigit (c : Char) : Bool := 0x30 ≤ c.toNat && c.toNat ≤ 0x39

/-- The capitals of one character; a ligature has several, and some letters leave a mark behind. -/
def upperChar (c : Char) : List Char :=
  if 0x61 ≤ c.toNat && c.toNat ≤ 0x7a then [Char.ofNat (c.toNat - 0x20)]
  else
    match c.toNat with
    | 0xdf => ['S', 'S']
    | 0x131 => ['I']
    | 0x149 => [Char.ofNat 0x2bc, 'N']
    | 0x17f => ['S']
    | 0x1f0 => ['J', Char.ofNat 0x30c]
    | 0x1e96 => ['H', Char.ofNat 0x331]
    | 0x1e97 => ['T', Char.ofNat 0x308]
    | 0x1e98 => ['W', Char.ofNat 0x30a]
    | 0x1e99 => ['Y', Char.ofNat 0x30a]
    | 0x1e9a => ['A', Char.ofNat 0x2be]
    | 0xfb00 => ['F', 'F']
    | 0xfb01 => ['F', 'I']
    | 0xfb02 => ['F', 'L']
    | 0xfb03 => ['F', 'F', 'I']
    | 0xfb04 => ['F', 'F', 'L']
    | 0xfb05 => ['S', 'T']
    | 0xfb06 => ['S', 'T']
    | _ => [c]

def toUpperCase (cs : List Char) : List Char := cs.flatMap upperChar

/-- The small form of one character; the Kelvin sign is a `k`, and a dotted capital `I`
leaves its dot behind. -/
def lowerChar (c : Char) : List Char :=
  if 0x41 ≤ c.toNat && c.toNat ≤ 0x5a then [Char.ofNat (c.toNat + 0x20)]
  else
    match c.toNat with
    | 0x130 => ['i', Char.ofNat 0x307]
    | 0x212a => ['k']
    | _ => [c]

def toLowerCase (cs : List Char) : List Char := cs.flatMap lowerChar

/-- `s.trim()`. -/
def trim (cs : List Char) : List Char :=
  ((cs.dropWhile isSpace).reverse.dropWhile isSpace).reverse

/-- `s.padStart(width, fill)` for a fill of one character. -/
def padStart (width : ℕ) (fill : Char) (cs : List Char) : List Char :=
  List.replicate (width - cs.length) fill ++ cs

/-- As much of a text as fits into so many code units. -/
def takeUnits : ℕ → List Char → List Char
  | _, [] => []
  | n, c :: rest =>
    let unit := if c.toNat < 0x10000 then 1 else 2
    if unit ≤ n then c :: takeUnits (n - unit) rest else []

/-- `s.slice(0, n)`; a character that is cut in two is left out. -/
def slice (s : String) (n : ℕ) : String := String.ofList (takeUnits n s.toList)

/-- Small letters are small, and no letter becomes a space. -/
theorem lowerChar_spec {c d : Char} (h : d ∈ lowerChar c) :
    lowerChar d = [d] ∧ (isSpace c = false → isSpace d = false) := by
  by_cases hcapital : 0x41 ≤ c.toNat ∧ c.toNat ≤ 0x5a
  · obtain ⟨hge, hle⟩ := hcapital
    have hd : d = Char.ofNat (c.toNat + 0x20) := by simpa [lowerChar, hge, hle] using h
    subst hd
    generalize c.toNat = n at hge hle
    interval_cases n <;> exact ⟨by decide, fun _ => by decide⟩
  · have hother : ¬(decide (0x41 ≤ c.toNat) && decide (c.toNat ≤ 0x5a)) = true := by
      simpa using hcapital
    rw [lowerChar, if_neg hother] at h
    split at h
    · simp only [List.mem_cons, List.not_mem_nil, or_false] at h
      rcases h with rfl | rfl <;> exact ⟨by decide, fun _ => by decide⟩
    · obtain rfl := List.mem_singleton.mp h
      exact ⟨by decide, fun _ => by decide⟩
    · rename_i hdotted hkelvin
      obtain rfl := List.mem_singleton.mp h
      refine ⟨?_, id⟩
      rw [lowerChar, if_neg hother]
      split
      · exact absurd ‹_› hdotted
      · exact absurd ‹_› hkelvin
      · rfl

theorem toLowerCase_toLowerCase (cs : List Char) :
    toLowerCase (toLowerCase cs) = toLowerCase cs := by
  induction cs with
  | nil => rfl
  | cons c cs ih =>
    have hc : toLowerCase (lowerChar c) = lowerChar c :=
      (List.flatMap_congr fun d hd => (lowerChar_spec hd).1).trans (List.flatMap_singleton' _)
    simp only [toLowerCase, List.flatMap_cons, List.flatMap_append] at ih hc ⊢
    rw [ih, hc]

/-- No space at either end. -/
def Trimmed (cs : List Char) : Prop :=
  (∀ c ∈ cs.head?, isSpace c = false) ∧ ∀ c ∈ cs.getLast?, isSpace c = false

theorem dropWhile_of_head {cs : List Char} (h : ∀ c ∈ cs.head?, isSpace c = false) :
    cs.dropWhile isSpace = cs := by
  cases cs with
  | nil => rfl
  | cons c cs => simp [h c rfl]

theorem head_dropWhile {cs : List Char} :
    ∀ c ∈ (cs.dropWhile isSpace).head?, isSpace c = false := by
  intro c hc
  have hhead := List.head?_dropWhile_not isSpace cs
  rw [hc] at hhead
  exact hhead

theorem trim_of_trimmed {cs : List Char} (h : Trimmed cs) : trim cs = cs := by
  have hlast : ∀ c ∈ cs.reverse.head?, isSpace c = false := by
    rw [List.head?_reverse]
    exact h.2
  rw [trim, dropWhile_of_head h.1, dropWhile_of_head hlast, List.reverse_reverse]

theorem trimmed_trim (cs : List Char) : Trimmed (trim cs) := by
  constructor
  · intro c hc
    have hprefix : trim cs <+: cs.dropWhile isSpace := by
      rw [← List.reverse_suffix, trim, List.reverse_reverse]
      exact List.dropWhile_suffix isSpace
    obtain ⟨rest, hrest⟩ := hprefix
    have hhead : c ∈ (cs.dropWhile isSpace).head? := by
      rw [← hrest]
      exact List.mem_head?_append_of_mem_head? hc
    exact head_dropWhile c hhead
  · rw [trim, List.getLast?_reverse]
    exact head_dropWhile

theorem lowerChar_ne_nil (c : Char) : lowerChar c ≠ [] := by
  rw [lowerChar]
  split
  · simp
  · split <;> simp

theorem trimmed_toLowerCase {cs : List Char} (h : Trimmed cs) : Trimmed (toLowerCase cs) := by
  constructor
  · cases cs with
    | nil => exact h.1
    | cons c cs =>
      intro d hd
      rw [toLowerCase, List.flatMap_cons, List.head?_append_of_ne_nil _ (lowerChar_ne_nil c)] at hd
      exact (lowerChar_spec (List.mem_of_head? hd)).2 (h.1 c rfl)
  · rcases List.eq_nil_or_concat cs with rfl | ⟨cs, c, rfl⟩
    · exact h.2
    · intro d hd
      rw [toLowerCase, List.concat_eq_append, List.flatMap_append, List.flatMap_singleton,
        List.getLast?_append_of_ne_nil _ (lowerChar_ne_nil c)] at hd
      exact (lowerChar_spec (List.mem_of_getLast? hd)).2 (h.2 c (by simp))

/-- Trimming and lowering once is enough. -/
theorem toLowerCase_trim_idem (cs : List Char) :
    toLowerCase (trim (toLowerCase (trim cs))) = toLowerCase (trim cs) := by
  rw [trim_of_trimmed (trimmed_toLowerCase (trimmed_trim cs)), toLowerCase_toLowerCase]

end HeirsOcr.JsText
