import HeirsOcr.Calendar
import HeirsOcr.DecimalText
import HeirsOcr.Runs
import HeirsOcr.UnicodeTables

/-!
# Dates on identity documents

A date as printed is cut into words and numbers, read as year, month and day, and written in one
form. What is written is a date of the calendar; it is in that one form, and stays as it is when
read again, unless a year of more than four digits stood beside the name of a month.
-/
namespace HeirsOcr.IdVerification
open JsText AddressText DecimalText Calendar Runs

variable (u : Unicode)

inductive Kind where
  | letters
  | digits
  deriving DecidableEq

def kind (c : Char) : Option Kind :=
  if 0x41 ≤ c.toNat && c.toNat ≤ 0x5a then some .letters
  else if isDigit c then some .digits else none

/-- `.toUpperCase().match(/[A-Z]+|\d+/g)` of the text without diacritics. -/
def tokensOf (value : List Char) : List (List Char) :=
  runs kind (toUpperCase (stripDiacritics u value))

def isNumber (token : List Char) : Bool := token ≠ [] && token.all isDigit

def MONTH_PREFIXES : List (String × ℕ) :=
  [("JUIN", 6), ("JUIL", 7), ("JAN", 1), ("FEB", 2), ("FEV", 2), ("MAR", 3), ("APR", 4),
    ("AVR", 4), ("MAY", 5), ("MAI", 5), ("JUN", 6), ("JUL", 7), ("AUG", 8), ("AOU", 8),
    ("SEP", 9), ("OCT", 10), ("NOV", 11), ("DEC", 12)]

def monthFromName (token : List Char) : Option ℕ :=
  if token.length < 3 then none
  else (MONTH_PREFIXES.find? fun p => p.1.toList.isPrefixOf token).map Prod.snd

inductive Century where
  | past
  | future
  deriving DecidableEq

def MS_PER_DAY : ℤ := 86400000

/-- `new Date(Date.UTC(year, month, day))`, the first month being 0; none is the invalid date. -/
def dateUTC (year : ℤ) (month day : ℕ) : Option ℤ :=
  let year := (if 0 ≤ year ∧ year ≤ 99 then 1900 + year else year) + (month / 12 : ℕ)
  let time := (dayFromYear year + monthStart (isLeap year) (month % 12 + 1) + (day - 1)) *
    MS_PER_DAY
  if time.natAbs ≤ 8640000000000000 then some time else none

def getUTCFullYear (time : ℤ) : ℤ := (ofDay (time / MS_PER_DAY)).year

def getUTCMonth (time : ℤ) : ℕ := (ofDay (time / MS_PER_DAY)).month - 1

def getUTCDate (time : ℤ) : ℕ := (ofDay (time / MS_PER_DAY)).day

def pad (n : ℤ) (width : ℕ) : List Char := padStart width '0' (intText n)

def expandYear (digits : List Char) (century : Century) (now : ℤ) : ℤ :=
  let n : ℤ := decValue digits
  if digits.length ≠ 2 then n
  else
    let thisYear := getUTCFullYear now
    let candidate := 2000 + n
    if century = .past then
      if candidate > thisYear then candidate - 100 else candidate
    else if candidate > thisYear + 50 then candidate - 100 else candidate

/-- A real calendar date as ISO. -/
def toIso (year : ℤ) (month day : ℕ) : Option (List Char) :=
  if year < 1000 ∨ month < 1 ∨ month > 12 ∨ day < 1 ∨ day > 31 then none
  else
    match dateUTC year (month - 1) day with
    | none => none
    | some date =>
      if getUTCFullYear date ≠ year ∨ getUTCMonth date ≠ month - 1 ∨ getUTCDate date ≠ day then
        none
      else some (pad year 4 ++ '-' :: pad month 2 ++ '-' :: pad day 2)

/-- A month named beside two numbers: of the two the year is the one with four digits, and the
second when neither or both have. -/
def readNamed (month : ℕ) (numbers : List (List Char)) (century : Century) (now : ℤ) :
    Option (List Char) :=
  match numbers with
  | first :: second :: _ =>
    let (day, year) := if first.length = 4 then (second, first) else (first, second)
    toIso (expandYear year century now) month (decValue day)
  | _ => none

/-- Digits without a separator. -/
def readCompact (digits : List Char) (century : Century) (now : ℤ) : Option (List Char) :=
  if digits.length = 8 then
    let yearFirst :=
      if "19".toList.isPrefixOf digits || "20".toList.isPrefixOf digits then
        toIso (decValue (digits.take 4)) (decValue ((digits.drop 4).take 2))
          (decValue ((digits.drop 6).take 2))
      else none
    yearFirst.or (toIso (decValue ((digits.drop 4).take 4)) (decValue ((digits.drop 2).take 2))
      (decValue (digits.take 2)))
  else if digits.length = 6 then
    toIso (expandYear (digits.take 2) century now) (decValue ((digits.drop 2).take 2))
      (decValue ((digits.drop 4).take 2))
  else none

/-- Three numbers, and any more ignored. -/
def readNumbers (numbers : List (List Char)) (century : Century) (now : ℤ) :
    Option (List Char) :=
  match numbers with
  | a :: b :: c :: _ =>
    if a.length = 4 then toIso (decValue a) (decValue b) (decValue c)
    else if c.length ≠ 2 ∧ c.length ≠ 4 then none
    else
      let year := expandYear c century now
      (toIso year (decValue b) (decValue a)).or (toIso year (decValue a) (decValue b))
  | _ => none

def parseIdDate (value : Option (List Char)) (century : Century) (now : ℤ) :
    Option (List Char) :=
  match value with
  | none => none
  | some value =>
    let tokens := tokensOf u value
    let numbers := tokens.filter isNumber
    match tokens.findSome? monthFromName with
    | some month => readNamed month numbers century now
    | none =>
      match numbers with
      | [digits] => readCompact digits century now
      | _ => readNumbers numbers century now

def normalizeIdDate (value : Option (List Char)) (century : Century) (now : ℤ) :
    Option (List Char) :=
  match value with
  | none => none
  | some value =>
    let trimmed := trim value
    if trimmed = [] then none
    else some ((parseIdDate u (some trimmed) century now).getD trimmed)

/-- Each side is read by the clock as it then stands. -/
def datesMatch (actual : Option (List Char)) (expected : List Char) (century : Century)
    (first second : ℤ) : Bool :=
  let a := parseIdDate u actual century first
  let b := parseIdDate u (some expected) century second
  a ≠ none && a = b

def isExpired (expiryDate : Option (List Char)) (now : ℤ) : Option Bool :=
  match parseIdDate u expiryDate .future now with
  | none => none
  | some iso =>
    let today := pad (getUTCFullYear now) 4 ++ '-' :: pad (getUTCMonth now + 1) 2 ++
      '-' :: pad (getUTCDate now) 2
    some (decide (iso < today))

/-- Four digits of the year, two of the month and two of the day. -/
def isoText (d : Date) : List Char :=
  decText 4 d.year.toNat ++ '-' :: decText 2 d.month ++ '-' :: decText 2 d.day

/-- The text is the date's, written in full. -/
def IsIsoDate (iso : List Char) (d : Date) : Prop :=
  1000 ≤ d.year ∧ d.year ≤ 9999 ∧ iso = isoText d

/-- The calendar date of an instant. -/
def utcDate (instant : ℤ) : Date := ofDay (instant / MS_PER_DAY)

theorem pad_of_lt {n width : ℕ} (hwidth : 1 ≤ width) (h : n < 10 ^ width) :
    pad n width = decText width n := by
  have hnot : ¬(n : ℤ) < 0 := by omega
  rw [pad, intText, if_neg hnot, Int.toNat_natCast, padStart_toDigits hwidth h]

/-- The time of day 0 of a date, when the clock goes that far. -/
theorem dateUTC_eq {year : ℤ} {month day : ℕ} (hyear : 1000 ≤ year) (hpos : 1 ≤ month)
    (hle : month ≤ 12) : dateUTC year (month - 1) day =
      let time := (dayFromYear year + monthStart (isLeap year) month + (day - 1)) * MS_PER_DAY
      if time.natAbs ≤ 8640000000000000 then some time else none := by
  have hcentury : ¬(0 ≤ year ∧ year ≤ 99) := by omega
  have hdiv : (month - 1) / 12 = 0 := by omega
  have hmod : (month - 1) % 12 + 1 = month := by omega
  simp only [dateUTC, if_neg hcentury, hdiv, hmod, Nat.cast_zero, add_zero]

theorem toDay_eq {d : Date} {year : ℤ} {month day : ℕ} (hyear : d.year = year)
    (hmonth : d.month = month) (hday : d.day = day) :
    toDay d = dayFromYear year + monthStart (isLeap year) month + (day - 1) := by
  subst hyear hmonth hday
  have hpos := d.day_pos
  rw [toDay]
  omega

/-- Years of four digits lie within the clock's range. -/
theorem toDay_bound {d : Date} (hlow : 1000 ≤ d.year) (hhigh : d.year ≤ 9999) :
    (toDay d * MS_PER_DAY).natAbs ≤ 8640000000000000 := by
  obtain ⟨hlt, -⟩ := monthFromDay_of_day d.month_le d.day_pos d.day_le
  have hyear : (monthStart (isLeap d.year) d.month + (d.day - 1) : ℕ) < 366 := by
    split_ifs at hlt
    · omega
    · omega
  simp only [toDay, dayFromYear, MS_PER_DAY]
  omega

theorem toDay_mul_div (n : ℤ) : n * MS_PER_DAY / MS_PER_DAY = n :=
  Int.mul_ediv_cancel n (by decide)

/-- The dates the code accepts are those of the calendar. -/
theorem toIso_eq_some {year : ℤ} {month day : ℕ} {iso : List Char}
    (h : toIso year month day = some iso) :
    ∃ d : Date, d.year = year ∧ d.month = month ∧ d.day = day ∧ 1000 ≤ year ∧
      iso = pad year 4 ++ '-' :: pad month 2 ++ '-' :: pad day 2 := by
  rw [toIso] at h
  split_ifs at h with hrange
  obtain ⟨hyear, hpos, hle, -, -⟩ : 1000 ≤ year ∧ 1 ≤ month ∧ month ≤ 12 ∧ 1 ≤ day ∧ day ≤ 31 := by
    omega
  split at h
  · cases h
  · rename_i date hdate
    split_ifs at h with hfields
    obtain ⟨hyear', hmonth', hday'⟩ : getUTCFullYear date = year ∧
        getUTCMonth date = month - 1 ∧ getUTCDate date = day := by tauto
    have hmonth := (ofDay (date / MS_PER_DAY)).month_pos
    rw [getUTCMonth] at hmonth'
    exact ⟨ofDay (date / MS_PER_DAY), hyear', by omega, hday', hyear, (Option.some.inj h).symm⟩

theorem toIso_of_date {d : Date} (hlow : 1000 ≤ d.year) (hhigh : d.year ≤ 9999) :
    toIso d.year d.month d.day = some (isoText d) := by
  have hmonth := d.month_pos
  have hmonth' := d.month_le
  have hday := d.day_pos
  have hday' := d.day_le_31
  have hrange : ¬(d.year < 1000 ∨ d.month < 1 ∨ d.month > 12 ∨ d.day < 1 ∨ d.day > 31) := by omega
  have htime := toDay_bound hlow hhigh
  rw [toIso, if_neg hrange, dateUTC_eq hlow hmonth hmonth', ← toDay_eq rfl rfl rfl]
  simp only [if_pos htime, getUTCFullYear, getUTCMonth, getUTCDate, toDay_mul_div, ofDay_toDay]
  rw [if_neg (by simp), isoText]
  have hyear : d.year = (d.year.toNat : ℤ) := by omega
  rw [hyear, pad_of_lt (by decide) (by omega), pad_of_lt (by decide) (by omega),
    pad_of_lt (by decide) (by omega), Int.toNat_natCast]

variable {u : Unicode}

/-- The text the words and numbers are cut from. -/
def folded (u : Unicode) (value : List Char) : List Char := toUpperCase (stripDiacritics u value)

theorem folded_append (value rest : List Char) :
    folded u (value ++ rest) = folded u value ++ folded u rest := by
  simp [folded, stripDiacritics, toUpperCase]

/-- A character that is its own capital. -/
def IsPlain (c : Char) : Prop := c.toNat < 0x80 ∧ upperChar c = [c]

theorem stripDiacritics_ascii {t : List Char} (h : ∀ c ∈ t, c.toNat < 0x80) :
    stripDiacritics u t = t := by
  have hdecompose : t.flatMap u.decompose = t.flatMap fun c => [c] :=
    List.flatMap_congr fun c hc => u.decompose_ascii c (h c hc)
  rw [stripDiacritics, hdecompose, List.flatMap_singleton', List.filter_eq_self]
  intro c hc
  rw [u.isMark_ascii c (h c hc)]
  rfl

theorem folded_of_plain {value : List Char} (h : ∀ c ∈ value, IsPlain c) :
    folded u value = value := by
  have hstrip : stripDiacritics u value = value := stripDiacritics_ascii fun c hc => (h c hc).1
  have hupper : value.flatMap upperChar = value.flatMap fun c => [c] :=
    List.flatMap_congr fun c hc => (h c hc).2
  rw [folded, hstrip, toUpperCase, hupper, List.flatMap_singleton']

theorem isPlain_of_isDigit {c : Char} (h : isDigit c = true) : IsPlain c := by
  simp only [isDigit, Bool.and_eq_true, decide_eq_true_eq] at h
  exact forall_char_range (fun c => c.toNat < 0x80 ∧ upperChar c = [c]) (by decide) c h.1 h.2

theorem kind_of_isDigit {c : Char} (h : isDigit c = true) : kind c = some .digits := by
  have hletter : ¬(decide (0x41 ≤ c.toNat) && decide (c.toNat ≤ 0x5a)) = true := by
    simp only [isDigit, Bool.and_eq_true, decide_eq_true_eq] at h ⊢
    omega
  rw [kind, if_neg hletter, if_pos h]

/-- Digits name no month. -/
theorem monthFromName_of_digits {token : List Char} (h : ∀ c ∈ token, isDigit c = true) :
    monthFromName token = none := by
  have hletter : ∀ p ∈ MONTH_PREFIXES, p.1.toList.head?.map isDigit = some false := by
    decide
  have hnone : (MONTH_PREFIXES.find? fun p => p.1.toList.isPrefixOf token) = none := by
    rw [List.find?_eq_none]
    intro p hp hprefix
    obtain ⟨c, hhead, hc⟩ := Option.map_eq_some_iff.mp (hletter p hp)
    obtain ⟨rest, hrest⟩ := List.isPrefixOf_iff_prefix.mp hprefix
    have hmem : c ∈ token := by
      rw [← hrest]
      exact List.mem_append_left _ (List.mem_of_head? hhead)
    rw [h c hmem] at hc
    cases hc
  rw [monthFromName, hnone]
  simp

theorem isNumber_iff {token : List Char} :
    isNumber token = true ↔ token ≠ [] ∧ ∀ c ∈ token, isDigit c = true := by
  simp [isNumber]

/-- Digits before a separator are a number of their own. -/
theorem runs_number {digits : List Char} (hdigits : isNumber digits = true) {c : Char}
    (hc : kind c = none) (rest : List Char) :
    runs kind (digits ++ c :: rest) = digits :: runs kind rest := by
  obtain ⟨hne, hall⟩ := isNumber_iff.mp hdigits
  have hend : (c :: rest).head?.bind kind ≠ some .digits := by simp [hc]
  rw [runs_run hne (fun d hd => kind_of_isDigit (hall d hd)) hend, runs_cons_none hc]

theorem isNumber_decText {w : ℕ} (hw : 1 ≤ w) (n : ℕ) : isNumber (decText w n) = true := by
  refine isNumber_iff.mpr ⟨fun hnil => ?_, isDigit_decText w n⟩
  have hlen := congrArg List.length hnil
  rw [length_decText, List.length_nil] at hlen
  omega

theorem tokensOf_isoText (d : Date) :
    tokensOf u (isoText d) = [decText 4 d.year.toNat, decText 2 d.month, decText 2 d.day] := by
  have hplain : ∀ c ∈ isoText d, IsPlain c := by
    intro c hc
    have hdash : IsPlain '-' := ⟨by decide, by decide⟩
    simp only [isoText, List.mem_append, List.mem_cons] at hc
    rcases hc with (hc | rfl | hc) | rfl | hc
    · exact isPlain_of_isDigit (isDigit_decText _ _ c hc)
    · exact hdash
    · exact isPlain_of_isDigit (isDigit_decText _ _ c hc)
    · exact hdash
    · exact isPlain_of_isDigit (isDigit_decText _ _ c hc)
  have hfolded := folded_of_plain (u := u) hplain
  rw [folded] at hfolded
  obtain ⟨hne, hall⟩ := isNumber_iff.mp (isNumber_decText (by decide : 1 ≤ 2) d.day)
  rw [tokensOf, hfolded, isoText, List.append_assoc, List.cons_append,
    runs_number (isNumber_decText (by decide) _) (by decide),
    runs_number (isNumber_decText (by decide) _) (by decide),
    runs_run_end hne fun c hc => kind_of_isDigit (hall c hc)]

/-- A date in the one form is read as it stands. -/
theorem parseIdDate_isoText {d : Date} (hlow : 1000 ≤ d.year) (hhigh : d.year ≤ 9999)
    (century : Century) (now : ℤ) :
    parseIdDate u (some (isoText d)) century now = some (isoText d) := by
  have hmonth : ∀ w n, monthFromName (decText w n) = none := fun w n =>
    monthFromName_of_digits (isDigit_decText w n)
  have hyear : (d.year.toNat : ℤ) = d.year := by omega
  have hmonth' := d.month_le
  have hday := d.day_le_31
  have hvalues : decValue (decText 4 d.year.toNat) = d.year.toNat ∧
      decValue (decText 2 d.month) = d.month ∧ decValue (decText 2 d.day) = d.day :=
    ⟨decValue_decText (by omega), decValue_decText (by omega), decValue_decText (by omega)⟩
  simp only [parseIdDate, tokensOf_isoText, List.findSome?_cons, hmonth, List.findSome?_nil,
    List.filter_cons, isNumber_decText (by decide : 1 ≤ 4), isNumber_decText (by decide : 1 ≤ 2),
    if_true, List.filter_nil, readNumbers, length_decText, hvalues, hyear]
  exact toIso_of_date hlow hhigh

/-- The number read as the year beside the name of a month. -/
def yearNumber (numbers : List (List Char)) : List Char :=
  match numbers with
  | first :: second :: _ => if first.length = 4 then first else second
  | _ => []

/-- A month is named, and the number beside it that is the year is 10000 or more. -/
def LongYear (u : Unicode) (value : List Char) : Prop :=
  (tokensOf u value).findSome? monthFromName ≠ none ∧
    10000 ≤ decValue (yearNumber ((tokensOf u value).filter isNumber))

theorem decValue_lt_of_length {digits : List Char} (h : ∀ c ∈ digits, isDigit c = true) {w : ℕ}
    (hlen : digits.length ≤ w) : decValue digits < 10 ^ w :=
  (decValue_lt h).trans_le (Nat.pow_le_pow_right (by decide) hlen)

theorem expandYear_lt {digits : List Char} (h : ∀ c ∈ digits, isDigit c = true)
    (hvalue : decValue digits < 10000) (century : Century) (now : ℤ) :
    expandYear digits century now < 10000 := by
  by_cases hlen : digits.length = 2
  · have htwo := decValue_lt_of_length h hlen.le
    simp only [expandYear]
    split_ifs
    all_goals omega
  · rw [expandYear, if_pos hlen]
    omega

theorem expandYear_of_long {digits : List Char} (h : ∀ c ∈ digits, isDigit c = true)
    (hvalue : 10000 ≤ decValue digits) (century : Century) (now : ℤ) :
    expandYear digits century now = decValue digits := by
  have hlen : digits.length ≠ 2 := fun hlen => by
    have htwo := decValue_lt_of_length h hlen.le
    omega
  rw [expandYear, if_pos hlen]

theorem readNamed_eq_some {month : ℕ} {numbers : List (List Char)} {century : Century} {now : ℤ}
    {iso : List Char} (h : readNamed month numbers century now = some iso) :
    yearNumber numbers ∈ numbers ∧
      ∃ day, toIso (expandYear (yearNumber numbers) century now) month day = some iso := by
  match numbers with
  | [] => cases h
  | [_] => cases h
  | first :: second :: rest =>
    simp only [readNamed] at h
    by_cases hfour : first.length = 4
    · rw [if_pos hfour] at h
      simp only [yearNumber, if_pos hfour]
      exact ⟨List.mem_cons_self, _, h⟩
    · rw [if_neg hfour] at h
      simp only [yearNumber, if_neg hfour]
      exact ⟨by simp, _, h⟩

theorem readCompact_eq_some {digits : List Char} (hdigits : ∀ c ∈ digits, isDigit c = true)
    {century : Century} {now : ℤ} {iso : List Char}
    (h : readCompact digits century now = some iso) :
    ∃ year month day, year < 10000 ∧ toIso year month day = some iso := by
  have hsub : ∀ {part : List Char}, part ⊆ digits → ∀ c ∈ part, isDigit c = true :=
    fun hpart c hc => hdigits c (hpart hc)
  have hdrop : ∀ m w, (digits.drop m).take w ⊆ digits := fun m w c hc =>
    List.mem_of_mem_drop (List.mem_of_mem_take hc)
  have htake : ∀ w, digits.take w ⊆ digits := fun w c hc => List.mem_of_mem_take hc
  have hlast : toIso (decValue ((digits.drop 4).take 4)) (decValue ((digits.drop 2).take 2))
      (decValue (digits.take 2)) = some iso →
      ∃ year month day, year < 10000 ∧ toIso year month day = some iso := by
    intro hiso
    refine ⟨_, _, _, ?_, hiso⟩
    have hyear := decValue_lt_of_length (hsub (hdrop 4 4)) (List.length_take_le 4 _)
    omega
  rw [readCompact] at h
  split_ifs at h with height hcentury hsix
  · rcases Option.or_eq_some_iff.mp h with h | ⟨-, h⟩
    · refine ⟨_, _, _, ?_, h⟩
      have hyear := decValue_lt_of_length (hsub (htake 4)) (List.length_take_le 4 digits)
      omega
    · exact hlast h
  · exact hlast (by simpa using h)
  · refine ⟨_, _, _, ?_, h⟩
    have hyear := decValue_lt_of_length (hsub (htake 2)) (List.length_take_le 2 digits)
    exact expandYear_lt (hsub (htake 2)) (by omega) century now

theorem readNumbers_eq_some {numbers : List (List Char)}
    (hnumbers : ∀ n ∈ numbers, ∀ c ∈ n, isDigit c = true) {century : Century} {now : ℤ}
    {iso : List Char} (h : readNumbers numbers century now = some iso) :
    ∃ year month day, year < 10000 ∧ toIso year month day = some iso := by
  match numbers with
  | [] => cases h
  | [_] => cases h
  | [_, _] => cases h
  | a :: b :: c :: rest =>
    have ha := hnumbers a (by simp)
    have hc := hnumbers c (by simp)
    simp only [readNumbers] at h
    split_ifs at h with hfour hlast
    · refine ⟨_, _, _, ?_, h⟩
      have hyear := decValue_lt_of_length ha hfour.le
      omega
    · have hlen : c.length ≤ 4 := by omega
      have hyear := expandYear_lt hc (decValue_lt_of_length hc hlen) century now
      rcases Option.or_eq_some_iff.mp h with h | ⟨-, h⟩
      · exact ⟨_, _, _, hyear, h⟩
      · exact ⟨_, _, _, hyear, h⟩

/-- What is read is a date the code accepts, of a year below 10000 unless a long year is named. -/
theorem parseIdDate_eq_some {value : List Char} {century : Century} {now : ℤ} {iso : List Char}
    (h : parseIdDate u (some value) century now = some iso) :
    ∃ year month day, toIso year month day = some iso ∧ (year < 10000 ↔ ¬LongYear u value) := by
  have hnumbers : ∀ n ∈ (tokensOf u value).filter isNumber, ∀ c ∈ n, isDigit c = true :=
    fun n hn => (isNumber_iff.mp (List.mem_filter.mp hn).2).2
  simp only [parseIdDate] at h
  cases hmonth : (tokensOf u value).findSome? monthFromName with
  | some month =>
    rw [hmonth] at h
    obtain ⟨hmem, day, hiso⟩ := readNamed_eq_some h
    refine ⟨_, month, day, hiso, ?_⟩
    simp only [LongYear, hmonth, ne_eq, reduceCtorEq, not_false_eq_true, true_and, not_le]
    refine ⟨fun hyear => ?_, fun hyear => expandYear_lt (hnumbers _ hmem) hyear century now⟩
    by_contra hlong
    rw [expandYear_of_long (hnumbers _ hmem) (by omega)] at hyear
    omega
  | none =>
    rw [hmonth] at h
    have hshort : ¬LongYear u value := fun hlong => hlong.1 hmonth
    obtain ⟨year, month, day, hyear, hiso⟩ :
        ∃ year month day, year < 10000 ∧ toIso year month day = some iso := by
      dsimp only at h
      split at h
      · rename_i digits hdigits
        exact readCompact_eq_some (hnumbers digits (by simp [hdigits])) h
      · exact readNumbers_eq_some hnumbers h
    exact ⟨year, month, day, hiso, iff_of_true hyear hshort⟩

/-- The text a day's date is compared as. -/
def todayText (now : ℤ) : List Char :=
  pad (utcDate now).year 4 ++ '-' :: pad ((utcDate now).month - 1 + 1 : ℕ) 2 ++
    '-' :: pad (utcDate now).day 2

theorem isExpired_isoText {d : Date} (hlow : 1000 ≤ d.year) (hhigh : d.year ≤ 9999) (now : ℤ) :
    isExpired u (some (isoText d)) now = some (decide (isoText d < todayText now)) := by
  rw [isExpired, parseIdDate_isoText hlow hhigh]
  rfl

/-- Texts of dates in the one form are in the order of the dates. -/
theorem isoText_lt_iff {d e : Date} (hd : 0 ≤ d.year) (hd' : d.year ≤ 9999) (he : 0 ≤ e.year)
    (he' : e.year ≤ 9999) : isoText d < isoText e ↔ d.Before e := by
  have hdm := d.month_le
  have hdd := d.day_le_31
  have hem := e.month_le
  have hed := e.day_le_31
  have hday := decText_append_lt_iff (w := 2) (a := d.day) (b := e.day) (by omega) (by omega) [] []
  rw [List.append_nil, List.append_nil] at hday
  simp only [isoText, List.append_assoc, List.cons_append]
  rw [decText_append_lt_iff (by omega) (by omega), List.cons_lt_cons_iff,
    decText_append_lt_iff (by omega) (by omega), List.cons_lt_cons_iff, hday]
  have hdash : ¬ '-' < '-' := by decide
  simp only [hdash, false_or, true_and, List.lt_irrefl, and_false, or_false, Date.Before]
  omega

/-- The first four digits of a number. -/
def leadingFour (n : ℕ) : ℕ := decValue ((Nat.toDigits 10 n).take 4)

theorem todayText_of_year {now : ℤ} (hlow : 0 ≤ (utcDate now).year)
    (hhigh : (utcDate now).year ≤ 9999) : todayText now = isoText (utcDate now) := by
  have hyear : (utcDate now).year = ((utcDate now).year.toNat : ℤ) := by omega
  have hmonth : (utcDate now).month - 1 + 1 = (utcDate now).month := by
    have hpos := (utcDate now).month_pos
    omega
  have hmonth' := (utcDate now).month_le
  have hday := (utcDate now).day_le_31
  rw [todayText, isoText, hmonth, hyear, pad_of_lt (by decide) (by omega),
    pad_of_lt (by decide) (by omega), pad_of_lt (by decide) (by omega), Int.toNat_natCast]

/-- Before the year 0 the text begins below every year of four digits. -/
theorem not_lt_todayText_of_neg {d : Date} (hlow : 1000 ≤ d.year) (hhigh : d.year ≤ 9999) {now : ℤ}
    (hneg : (utcDate now).year < 0) : ¬isoText d < todayText now := by
  obtain ⟨c, rest, hc, htoday⟩ : ∃ c rest, c.toNat ≤ 0x30 ∧ todayText now = c :: rest := by
    rw [todayText, pad, intText, if_pos hneg, padStart]
    cases 4 - ('-' :: Nat.toDigits 10 (utcDate now).year.natAbs).length with
    | zero => exact ⟨'-', _, by decide, rfl⟩
    | succ n => exact ⟨'0', _, by decide, rfl⟩
  have hdigit := (digitChar_spec _ (Nat.mod_lt (d.year.toNat / 10 / 10 / 10) (by decide))).2
  obtain ⟨rest', hiso⟩ : ∃ rest, isoText d =
      Nat.digitChar (d.year.toNat / 10 / 10 / 10 % 10) :: rest := ⟨_, rfl⟩
  rw [hiso, htoday, List.cons_lt_cons_iff, charLt_iff, hdigit]
  rintro (hlt | ⟨heq, -⟩)
  · omega
  · rw [← heq, hdigit] at hc
    omega

theorem length_toDigits_of_long {year : ℤ} (h : 10000 ≤ year) :
    4 < (Nat.toDigits 10 year.toNat).length := by
  by_contra hshort
  have hlt := (Nat.length_toDigits_le_iff (by decide) (by decide : 0 < 4)).mp
    (Nat.not_lt.mp hshort)
  omega

/-- From the year 10000 on the first four digits decide. -/
theorem lt_todayText_iff_of_long {d : Date} (hlow : 1000 ≤ d.year) (hhigh : d.year ≤ 9999) {now : ℤ}
    (hlong : 10000 ≤ (utcDate now).year) :
    isoText d < todayText now ↔ d.year ≤ leadingFour (utcDate now).year.toNat := by
  have hnat : ¬(utcDate now).year < 0 := by omega
  have hdigits := isDigit_toDigits (utcDate now).year.toNat
  have hlen := length_toDigits_of_long hlong
  generalize hyear : Nat.toDigits 10 (utcDate now).year.toNat = digits at hdigits hlen
  have hfour : (digits.take 4).length = 4 := by
    rw [List.length_take]
    omega
  have hfirst : ∀ c ∈ digits.take 4, isDigit c = true := fun c hc =>
    hdigits c (List.mem_of_mem_take hc)
  have htake := decText_decValue hfirst
  have hbound := decValue_lt hfirst
  rw [hfour] at htake hbound
  obtain ⟨c, rest, hdrop⟩ : ∃ c rest, digits.drop 4 = c :: rest := by
    refine List.exists_cons_of_ne_nil fun hnil => ?_
    have hlen' := congrArg List.length hnil
    rw [List.length_drop, List.length_nil] at hlen'
    omega
  have hdash : '-' < c := by
    have hc := hdigits c (List.mem_of_mem_drop (hdrop ▸ List.mem_cons_self))
    simp only [isDigit, Bool.and_eq_true, decide_eq_true_eq] at hc
    rw [charLt_iff]
    exact lt_of_lt_of_le (by decide) hc.1
  have htoday : ∃ rest', todayText now =
      decText 4 (decValue (digits.take 4)) ++ c :: rest' := by
    refine ⟨rest ++ ('-' :: pad ((utcDate now).month - 1 + 1 : ℕ) 2 ++
      '-' :: pad (utcDate now).day 2), ?_⟩
    have hpad : 4 - digits.length = 0 := by omega
    rw [todayText, pad, intText, if_neg hnat, hyear, padStart, hpad, htake]
    conv_lhs => rw [← List.take_append_drop 4 digits, hdrop]
    simp
  obtain ⟨rest', htoday⟩ := htoday
  rw [htoday, isoText, List.append_assoc, List.cons_append,
    decText_append_lt_iff (by omega) hbound, List.cons_lt_cons_iff, leadingFour, hyear]
  simp only [hdash, true_or, and_true]
  omega

/-- The years in which a date of four digits is compared as it should be. -/
theorem isExpired_iff_before {d : Date} (hlow : 1000 ≤ d.year) (hhigh : d.year ≤ 9999) (now : ℤ) :
    (isExpired u (some (isoText d)) now = some true ↔ d.Before (utcDate now)) ↔
      (utcDate now).year ≤ 9999 ∨ d.year ≤ leadingFour (utcDate now).year.toNat := by
  rw [isExpired_isoText hlow hhigh, Option.some.injEq, decide_eq_true_eq]
  by_cases hlong : 10000 ≤ (utcDate now).year
  · have hbefore : d.Before (utcDate now) := .inl (by omega)
    have hnot : ¬(utcDate now).year ≤ 9999 := by omega
    rw [lt_todayText_iff_of_long hlow hhigh hlong]
    simp only [hbefore, hnot, iff_true, false_or]
  · have hyear : (utcDate now).year ≤ 9999 := by omega
    refine iff_of_true ?_ (.inl hyear)
    by_cases hneg : (utcDate now).year < 0
    · refine iff_of_false (not_lt_todayText_of_neg hlow hhigh hneg) fun hbefore => ?_
      rw [Date.Before] at hbefore
      omega
    · rw [todayText_of_year (by omega) hyear, isoText_lt_iff (by omega) hhigh (by omega) hyear]

/-- The text is a date in the one form, and stays as it is when read again. -/
structure IsNormal (u : Unicode) (iso : List Char) : Prop where
  isDate : ∃ d, IsIsoDate iso d
  fixed : ∀ century now, parseIdDate u (some iso) century now = some iso

/-- A longer year leaves the form. -/
theorem length_pad_of_long {year : ℤ} (h : 10000 ≤ year) : 4 < (pad year 4).length := by
  have hnot : ¬year < 0 := by omega
  have hlen := length_toDigits_of_long h
  rw [pad, intText, if_neg hnot, padStart, List.length_append]
  omega

theorem isNormal_iff_of_toIso {year : ℤ} {month day : ℕ} {iso : List Char}
    (h : toIso year month day = some iso) : IsNormal u iso ↔ year < 10000 := by
  obtain ⟨d, rfl, rfl, rfl, hlow, hiso⟩ := toIso_eq_some h
  constructor
  · intro hnormal
    obtain ⟨e, -, -, hiso'⟩ := hnormal.isDate
    by_contra hlong
    have hyear := length_pad_of_long (not_lt.mp hlong)
    have hmonth := d.month_le
    have hday := d.day_le_31
    have hlen := congrArg List.length (hiso.symm.trans hiso')
    rw [pad_of_lt (by decide) (by omega), pad_of_lt (by decide) (by omega), isoText] at hlen
    simp only [List.length_append, List.length_cons, length_decText] at hlen
    omega
  · intro hyear
    have hiso' := (Option.some.inj (h.symm.trans (toIso_of_date hlow (by omega))))
    rw [hiso']
    exact ⟨⟨d, hlow, by omega, rfl⟩, parseIdDate_isoText hlow (by omega)⟩

/-- What is read is in the one form unless a long year is named, and a date in the one form
compares with the day as dates do, unless the day's year is past 9999 and begins with four digits
below the date's. -/
theorem dates_normal_iff (u : Unicode) :
    (∀ value century now iso, parseIdDate u (some value) century now = some iso →
      (IsNormal u iso ↔ ¬LongYear u value)) ∧
    ∀ iso d, IsIsoDate iso d → ∀ instant,
      ((isExpired u (some iso) instant = some true ↔ d.Before (utcDate instant)) ↔
        (utcDate instant).year ≤ 9999 ∨
          d.year ≤ leadingFour (utcDate instant).year.toNat) := by
  constructor
  · intro value century now iso h
    obtain ⟨year, month, day, hiso, hyear⟩ := parseIdDate_eq_some h
    rw [isNormal_iff_of_toIso hiso, hyear]
  · rintro iso d ⟨hlow, hhigh, rfl⟩ instant
    exact isExpired_iff_before hlow hhigh instant

theorem dates_normal_iff_birth : IsNormal latin "1990-04-03".toList := by
  have hread : parseIdDate latin (some "03/04/1990".toList) .past 0 =
      some "1990-04-03".toList := by decide +kernel
  refine ((dates_normal_iff latin).1 _ .past 0 _ hread).mpr fun hlong => hlong.1 ?_
  decide +kernel

/-- The year beside the name of a month may have five digits, and then reads as nothing. -/
theorem long_year_not_normal :
    parseIdDate latin (some "12 AUG 12345".toList) .past 0 = some "12345-08-12".toList ∧
      ¬IsNormal latin "12345-08-12".toList := by
  refine ⟨by decide +kernel, fun hnormal => ?_⟩
  have hnone : parseIdDate latin (some "12345-08-12".toList) .past 0 = none := by decide +kernel
  rw [hnormal.fixed] at hnone
  cases hnone

/-- Bilingual months, and day first unless it cannot be. -/
example : parseIdDate latin (some "12 AUG/AOÛT 74".toList) .past 0 = some "1974-08-12".toList ∧
    parseIdDate latin (some "04/25/1990".toList) .past 0 = some "1990-04-25".toList ∧
    parseIdDate latin (some "29/02/1990".toList) .past 0 = none := by
  decide +kernel

end HeirsOcr.IdVerification
