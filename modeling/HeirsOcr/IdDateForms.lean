import HeirsOcr.IdDates

/-!
# Printed dates

The ways identity documents print a date, and that each is read as that date. A separator is any
text without letters and digits that does not vanish with the diacritics: a mark put on a digit
leaves no gap behind.
-/
namespace HeirsOcr.IdVerification
open JsText AddressText DecimalText Calendar Runs

variable (u : Unicode)

/-- No letter and no digit. -/
def IsGap (gap : List Char) : Prop := ∀ c ∈ gap, u.isLetterOrDigit c = false

/-- A gap that is more than marks. -/
def Separates (gap : List Char) : Prop := IsGap u gap ∧ ∃ c ∈ gap, u.isMark c = false

/-- A day or a month, with or without the leading zero. -/
inductive IsTwoDigits (n : ℕ) : List Char → Prop where
  | padded : IsTwoDigits n (decText 2 n)
  | short : n < 10 → IsTwoDigits n (decText 1 n)

def monthName (month : ℕ) : List Char :=
  (["JANUARY", "FEBRUARY", "MARCH", "APRIL", "MAY", "JUNE", "JULY", "AUGUST", "SEPTEMBER",
    "OCTOBER", "NOVEMBER", "DECEMBER"].getD (month - 1) "").toList

/-- An English name of the month in any letters, or its beginning to the third letter at least. -/
def IsMonthName (month : ℕ) (name : List Char) : Prop :=
  (∀ c ∈ name, c.toNat < 0x80) ∧ 3 ≤ name.length ∧ toUpperCase name <+: monthName month

def yearText (d : Date) : List Char := decText 4 d.year.toNat

/-- The ways a date is printed. -/
inductive Prints (d : Date) : List Char → Prop where
  | yearFirst {month day gap gap' : List Char} : IsTwoDigits d.month month →
      IsTwoDigits d.day day → Separates u gap → Separates u gap' →
      Prints d (yearText d ++ (gap ++ (month ++ (gap' ++ day))))
  | dayFirst {month day gap gap' : List Char} : IsTwoDigits d.month month →
      IsTwoDigits d.day day → Separates u gap → Separates u gap' →
      Prints d (day ++ (gap ++ (month ++ (gap' ++ yearText d))))
  | dayAndName {name day gap gap' : List Char} : IsMonthName d.month name →
      IsTwoDigits d.day day → IsGap u gap → IsGap u gap' →
      Prints d (day ++ (gap ++ (name ++ (gap' ++ yearText d))))
  | nameAndDay {name day gap gap' : List Char} : IsMonthName d.month name →
      IsTwoDigits d.day day → IsGap u gap → Separates u gap' →
      Prints d (name ++ (gap ++ (day ++ (gap' ++ yearText d))))
  | compactYearFirst : Prints d (yearText d ++ (decText 2 d.month ++ decText 2 d.day))
  | compactDayFirst : Prints d (decText 2 d.day ++ (decText 2 d.month ++ yearText d))

variable {u}

theorem IsTwoDigits.spec {n : ℕ} {t : List Char} (h : IsTwoDigits n t) (hn : n < 100) :
    isNumber t = true ∧ decValue t = n ∧ t.length ≤ 2 := by
  cases h with
  | padded => exact ⟨isNumber_decText (by decide) n, decValue_decText (by omega), by simp⟩
  | short hshort =>
    exact ⟨isNumber_decText (by decide) n, decValue_decText (by omega), by simp⟩

theorem folded_of_isNumber {t : List Char} (h : isNumber t = true) : folded u t = t :=
  folded_of_plain fun c hc => isPlain_of_isDigit ((isNumber_iff.mp h).2 c hc)

theorem kind_of_isNumber {t : List Char} (h : isNumber t = true) :
    ∀ c ∈ t, kind c = some .digits := fun c hc => kind_of_isDigit ((isNumber_iff.mp h).2 c hc)

theorem isAlphanum_of_kind {c : Char} (h : kind c ≠ none) :
    c.toNat < 0x80 ∧ c.isAlphanum = true := by
  rw [kind] at h
  split_ifs at h with hletter hdigit
  · simp only [Bool.and_eq_true, decide_eq_true_eq] at hletter
    exact forall_char_range (fun c => c.toNat < 0x80 ∧ c.isAlphanum = true) (by decide) c
      hletter.1 hletter.2
  · simp only [isDigit, Bool.and_eq_true, decide_eq_true_eq] at hdigit
    exact forall_char_range (fun c => c.toNat < 0x80 ∧ c.isAlphanum = true) (by decide) c
      hdigit.1 hdigit.2
  · exact absurd rfl h

/-- A gap is left as it is, less its marks, and nothing in it is of a kind. -/
theorem folded_gap {gap : List Char} (h : IsGap u gap) :
    folded u gap = stripDiacritics u gap ∧ ∀ c ∈ folded u gap, kind c = none := by
  have hother : ∀ d ∈ stripDiacritics u gap, u.isLetterOrDigit d = false := by
    intro d hd
    obtain ⟨c, hc, hdc⟩ := List.mem_flatMap.mp (List.mem_of_mem_filter hd)
    rw [← Bool.not_eq_true]
    intro hletter
    have hgap := h c hc
    rw [u.isLetterOrDigit_decompose c d hdc hletter] at hgap
    cases hgap
  have hupper : folded u gap = stripDiacritics u gap := by
    have hsame : (stripDiacritics u gap).flatMap upperChar =
        (stripDiacritics u gap).flatMap fun d => [d] := by
      refine List.flatMap_congr fun d hd => ?_
      by_contra hchange
      have hletter := u.isLetterOrDigit_upper d hchange
      rw [hother d hd] at hletter
      cases hletter
    rw [folded, toUpperCase, hsame, List.flatMap_singleton']
  refine ⟨hupper, fun c hc => ?_⟩
  by_contra hkind
  obtain ⟨hascii, halnum⟩ := isAlphanum_of_kind hkind
  rw [hupper] at hc
  have hnot := hother c hc
  rw [u.isLetterOrDigit_ascii c hascii, halnum] at hnot
  cases hnot

theorem folded_ne_nil {gap : List Char} (h : Separates u gap) : folded u gap ≠ [] := by
  obtain ⟨hgap, c, hc, hmark⟩ := h
  obtain ⟨d, hd, hmark'⟩ := u.isMark_decompose c hmark
  have hmem : d ∈ stripDiacritics u gap :=
    List.mem_filter.mpr ⟨List.mem_flatMap.mpr ⟨c, hc, hd⟩, by simp [hmark']⟩
  rw [(folded_gap hgap).1]
  exact List.ne_nil_of_mem hmem

/-- The months are told apart by the first three letters of their names. -/
theorem monthFromName_take : ∀ month ≤ 12, ∀ n ≤ 9, 1 ≤ month → 3 ≤ n →
    monthFromName ((monthName month).take n) = some month := by
  decide +kernel

theorem monthName_letters : ∀ month ≤ 12, (monthName month).length ≤ 9 ∧
    (monthName month).all (fun c => kind c = some .letters) = true := by
  decide +kernel

theorem length_toUpperCase {t : List Char} (h : ∀ c ∈ t, c.toNat < 0x80) :
    (toUpperCase t).length = t.length := by
  induction t with
  | nil => rfl
  | cons c t ih =>
    have hc := length_upperChar_ascii c (h c List.mem_cons_self)
    have hrest := ih fun d hd => h d (List.mem_cons_of_mem c hd)
    rw [toUpperCase] at hrest ⊢
    rw [List.flatMap_cons, List.length_append, hc, hrest, List.length_cons]
    omega

/-- A month's name in capitals is a word, and names it. -/
theorem IsMonthName.spec {month : ℕ} {name : List Char} (h : IsMonthName month name)
    (hpos : 1 ≤ month) (hle : month ≤ 12) :
    folded u name = toUpperCase name ∧ toUpperCase name ≠ [] ∧
      monthFromName (toUpperCase name) = some month ∧
      ∀ c ∈ toUpperCase name, kind c = some .letters := by
  obtain ⟨hascii, hlen, hbegins⟩ := h
  obtain ⟨hshort, hletters⟩ := monthName_letters month hle
  have hlen' := length_toUpperCase hascii
  have hle' := hbegins.length_le
  have hmonth := monthFromName_take month hle (toUpperCase name).length (by omega) hpos (by omega)
  rw [← List.prefix_iff_eq_take.mp hbegins] at hmonth
  refine ⟨by rw [folded, stripDiacritics_ascii hascii], fun hnil => ?_, hmonth,
    fun c hc => of_decide_eq_true (List.all_eq_true.mp hletters c (hbegins.subset hc))⟩
  rw [hnil, List.length_nil] at hlen'
  omega

theorem isNumber_of_letters {token : List Char} (h : ∀ c ∈ token, kind c = some .letters) :
    isNumber token = false := by
  rw [← Bool.not_eq_true, isNumber_iff]
  rintro ⟨hne, hdigits⟩
  obtain ⟨c, hc⟩ := List.exists_mem_of_ne_nil token hne
  have hletters := h c hc
  rw [kind_of_isDigit (hdigits c hc)] at hletters
  cases hletters

/-- A printed part that comes out as one word or number. -/
structure IsToken (u : Unicode) (part token : List Char) (k : Kind) : Prop where
  folded_eq : folded u part = token
  ne_nil : token ≠ []
  kind_eq : ∀ c ∈ token, kind c = some k

theorem isToken_of_isNumber {t : List Char} (h : isNumber t = true) : IsToken u t t .digits :=
  ⟨folded_of_isNumber h, (isNumber_iff.mp h).1, kind_of_isNumber h⟩

/-- Of three parts with gaps between come three words or numbers. Only what is of two kinds may
stand side by side. -/
theorem tokensOf_three {part part' part'' token token' token'' gap gap' : List Char}
    {k k' k'' : Kind} (h : IsToken u part token k) (h' : IsToken u part' token' k')
    (h'' : IsToken u part'' token'' k'') (hgap : IsGap u gap) (hgap' : IsGap u gap')
    (hend : Separates u gap ∨ k ≠ k') (hend' : Separates u gap' ∨ k' ≠ k'') :
    tokensOf u (part ++ (gap ++ (part' ++ (gap' ++ part'')))) = [token, token', token''] := by
  have hhead : ∀ {t : List Char} (rest : List Char) {k : Kind}, t ≠ [] →
      (∀ c ∈ t, kind c = some k) → (t ++ rest).head?.bind kind = some k := by
    intro t rest k hne hkind
    obtain ⟨c, t, rfl⟩ := List.exists_cons_of_ne_nil hne
    exact hkind c List.mem_cons_self
  have hfirst : folded u gap ≠ [] ∨
      (token' ++ (folded u gap' ++ token'')).head?.bind kind ≠ some k := by
    refine hend.imp folded_ne_nil fun hne => ?_
    rw [hhead _ h'.ne_nil h'.kind_eq]
    simpa using Ne.symm hne
  have hsecond : folded u gap' ≠ [] ∨ token''.head?.bind kind ≠ some k' := by
    refine hend'.imp folded_ne_nil fun hne => ?_
    have hlast := hhead [] h''.ne_nil h''.kind_eq
    rw [List.append_nil] at hlast
    rw [hlast]
    simpa using Ne.symm hne
  have hfolded : folded u (part ++ (gap ++ (part' ++ (gap' ++ part'')))) =
      token ++ (folded u gap ++ (token' ++ (folded u gap' ++ token''))) := by
    simp only [folded_append, h.folded_eq, h'.folded_eq, h''.folded_eq]
  rw [folded] at hfolded
  rw [tokensOf, hfolded, runs_run_gap h.ne_nil h.kind_eq (folded_gap hgap).2 hfirst,
    runs_run_gap h'.ne_nil h'.kind_eq (folded_gap hgap').2 hsecond,
    runs_run_end h''.ne_nil h''.kind_eq]

theorem isNumber_yearText (d : Date) : isNumber (yearText d) = true :=
  isNumber_decText (by decide) _

/-- Three numbers are read as numbers. -/
theorem parse_numbers {text a b c : List Char} (ha : isNumber a = true) (hb : isNumber b = true)
    (hc : isNumber c = true) (htokens : tokensOf u text = [a, b, c]) (century : Century) (now : ℤ) :
    parseIdDate u (some text) century now = readNumbers [a, b, c] century now := by
  have hmonth : ∀ {t : List Char}, isNumber t = true → monthFromName t = none := fun ht =>
    monthFromName_of_digits (isNumber_iff.mp ht).2
  simp only [parseIdDate, htokens, List.findSome?_cons, hmonth ha, hmonth hb, hmonth hc,
    List.findSome?_nil, List.filter_cons, ha, hb, hc, if_true, List.filter_nil]

/-- A year of four digits is not completed. -/
theorem expandYear_yearText {d : Date} (hlow : 0 ≤ d.year) (hhigh : d.year ≤ 9999)
    (century : Century) (now : ℤ) : expandYear (yearText d) century now = d.year := by
  have hlen : (yearText d).length ≠ 2 := by simp [yearText]
  rw [expandYear, if_pos hlen, yearText, decValue_decText (by omega)]
  omega

/-- A date of the years the forms are for is read from its day, month and year. -/
theorem toIso_of_parts {d : Date} (hlow : 1900 ≤ d.year) (hhigh : d.year ≤ 2099) {year month day}
    (hyear : year = d.year) (hmonth : month = d.month) (hday : day = d.day) :
    toIso year month day = some (isoText d) := by
  rw [hyear, hmonth, hday]
  exact toIso_of_date (by omega) (by omega)

/-- A day and a year beside the name of the month. -/
theorem readNamed_of_parts {d : Date} (hlow : 1900 ≤ d.year) (hhigh : d.year ≤ 2099)
    {day : List Char} (hday : IsTwoDigits d.day day) (century : Century) (now : ℤ) :
    readNamed d.month [day, yearText d] century now = some (isoText d) := by
  have hdaylt := d.day_le_31
  obtain ⟨-, hvalue, hshort⟩ := hday.spec (by omega)
  have hlen : ¬day.length = 4 := by omega
  simp only [readNamed, if_neg hlen,
    expandYear_yearText (by omega : 0 ≤ d.year) (by omega : d.year ≤ 9999)]
  exact toIso_of_parts hlow hhigh rfl rfl hvalue

/-- Digits without a gap are one number. -/
theorem parse_compact {text : List Char} (h : isNumber text = true) (century : Century) (now : ℤ) :
    parseIdDate u (some text) century now = readCompact text century now := by
  obtain ⟨hne, hdigits⟩ := isNumber_iff.mp h
  have hfolded := folded_of_isNumber (u := u) h
  rw [folded] at hfolded
  have htokens : tokensOf u text = [text] := by
    rw [tokensOf, hfolded, runs_run_end hne (kind_of_isNumber h)]
  simp only [parseIdDate, htokens, List.findSome?_cons, monthFromName_of_digits hdigits,
    List.findSome?_nil, List.filter_cons, h, if_true, List.filter_nil]

theorem isNumber_append {t t' : List Char} (h : isNumber t = true) (h' : isNumber t' = true) :
    isNumber (t ++ t') = true := by
  rw [isNumber_iff] at h h' ⊢
  refine ⟨by simp [h.1], fun c hc => ?_⟩
  rcases List.mem_append.mp hc with hc | hc
  · exact h.2 c hc
  · exact h'.2 c hc

/-- The century of a year the forms are for. -/
theorem yearText_eq {d : Date} (hlow : 1900 ≤ d.year) (hhigh : d.year ≤ 2099) :
    ∃ rest, (yearText d = '1' :: '9' :: rest ∨ yearText d = '2' :: '0' :: rest) ∧
      rest.length = 2 := by
  have hcentury : d.year.toNat / 10 / 10 = 19 ∨ d.year.toNat / 10 / 10 = 20 := by omega
  refine ⟨[Nat.digitChar (d.year.toNat / 10 % 10), Nat.digitChar (d.year.toNat % 10)], ?_, rfl⟩
  simp only [yearText, decText]
  rcases hcentury with h | h
  · left
    rw [h]
    rfl
  · right
    rw [h]
    rfl

theorem toIso_of_month {month : ℕ} (h : 12 < month) (year : ℤ) (day : ℕ) :
    toIso year month day = none := by
  rw [toIso, if_pos]
  exact .inr (.inr (.inl h))

/-- The parts of three texts in a row, cut out by their lengths. -/
theorem cut_three {a b : List Char} {i j k : ℕ} (ha : a.length = i) (hb : b.length = j)
    (hk : i + j = k) (c : List Char) : (a ++ (b ++ c)).take i = a ∧
      ((a ++ (b ++ c)).drop i).take j = b ∧ (a ++ (b ++ c)).drop k = c := by
  have hlast : (a ++ (b ++ c)).drop k = c := by
    rw [← List.append_assoc]
    exact List.drop_left' (by rw [List.length_append, ha, hb, hk])
  rw [List.drop_left' ha]
  exact ⟨List.take_left' ha, List.take_left' hb, hlast⟩

/-- Eight digits that begin with the year. -/
theorem readCompact_yearFirst {d : Date} (hlow : 1900 ≤ d.year) (hhigh : d.year ≤ 2099)
    (century : Century) (now : ℤ) :
    readCompact (yearText d ++ (decText 2 d.month ++ decText 2 d.day)) century now =
      some (isoText d) := by
  have hmonth := d.month_le
  have hday := d.day_le_31
  have hyearvalue : decValue (yearText d) = d.year.toNat := decValue_decText (by omega)
  have hyearlen : (yearText d).length = 4 := by simp [yearText]
  have hcentury : ("19".toList.isPrefixOf (yearText d ++ (decText 2 d.month ++ decText 2 d.day)) ||
      "20".toList.isPrefixOf (yearText d ++ (decText 2 d.month ++ decText 2 d.day))) = true := by
    obtain ⟨rest, hyear | hyear, -⟩ := yearText_eq hlow hhigh
    · rw [hyear]
      rfl
    · rw [hyear]
      rfl
  obtain ⟨hyearpart, hmonthpart, hrest⟩ := cut_three hyearlen (length_decText 2 d.month)
    (rfl : 4 + 2 = 6) (decText 2 d.day)
  have hdaypart : (decText 2 d.day).take 2 = decText 2 d.day :=
    List.take_of_length_le (length_decText 2 d.day).le
  rw [readCompact, if_pos (by simp [hyearlen]), if_pos hcentury, hyearpart, hmonthpart, hrest,
    hdaypart, hyearvalue, toIso_of_parts hlow hhigh (by omega) (decValue_decText (by omega))
    (decValue_decText (by omega))]
  rfl

/-- Eight digits that end with the year: its century would be a month past the twelfth. -/
theorem readCompact_dayFirst {d : Date} (hlow : 1900 ≤ d.year) (hhigh : d.year ≤ 2099)
    (century : Century) (now : ℤ) :
    readCompact (decText 2 d.day ++ (decText 2 d.month ++ yearText d)) century now =
      some (isoText d) := by
  have hmonth := d.month_le
  have hday := d.day_le_31
  have hyearvalue : decValue (yearText d) = d.year.toNat := decValue_decText (by omega)
  have hyearlen : (yearText d).length = 4 := by simp [yearText]
  obtain ⟨hdaypart, hmonthpart, hrest⟩ := cut_three (length_decText 2 d.day)
    (length_decText 2 d.month) (rfl : 2 + 2 = 4) (yearText d)
  have hyearpart : (yearText d).take 4 = yearText d := List.take_of_length_le hyearlen.le
  have hcentury : 12 < decValue ((yearText d).take 2) := by
    obtain ⟨rest, hyear | hyear, -⟩ := yearText_eq hlow hhigh
    · rw [hyear]
      exact (by decide : 12 < decValue ['1', '9'])
    · rw [hyear]
      exact (by decide : 12 < decValue ['2', '0'])
  rw [readCompact, if_pos (by simp [hyearlen]), hrest, toIso_of_month hcentury, ite_self,
    hyearpart, hmonthpart, hdaypart, hyearvalue, toIso_of_parts hlow hhigh (by omega)
    (decValue_decText (by omega)) (decValue_decText (by omega))]
  rfl

/-- Every printed form of a date is read as the date. -/
theorem parseIdDate_prints {d : Date} (hlow : 1900 ≤ d.year) (hhigh : d.year ≤ 2099)
    {text : List Char} (h : Prints u d text) (century : Century) (now : ℤ) :
    parseIdDate u (some text) century now = some (isoText d) := by
  have hmonthlt := d.month_le
  have hdaylt := d.day_le_31
  have hyeartoken := isToken_of_isNumber (u := u) (isNumber_yearText d)
  have hyearvalue : decValue (yearText d) = d.year.toNat := decValue_decText (by omega)
  have hnomonth : ∀ {t : List Char}, isNumber t = true → monthFromName t = none := fun ht =>
    monthFromName_of_digits (isNumber_iff.mp ht).2
  cases h with
  | @yearFirst month day gap gap' hmonth hday hgap hgap' =>
    obtain ⟨hnumber, hvalue, -⟩ := hmonth.spec (by omega)
    obtain ⟨hnumber', hvalue', -⟩ := hday.spec (by omega)
    rw [parse_numbers (isNumber_yearText d) hnumber hnumber' (tokensOf_three hyeartoken
      (isToken_of_isNumber hnumber) (isToken_of_isNumber hnumber') hgap.1 hgap'.1 (.inl hgap)
      (.inl hgap'))]
    rw [readNumbers, if_pos (by simp [yearText]), hyearvalue]
    exact toIso_of_parts hlow hhigh (by omega) hvalue hvalue'
  | @dayFirst month day gap gap' hmonth hday hgap hgap' =>
    obtain ⟨hnumber, hvalue, -⟩ := hmonth.spec (by omega)
    obtain ⟨hnumber', hvalue', hshort⟩ := hday.spec (by omega)
    rw [parse_numbers hnumber' hnumber (isNumber_yearText d) (tokensOf_three
      (isToken_of_isNumber hnumber') (isToken_of_isNumber hnumber) hyeartoken hgap.1 hgap'.1
      (.inl hgap) (.inl hgap'))]
    have hlast : ¬((yearText d).length ≠ 2 ∧ (yearText d).length ≠ 4) := by simp [yearText]
    rw [readNumbers, if_neg (by omega), if_neg hlast]
    simp only [expandYear_yearText (by omega : 0 ≤ d.year) (by omega : d.year ≤ 9999)]
    rw [toIso_of_parts hlow hhigh rfl hvalue hvalue']
    rfl
  | @dayAndName name day gap gap' hmonth hday hgap hgap' =>
    obtain ⟨hnumber, -, -⟩ := hday.spec (by omega)
    obtain ⟨hfolded, hne, hname, hkind⟩ := hmonth.spec d.month_pos d.month_le
    have htokens := tokensOf_three (isToken_of_isNumber hnumber) ⟨hfolded, hne, hkind⟩ hyeartoken
      hgap hgap' (.inr (by decide)) (.inr (by decide))
    simp only [parseIdDate, htokens, List.findSome?_cons, hname, hnomonth hnumber,
      List.filter_cons, hnumber, isNumber_of_letters hkind, isNumber_yearText, if_true,
      List.filter_nil, Bool.false_eq_true, if_false]
    exact readNamed_of_parts hlow hhigh hday century now
  | @nameAndDay name day gap gap' hmonth hday hgap hgap' =>
    obtain ⟨hnumber, -, -⟩ := hday.spec (by omega)
    obtain ⟨hfolded, hne, hname, hkind⟩ := hmonth.spec d.month_pos d.month_le
    have htokens := tokensOf_three ⟨hfolded, hne, hkind⟩ (isToken_of_isNumber hnumber) hyeartoken
      hgap hgap'.1 (.inr (by decide)) (.inl hgap')
    simp only [parseIdDate, htokens, List.findSome?_cons, hname, List.filter_cons, hnumber,
      isNumber_of_letters hkind, isNumber_yearText, if_true, List.filter_nil,
      Bool.false_eq_true, if_false]
    exact readNamed_of_parts hlow hhigh hday century now
  | compactYearFirst =>
    have hnumber := isNumber_append (isNumber_yearText d)
      (isNumber_append (isNumber_decText (by decide : 1 ≤ 2) d.month)
        (isNumber_decText (by decide : 1 ≤ 2) d.day))
    rw [parse_compact hnumber]
    exact readCompact_yearFirst hlow hhigh century now
  | compactDayFirst =>
    have hnumber := isNumber_append (isNumber_decText (by decide : 1 ≤ 2) d.day)
      (isNumber_append (isNumber_decText (by decide : 1 ≤ 2) d.month) (isNumber_yearText d))
    rw [parse_compact hnumber]
    exact readCompact_dayFirst hlow hhigh century now

/-- The fifth of August 1974. -/
def august : Date where
  year := 1974
  month := 8
  day := 5
  month_le := by decide
  day_pos := by decide
  day_le := by decide

theorem parseIdDate_prints_august :
    parseIdDate latin (some ("August".toList ++ ([' '] ++ (['5'] ++ ([',', ' '] ++
      yearText august))))) .past 0 = some (isoText august) := by
  have hascii : ("August".toList.all fun c => c.toNat < 0x80) = true := by decide
  have hname : IsMonthName august.month "August".toList :=
    ⟨fun c hc => of_decide_eq_true (List.all_eq_true.mp hascii c hc), by decide, by decide +kernel⟩
  have hday : IsTwoDigits august.day ['5'] := .short (by decide)
  have hgap : IsGap latin [' '] := List.forall_mem_singleton.mpr (by decide)
  have hgap' : Separates latin [',', ' '] :=
    ⟨List.forall_mem_cons.mpr ⟨by decide, hgap⟩, ' ', by simp, by decide⟩
  exact parseIdDate_prints (by decide) (by decide) (.nameAndDay hname hday hgap hgap') .past 0

/-- A mark after a digit goes with the diacritics, and leaves one number where three were. -/
theorem marks_do_not_separate :
    IsGap latin [Char.ofNat 0x301] ∧ IsTwoDigits august.day ['5'] ∧ IsTwoDigits august.month ['8'] ∧
      parseIdDate latin (some (['5'] ++ ([Char.ofNat 0x301] ++ (['8'] ++ ([Char.ofNat 0x301] ++
        yearText august))))) .past 0 = none := by
  refine ⟨?_, .short (by decide), .short (by decide), by decide +kernel⟩
  intro c hc
  rw [List.mem_singleton.mp hc]
  decide

end HeirsOcr.IdVerification
