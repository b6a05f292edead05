import HeirsOcr.PdfAuthenticity

/-!
# Dates as text

What `new Date(text)` makes of a text in the interchange format: a date, alone or with a time of
day and an offset. A time without an offset is taken in UTC. Every date is read back from what
`toISOString` writes.
-/
namespace HeirsOcr.IsoDates
open JsText AddressText DecimalText Calendar Authenticity

/-- How far a date lies from the first of January 1970 at most, in milliseconds. -/
def MAX_TIME : ℤ := 8640000000000000

/-- The time of a valid date. -/
structure Time where
  ms : ℤ
  abs_le : |ms| ≤ MAX_TIME
  deriving DecidableEq

theorem Time.ext {t u : Time} (h : t.ms = u.ms) : t = u := by
  cases t
  cases u
  cases h
  rfl

def timeClip (ms : ℤ) : Option Time := if h : |ms| ≤ MAX_TIME then some ⟨ms, h⟩ else none

@[simp] theorem timeClip_ms (t : Time) : timeClip t.ms = some t := dif_pos t.abs_le

/-- A number of a width, and what follows. -/
def number (width : ℕ) (cs : List Char) : Option (ℕ × List Char) :=
  let digits := cs.take width
  if digits.length = width ∧ digits.all isDigit then some (decValue digits, cs.drop width) else none

/-- A number after a mark. -/
def numberAfter (mark : Char) (width : ℕ) : List Char → Option (ℕ × List Char)
  | [] => none
  | c :: cs => if c = mark then number width cs else none

/-- Four digits, or a sign and six; there is no year minus zero. -/
def readYear : List Char → Option (ℤ × List Char)
  | '+' :: cs => (number 6 cs).map fun r => ((r.1 : ℤ), r.2)
  | '-' :: cs => (number 6 cs).bind fun r => if r.1 = 0 then none else some (-(r.1 : ℤ), r.2)
  | cs => (number 4 cs).map fun r => ((r.1 : ℤ), r.2)

/-- The month and the day, the first where they are left out. -/
def readMonthDay (cs : List Char) : (ℕ × ℕ) × List Char :=
  match numberAfter '-' 2 cs with
  | none => ((1, 1), cs)
  | some (month, cs) =>
    match numberAfter '-' 2 cs with
    | none => ((month, 1), cs)
    | some (day, cs) => ((month, day), cs)

/-- The seconds and their thousandths. -/
def readSeconds (cs : List Char) : (ℕ × ℕ) × List Char :=
  match numberAfter ':' 2 cs with
  | none => ((0, 0), cs)
  | some (seconds, cs) =>
    match numberAfter '.' 3 cs with
    | none => ((seconds, 0), cs)
    | some (ms, cs) => ((seconds, ms), cs)

/-- Hours and minutes, and what follows. -/
def readMinutes (cs : List Char) : Option ((ℕ × ℕ) × List Char) :=
  (number 2 cs).bind fun hours =>
    (numberAfter ':' 2 hours.2).map fun minutes => ((hours.1, minutes.1), minutes.2)

/-- The offset in minutes. -/
def readOffset : List Char → Option ℤ
  | [] => some 0
  | ['Z'] => some 0
  | '+' :: cs => (readMinutes cs).bind fun r =>
    if r.1.1 < 24 ∧ r.1.2 < 60 ∧ r.2 = [] then some ((r.1.1 * 60 + r.1.2 : ℕ) : ℤ) else none
  | '-' :: cs => (readMinutes cs).bind fun r =>
    if r.1.1 < 24 ∧ r.1.2 < 60 ∧ r.2 = [] then some (-((r.1.1 * 60 + r.1.2 : ℕ) : ℤ)) else none
  | _ => none

/-- The milliseconds since the beginning of the day; midnight is also the hour 24. -/
def readClock : List Char → Option ℤ
  | [] => some 0
  | 'T' :: cs =>
    (readMinutes cs).bind fun time =>
      let seconds := readSeconds time.2
      (readOffset seconds.2).bind fun offset =>
        let ms := ((time.1.1 * 60 + time.1.2) * 60 + seconds.1.1) * 1000 + seconds.1.2
        if time.1.2 < 60 ∧ seconds.1.1 < 60 ∧ ms ≤ 86400000 then some (ms - offset * 60000)
        else none
  | _ => none

/-- The day of a date that exists. -/
def dayOf (year : ℤ) (month day : ℕ) : Option ℤ :=
  if h : month ≤ 12 ∧ 1 ≤ day ∧ day ≤ daysInMonth (isLeap year) month then
    some (toDay ⟨year, month, day, h.1, h.2.1, h.2.2⟩)
  else none

/-- `Date.parse(text)`, `none` for `NaN`. -/
def dateParse (cs : List Char) : Option Time :=
  (readYear cs).bind fun year =>
    let monthDay := readMonthDay year.2
    (readClock monthDay.2).bind fun clock =>
      (dayOf year.1 monthDay.1.1 monthDay.1.2).bind fun day => timeClip (day * 86400000 + clock)

@[simp] theorem number_decText {width n : ℕ} (h : n < 10 ^ width) (rest : List Char) :
    number width (decText width n ++ rest) = some (n, rest) := by
  have htake : (decText width n ++ rest).take width = decText width n :=
    List.take_left' (length_decText width n)
  have hdrop : (decText width n ++ rest).drop width = rest :=
    List.drop_left' (length_decText width n)
  have hdigits : (decText width n).all isDigit = true :=
    List.all_eq_true.mpr (isDigit_decText width n)
  rw [number]
  simp only [htake, hdrop, hdigits, length_decText, and_self, if_true, decValue_decText h]

@[simp] theorem numberAfter_decText (mark : Char) {width n : ℕ} (h : n < 10 ^ width)
    (rest : List Char) :
    numberAfter mark width (mark :: (decText width n ++ rest)) = some (n, rest) := by
  rw [numberAfter, if_pos rfl, number_decText h]

/-- The year as `toISOString` writes it. -/
def yearText (year : ℤ) : List Char :=
  if 0 ≤ year ∧ year ≤ 9999 then decText 4 year.toNat
  else (if year < 0 then '-' else '+') :: decText 6 year.natAbs

theorem readYear_of_isDigit {cs : List Char} (h : ∀ c ∈ cs.head?, isDigit c = true) :
    readYear cs = (number 4 cs).map fun r => ((r.1 : ℤ), r.2) := by
  unfold readYear
  split
  · exact absurd (h '+' rfl) (by decide)
  · exact absurd (h '-' rfl) (by decide)
  · rfl

theorem readYear_yearText {year : ℤ} (h : |year| ≤ 275760) (rest : List Char) :
    readYear (yearText year ++ rest) = some (year, rest) := by
  rw [abs_le] at h
  unfold yearText
  split_ifs with hplain hneg
  · have hhead : ∀ c ∈ (decText 4 year.toNat ++ rest).head?, isDigit c = true := by
      intro c hc
      refine isDigit_decText 4 year.toNat c (List.mem_of_head? ?_)
      rwa [List.head?_append_of_ne_nil _ (List.ne_nil_of_length_eq_add_one (length_decText 4 _))]
        at hc
    rw [readYear_of_isDigit hhead, number_decText (by omega)]
    simp only [Option.map_some, Option.some.injEq, Prod.mk.injEq, and_true]
    omega
  · rw [List.cons_append, readYear, number_decText (by omega), Option.bind_some,
      if_neg (by omega : year.natAbs ≠ 0)]
    simp only [Option.some.injEq, Prod.mk.injEq, and_true]
    omega
  · rw [List.cons_append, readYear, number_decText (by omega)]
    simp only [Option.map_some, Option.some.injEq, Prod.mk.injEq, and_true]
    omega

theorem readMonthDay_text {month day : ℕ} (hmonth : month < 100) (hday : day < 100)
    (rest : List Char) :
    readMonthDay ('-' :: (decText 2 month ++ '-' :: (decText 2 day ++ rest))) =
      ((month, day), rest) := by
  have hm : month < 10 ^ 2 := hmonth
  have hd : day < 10 ^ 2 := hday
  simp only [readMonthDay, numberAfter_decText '-' hm, numberAfter_decText '-' hd]

theorem readClock_text {hours minutes seconds ms : ℕ} (hhours : hours < 24)
    (hminutes : minutes < 60) (hseconds : seconds < 60) (hms : ms < 1000) :
    readClock ('T' :: (decText 2 hours ++ ':' :: (decText 2 minutes ++ ':' ::
      (decText 2 seconds ++ '.' :: (decText 3 ms ++ ['Z']))))) =
      some ((((hours * 60 + minutes) * 60 + seconds) * 1000 + ms : ℕ) : ℤ) := by
  have hh : hours < 10 ^ 2 := by omega
  have hm : minutes < 10 ^ 2 := by omega
  have hs : seconds < 10 ^ 2 := by omega
  have hf : ms < 10 ^ 3 := hms
  have hread : readSeconds (':' :: (decText 2 seconds ++ '.' :: (decText 3 ms ++ ['Z']))) =
      ((seconds, ms), ['Z']) := by
    simp only [readSeconds, numberAfter_decText ':' hs, numberAfter_decText '.' hf]
  have hoffset : readOffset ['Z'] = some 0 := rfl
  have hday : ((hours * 60 + minutes) * 60 + seconds) * 1000 + ms ≤ 86400000 := by omega
  simp only [readClock, readMinutes, number_decText hh, numberAfter_decText ':' hm,
    Option.bind_some, Option.map_some, hread, hoffset, hminutes, hseconds, hday, and_self, if_true]
  simp

theorem toISOString_eq (t : ℤ) :
    (toISOString t).toList = yearText (ofDay (t / 86400000)).year ++
      '-' :: (decText 2 (ofDay (t / 86400000)).month ++
        '-' :: (decText 2 (ofDay (t / 86400000)).day ++
          'T' :: (decText 2 ((t % 86400000).toNat / 3600000) ++
            ':' :: (decText 2 ((t % 86400000).toNat / 60000 % 60) ++
              ':' :: (decText 2 ((t % 86400000).toNat / 1000 % 60) ++
                '.' :: (decText 3 ((t % 86400000).toNat % 1000) ++ ['Z'])))))) := by
  simp only [toISOString, yearText, String.toList_ofList, List.append_assoc, List.cons_append]

theorem dayOf_ofDay (n : ℤ) :
    dayOf (ofDay n).year (ofDay n).month (ofDay n).day = some n := by
  have hvalid := And.intro (ofDay n).month_le (And.intro (ofDay n).day_pos (ofDay n).day_le)
  rw [dayOf, dif_pos hvalid]
  exact congrArg some (toDay_ofDay n)

/-- A valid date is read back from its text. -/
theorem dateParse_toISOString (t : Time) : dateParse (toISOString t.ms).toList = some t := by
  have hbound := t.abs_le
  rw [MAX_TIME, abs_le] at hbound
  have hyear : |(ofDay (t.ms / 86400000)).year| ≤ 275760 :=
    abs_year_ofDay_le (abs_le.mpr ⟨by omega, by omega⟩)
  have hmonth : (ofDay (t.ms / 86400000)).month < 100 :=
    lt_of_le_of_lt (ofDay (t.ms / 86400000)).month_le (by decide)
  have hday : (ofDay (t.ms / 86400000)).day < 100 :=
    lt_of_le_of_lt (ofDay (t.ms / 86400000)).day_le_31 (by decide)
  have hhours : (t.ms % 86400000).toNat / 3600000 < 24 := by omega
  have hminutes : (t.ms % 86400000).toNat / 60000 % 60 < 60 := by omega
  have hseconds : (t.ms % 86400000).toNat / 1000 % 60 < 60 := by omega
  have hms : (t.ms % 86400000).toNat % 1000 < 1000 := by omega
  have hclock := readClock_text hhours hminutes hseconds hms
  rw [toISOString_eq, dateParse, readYear_yearText hyear, Option.bind_some]
  simp only [readMonthDay_text hmonth hday, hclock, Option.bind_some, dayOf_ofDay]
  have htime : t.ms / 86400000 * 86400000 + ((((t.ms % 86400000).toNat / 3600000 * 60 +
      (t.ms % 86400000).toNat / 60000 % 60) * 60 + (t.ms % 86400000).toNat / 1000 % 60) * 1000 +
        (t.ms % 86400000).toNat % 1000 : ℕ) = t.ms := by
    omega
  rw [htime, timeClip_ms]

end HeirsOcr.IsoDates
