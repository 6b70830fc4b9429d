import FormEdits.Number.Numeral

/-! # Dates

Dates of the Gregorian calendar from year 1 to year 9999. A date is read from its calendar form,
with or without hyphens, or from a week and a day of the week, and written `YYYY-MM-DD`. Day 1 of
the day count is the first of January of year 1, which is a Monday. -/

namespace FormEdits

structure Date where
  year : Nat
  month : Nat
  day : Nat
deriving DecidableEq, Repr

namespace Date

def isLeap (year : Nat) : Bool := year % 4 = 0 && (year % 100 ≠ 0 || year % 400 = 0)

def daysInMonth (year month : Nat) : Nat :=
  if month = 2 then (if isLeap year then 29 else 28)
  else if month = 4 || month = 6 || month = 9 || month = 11 then 30 else 31

def isValid (d : Date) : Bool :=
  1 ≤ d.year && d.year ≤ 9999 && 1 ≤ d.month && d.month ≤ 12 &&
    1 ≤ d.day && d.day ≤ daysInMonth d.year d.month

/-- The number of days before a year begins. -/
def daysBeforeYear (year : Nat) : Nat :=
  let y := year - 1
  y * 365 + y / 4 - y / 100 + y / 400

/-- The number of days of a year before a month begins. -/
def daysBeforeMonth (year month : Nat) : Nat :=
  (List.range (month - 1)).foldl (fun days i => days + daysInMonth year (i + 1)) 0

/-- The place of a date in the day count. -/
def dayNumber (d : Date) : Nat :=
  daysBeforeYear d.year + daysBeforeMonth d.year d.month + d.day

/-- The day of the week, Monday being 0. -/
def weekday (d : Date) : Nat := (d.dayNumber + 6) % 7

/-- The date at a place in the day count. -/
def ofDayNumber (n : Nat) : Date :=
  let guess := (n - 1) * 400 / 146097 + 1
  let year :=
    if daysBeforeYear (guess + 1) < n then guess + 1
    else if n ≤ daysBeforeYear guess then guess - 1 else guess
  let inYear := n - daysBeforeYear year
  let month := ((List.range 12).filter fun i => daysBeforeMonth year (i + 1) < inYear).length
  ⟨year, month, inYear - daysBeforeMonth year month⟩

/-- Whether a year has a week 53: it starts on a Thursday, or on a Wednesday if it is a leap
year. -/
def hasLongWeekCount (year : Nat) : Bool :=
  let first := weekday ⟨year, 1, 1⟩
  first = 3 || (first = 2 && isLeap year)

/-- The Monday of week 1, the week that holds the first Thursday of the year. -/
def firstMonday (year : Nat) : Nat :=
  let jan1 : Date := ⟨year, 1, 1⟩
  if jan1.weekday > 3 then jan1.dayNumber + 7 - jan1.weekday else jan1.dayNumber - jan1.weekday

/-- The date of a day, Monday being 1, in a week of a year. -/
def ofWeek? (year week day : Nat) : Option Date :=
  if 1 ≤ year && 1 ≤ week && (week ≤ 52 || (week = 53 && hasLongWeekCount year)) &&
      1 ≤ day && day ≤ 7 then
    let d := ofDayNumber (firstMonday year + (week - 1) * 7 + (day - 1))
    if d.isValid then some d else none
  else none

/-- A number written with exactly `width` ASCII digits, and what follows it. -/
def takeNumber? (width : Nat) (t : Text) : Option (Nat × Text) :=
  let digits := t.take width
  if digits.length = width && digits.all isAsciiDigit then
    some (Numeral.value digits, t.drop width)
  else none

/-- The date that stands at the front of a text. -/
def front? (t : Text) : Option Date := do
  let (year, r) ← takeNumber? 4 t
  let hyphens := r.head? = some '-'
  let skip (r : Text) : Option Text := if hyphens then Text.after? "-" r else some r
  let r ← skip r
  match Text.after? "W" r with
  | some r =>
    let (week, r) ← takeNumber? 2 r
    if r.isEmpty then ofWeek? year week 1
    else
      let (day, _) ← takeNumber? 1 (← skip r)
      ofWeek? year week day
  | none =>
    let (month, r) ← takeNumber? 2 r
    let (day, _) ← takeNumber? 2 (← skip r)
    let d : Date := ⟨year, month, day⟩
    if d.isValid then some d else none

/-- The date that a text of seven, eight or ten characters writes. -/
def read? (t : Text) : Option Date :=
  if t.length = 7 || t.length = 8 || t.length = 10 then front? t else none

/-- A number with zeros in front, up to a width. -/
def padded (width n : Nat) : Text :=
  let digits := Numeral.digits n
  List.replicate (width - digits.length) '0' ++ digits

def text (d : Date) : Text :=
  padded 4 d.year ++ ['-'] ++ padded 2 d.month ++ ['-'] ++ padded 2 d.day

end Date

end FormEdits
