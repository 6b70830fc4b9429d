import FormEdits.Time.Date

/-! # Times of day and moments

A time of day has microseconds and may have an offset from universal time. Its fields are read two
digits at a time, all separated by colons or none; the fields after the hour may be missing. A
fraction of the last field counts as one of a second, and is cut to six digits. In writing, seconds
are always shown, a fraction and the smaller parts of an offset only if they are not zero. -/

namespace FormEdits

/-- A time of day; `offset` is its distance from universal time in microseconds. -/
structure TimeOfDay where
  hour : Nat
  minute : Nat
  second : Nat
  micro : Nat
  offset : Option Int
deriving DecidableEq, Repr

namespace TimeOfDay

def microsPerSecond : Nat := 1000000

def microsPerDay : Nat := 86400 * microsPerSecond

/-- The fields that a text of digits writes, and whether anything is left over after them. -/
structure Fields where
  hour : Nat
  minute : Nat
  second : Nat
  micro : Nat
  leftOver : Bool

/-- The fraction at the front of a text, in microseconds, and whether anything is left over. -/
def fraction? (t : Text) (atEnd : Bool) : Option (Nat × Bool) := do
  let width := min 6 t.length
  let (value, r) ← Date.takeNumber? width t
  some (value * Nat.pow 10 (6 - width), !(r.dropWhile isAsciiDigit).isEmpty || !atEnd)

/-- Where a text goes on after two digits of a field. -/
inductive Next
  | done (leftOver : Bool)
  | field (t : Text)
  | fraction (t : Text)

/-- What follows a field, before `r`; `colons` says that the fields are separated by colons, and
`atEnd` that no offset follows. A single last character belongs to no field. -/
def next? (colons atEnd : Bool) : (r : Text) → Option Next
  | [] => some (.done !atEnd)
  | [_] => some (.done true)
  | c :: r =>
    if colons && c = ':' then some (.field r)
    else if c = '.' || c = ',' then some (.fraction r)
    else if colons then none
    else some (.field (c :: r))

/-- Reads up to `count` more fields, each of two digits, and the fraction. -/
def fieldsFrom (colons atEnd : Bool) : (count : Nat) → Text → Option (List Nat × Nat × Bool)
  | 0, t => (fraction? t atEnd).map fun f => ([], f)
  | count + 1, t => do
    let (value, r) ← Date.takeNumber? 2 t
    match ← next? colons atEnd r with
    | .done leftOver => some ([value], 0, leftOver)
    | .fraction r => (fraction? r atEnd).map fun f => ([value], f)
    | .field r => (fieldsFrom colons atEnd count r).map fun f => (value :: f.1, f.2)

/-- Reads the fields of a text; `atEnd` says that no offset follows it. -/
def fields? (t : Text) (atEnd : Bool) : Option Fields :=
  (fieldsFrom (t[2]? = some ':') atEnd 3 t).map fun (values, micro, leftOver) =>
    ⟨values[0]?.getD 0, values[1]?.getD 0, values[2]?.getD 0, micro, leftOver⟩

/-- The offset in microseconds that the fields after a sign write. Whole seconds of zero make the
offset zero; it has to be less than a day. -/
def offset? (negative : Bool) (f : Fields) : Option Int :=
  let seconds := f.hour * 3600 + f.minute * 60 + f.second
  let micros := if seconds = 0 then 0 else seconds * microsPerSecond + f.micro
  if f.leftOver || micros ≥ microsPerDay then none
  else some (if negative then -(micros : Int) else micros)

def ofFields? (f : Fields) (offset : Option Int) : Option TimeOfDay :=
  if f.hour < 24 && f.minute < 60 && f.second < 60 then
    some ⟨f.hour, f.minute, f.second, f.micro, offset⟩
  else none

/-- The time of day that a text writes, its offset after a sign or as a `Z`. -/
def read? (t : Text) : Option TimeOfDay := do
  let startsOffset (c : Char) : Bool := c = '+' || c = '-' || c = 'Z'
  let clock := t.takeWhile (!startsOffset ·)
  match t.dropWhile (!startsOffset ·) with
  | [] =>
    let f ← fields? clock true
    if f.leftOver then none else ofFields? f none
  | c :: r =>
    let f ← fields? clock false
    if c = 'Z' then
      if r.isEmpty then ofFields? f (some 0) else none
    else ofFields? f (some (← offset? (c = '-') (← fields? r true)))

/-- A fraction of a second, if it is not zero. -/
def fractionText (micro : Nat) : Text := if micro = 0 then [] else ['.'] ++ Date.padded 6 micro

def offsetText (offset : Int) : Text :=
  let micros := offset.natAbs
  let seconds := micros / microsPerSecond
  let micro := micros % microsPerSecond
  [if offset < 0 then '-' else '+'] ++ Date.padded 2 (seconds / 3600) ++ [':']
    ++ Date.padded 2 (seconds / 60 % 60)
    ++ (if seconds % 60 = 0 && micro = 0 then [] else [':'] ++ Date.padded 2 (seconds % 60))
    ++ fractionText micro

def text (t : TimeOfDay) : Text :=
  Date.padded 2 t.hour ++ [':'] ++ Date.padded 2 t.minute ++ [':'] ++ Date.padded 2 t.second
    ++ fractionText t.micro ++ (t.offset.map offsetText).getD []

end TimeOfDay

structure DateTime where
  date : Date
  time : TimeOfDay
deriving DecidableEq, Repr

namespace DateTime

/-- How many characters the date at the front of a text takes up, judged by its hyphens and by a
`W` for the week. A week of digits alone takes the day of the week along if that leaves whole pairs
of digits for the time. -/
def dateLength (t : Text) : Nat :=
  if t.length = 7 then 7
  else
    match t.drop 4 with
    | '-' :: 'W' :: r =>
      if r[2]? = some '-' then (if r[4]?.any isAsciiDigit then 8 else 10) else 8
    | '-' :: _ => 10
    | 'W' :: _ =>
      let stop := 7 + ((t.drop 7).takeWhile isAsciiDigit).length
      if stop < 9 then stop else if stop % 2 = 0 then 7 else 8
    | _ => 8

/-- The moment that a text writes: a date, any one character, and a time of day. A date alone is
midnight. -/
def read? (t : Text) : Option DateTime :=
  if t.length < 7 then none
  else do
    let n := dateLength t
    let date ← Date.front? (t.take n)
    match t.drop n with
    | [] => some ⟨date, ⟨0, 0, 0, 0, none⟩⟩
    | _ :: r => some ⟨date, ← TimeOfDay.read? r⟩

def text (m : DateTime) : Text := m.date.text ++ ['T'] ++ m.time.text

/-- The day number of the first of January 1970. -/
def epochDay : Nat := 719163

/-- The moment, in universal time, that lies a number of microseconds after 1970 began. -/
def ofEpochMicros (n : Nat) : DateTime :=
  let inDay := n % TimeOfDay.microsPerDay
  let seconds := inDay / TimeOfDay.microsPerSecond
  ⟨Date.ofDayNumber (epochDay + n / TimeOfDay.microsPerDay),
    ⟨seconds / 3600, seconds / 60 % 60, seconds % 60, inDay % TimeOfDay.microsPerSecond, some 0⟩⟩

end DateTime

end FormEdits
