import FormEdits.Number.Integer
import FormEdits.Number.Decimal
import FormEdits.Number.Double
import FormEdits.Time.DateTime
import FormEdits.Text.Base64

/-! # Datatypes of literals

The text of a literal with a datatype of XML Schema is brought into a normal form when the literal
is made: a number, a date or a sequence of bytes is read and written again. A text that does not
read as the datatype stays as it is, and so does every text of a datatype without a normal form. -/

namespace FormEdits

namespace Datatype

/-- What the names of all datatypes of XML Schema begin with. -/
def xsd : Text := "http://www.w3.org/2001/XMLSchema#"

/-- The datatypes that have a normal form, by the way in which their texts are read. -/
inductive Kind
  | integer
  | boolean
  | decimal
  | double
  | date
  | dateTime
  | time
  | normalizedString
  | token
  | hexBinary
  | base64Binary
deriving DecidableEq, Repr

/-- The kind of a datatype, by its name without what all names begin with. -/
def kinds : List (Text × Kind) :=
  [("integer", .integer), ("int", .integer), ("long", .integer), ("short", .integer),
    ("byte", .integer), ("unsignedInt", .integer), ("unsignedLong", .integer),
    ("unsignedShort", .integer), ("unsignedByte", .integer), ("nonNegativeInteger", .integer),
    ("positiveInteger", .integer), ("negativeInteger", .integer), ("nonPositiveInteger", .integer),
    ("boolean", .boolean), ("decimal", .decimal), ("double", .double), ("float", .double),
    ("date", .date), ("dateTime", .dateTime), ("time", .time),
    ("normalizedString", .normalizedString), ("token", .token), ("hexBinary", .hexBinary),
    ("base64Binary", .base64Binary)]

def kind? (iri : Text) : Option Kind :=
  (Text.after? xsd iri).bind fun name => kinds.lookup name

/-- The date in a text that may go on with a time or an offset: a final `Z` is dropped, and what
stands from a `T`, a plus, or a last hyphen before a colon on. The date has to have a hyphen. -/
def date? (t : Text) : Option Date :=
  let t := if t.getLast? = some 'Z' then t.dropLast else t
  let withoutOffset : Text :=
    match Text.cutLast? '+' t with
    | some (c :: d, _) => c :: d
    | _ =>
      match Text.cutLast? '-' t with
      | some (c :: d, offset) => if offset.contains ':' then c :: d else t
      | _ => t
  let date := match Text.cut? 'T' t with | some (d, _) => d | none => withoutOffset
  if date.contains '-' then Date.read? date else none

/-- Tabs and line ends become spaces. -/
def spaced (t : Text) : Text :=
  t.map fun c => if c = '\t' || c = '\n' || c = '\r' then ' ' else c

/-- Each run of spaces becomes one space. -/
def collapsed : Text → Text
  | [] => []
  | c :: r => if c = ' ' && r.head? = some ' ' then collapsed r else c :: collapsed r

/-- The normal form of a text of a kind, if it reads as one. -/
def Kind.normal? (t : Text) : Kind → Option Text
  | .integer => (Integer.read? t).map Integer.text
  | .boolean =>
    let lower := Text.asciiLower t
    some (if lower = "true" || lower = "1" then "true" else "false")
  | .decimal => (Decimal.read? t).map Decimal.text
  | .double => (Double.read? t).map Double.text
  | .date => (date? t).map Date.text
  | .dateTime => (DateTime.read? t).map DateTime.text
  | .time => (TimeOfDay.read? ((Text.after? "T" t).getD t)).map TimeOfDay.text
  | .normalizedString => some (spaced t)
  | .token => some (collapsed (spaced t).trim)
  | .hexBinary =>
    if t.length % 2 = 0 && t.all fun c => (hexDigitValue? c).isSome then some (Text.asciiLower t)
    else none
  | .base64Binary => (Base64.decode? t).map Base64.encode

/-- The text that a literal of the datatype `iri` made from `t` has. -/
def normalize (iri t : Text) : Text := ((kind? iri).bind (Kind.normal? t)).getD t

def hasSpecialNumbers (iri : Text) : Bool := kind? iri = some .decimal || kind? iri = some .double

end Datatype

end FormEdits
