import FormEdits.Number.Numeral

/-! # Decimals

Decimals of any size and precision, with infinities and with NaNs that may carry a payload. A
finite decimal is written positionally and keeps the zeros at its end. -/

namespace FormEdits

/-- A decimal, with the special values. -/
inductive Decimal
  | finite (value : Scientific)
  | infinite (negative : Bool)
  | nan (negative signalling : Bool) (payload : Text)
deriving DecidableEq, Repr

namespace Decimal

/-- A NaN with the digits of its payload. -/
def nan? (negative signalling : Bool) (payload : Text) : Option Decimal :=
  if payload.all isAsciiDigit then some (.nan negative signalling (payload.dropWhile (· = '0')))
  else none

/-- The decimal that a text writes. Blanks around it and all underscores do not count. -/
def read? (t : Text) : Option Decimal := do
  let t ← Numeral.ascii? (t.trim.filter (· != '_'))
  let (negative, body) := Numeral.takeSign t
  let name := Text.asciiLower body
  if name = "inf" || name = "infinity" then some (.infinite negative)
  else
    match Text.after? "nan" name, Text.after? "snan" name with
    | some payload, _ => nan? negative false payload
    | none, some payload => nan? negative true payload
    | none, none => (Scientific.read? t).map .finite

/-- The positional form of a decimal. -/
def text : Decimal → Text
  | .finite s => Scientific.sign s.negative ++ s.positional
  | .infinite negative => Scientific.sign negative ++ "Infinity"
  | .nan negative signalling payload =>
    Scientific.sign negative ++ (if signalling then "sNaN" else "NaN") ++ payload

end Decimal

end FormEdits
