import FormEdits.Key.Name
import FormEdits.Rdf.LanguageTag

/-! # Designators

A designator says what kind of term a value becomes: a resource, a blank node, a plain literal, a
literal with a language tag or one with a datatype. -/

namespace FormEdits

inductive Designator
  | resource
  | blank
  | literal
  | language (tag : Text)
  | datatype (token : Text)
deriving DecidableEq, Repr

namespace Designator

def sigil : Designator → Char
  | resource => ':'
  | blank => '_'
  | literal => '\''
  | language _ => '@'
  | datatype _ => '^'

/-- The language tag or the datatype token. -/
def argument : Designator → Option Text
  | resource | blank | literal => none
  | language tag => some tag
  | datatype token => some token

/-- The designator with a sigil and an argument, which the first three kinds have no use for. -/
def ofSigil? (c : Char) (argument : Text) : Option Designator :=
  if c = ':' then some resource
  else if c = '_' then some blank
  else if c = '\'' then some literal
  else if c = '@' then some (language argument)
  else if c = '^' then some (datatype argument)
  else none

def text (d : Designator) : Text := d.sigil :: d.argument.getD []

/-- Whether the value becomes a resource. -/
def isResource : Designator → Bool
  | resource | blank => true
  | _ => false

/-- The designator that a token without a final line feed writes. -/
def ofToken? : Text → Option Designator
  | [] => none
  | c :: r =>
    if c = '@' then (if isLanguageTag r then some (language r) else none)
    else if c = '^' then (if isTermToken r then some (datatype r) else none)
    else if r.isEmpty then ofSigil? c []
    else none

/-- The designator that a token writes; a line feed at its end does not count. -/
def parse? (token : Text) : Option Designator := ofToken? (Text.dropFinalLineFeed token)

end Designator

end FormEdits
