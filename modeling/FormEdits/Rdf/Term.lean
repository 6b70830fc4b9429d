import FormEdits.Rdf.Datatype
import FormEdits.Rdf.LanguageTag

/-! # Terms

A term is an IRI, a blank node or a literal; the first two are the resources. An IRI may be any
text: whether it can be written is asked when it is written. Two literals are the same term for a
store when they differ at most in the case of their language tags. -/

namespace FormEdits

/-- A text on its own, in a language or of a datatype. -/
inductive Literal
  | plain (text : Text)
  | inLanguage (text tag : Text)
  | ofDatatype (text datatype : Text)
deriving DecidableEq, Repr

inductive Resource
  | iri (text : Text)
  | blank (label : Text)
deriving DecidableEq, Repr

inductive Term
  | iri (text : Text)
  | blank (label : Text)
  | literal (l : Literal)
deriving DecidableEq, Repr

namespace Literal

def text : Literal → Text
  | plain t | inLanguage t _ | ofDatatype t _ => t

def language : Literal → Option Text
  | inLanguage _ tag => some tag
  | _ => none

def datatype : Literal → Option Text
  | ofDatatype _ iri => some iri
  | _ => none

/-- A literal of a datatype has the normal form of the text that it is made from. -/
def typed (t datatype : Text) : Literal := ofDatatype (Datatype.normalize datatype t) datatype

/-- A literal with a language tag, in whose check a final line feed does not count. The empty tag is
no tag. -/
def tagged? (t tag : Text) : Option Literal :=
  if tag.isEmpty then some (plain t)
  else if isLanguageTag (Text.dropFinalLineFeed tag) then some (inLanguage t tag) else none

/-- The literal with its language tag in lower case. -/
def folded : Literal → Literal
  | inLanguage t tag => inLanguage t (Text.asciiLower tag)
  | l => l

end Literal

def Resource.toTerm : Resource → Term
  | .iri t => .iri t
  | .blank l => .blank l

instance : Coe Resource Term := ⟨Resource.toTerm⟩

namespace Term

def isBlank : Term → Bool
  | .blank _ => true
  | _ => false

def resource? : Term → Option Resource
  | .iri t => some (.iri t)
  | .blank l => some (.blank l)
  | .literal _ => none

def isResource (t : Term) : Bool := t.resource?.isSome

def folded : Term → Term
  | .literal l => .literal l.folded
  | t => t

def same (a b : Term) : Bool := a.folded = b.folded

def text : Term → Text
  | .iri t => t
  | .blank l => l
  | .literal l => l.text

end Term

end FormEdits
