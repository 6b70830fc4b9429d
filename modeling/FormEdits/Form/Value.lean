import FormEdits.Assoc
import FormEdits.Number.Double
import FormEdits.Number.Integer
import FormEdits.Rdf.Term
import FormEdits.Text.Quoted

/-! # Values of unknown type

A form, a configuration document or a setting may hold values of any type. Each has a plain text,
which is what a form field with that value says, and a quoted one, which messages show and which
collections are written with. -/

namespace FormEdits

inductive Value
  | null
  | bool (b : Bool)
  | int (n : Int)
  | float (x : Float)
  | text (t : Text)
  | bytes (bs : List UInt8)
  | list (vs : List Value)
  | tuple (vs : List Value)
  | mapping (entries : List (Value × Value))
  | term (t : Term)

namespace Value

/-- A term as messages show it, built from its quoted parts. -/
def quotedTerm : Term → Text
  | .iri t => "rdflib.term.URIRef(" ++ t.quoted ++ ")"
  | .blank l => "rdflib.term.BNode(" ++ l.quoted ++ ")"
  | .literal l =>
    let type : Text :=
      match l with
      | .plain _ => []
      | .inLanguage _ tag => ", lang=" ++ tag.quoted
      | .ofDatatype _ iri => ", datatype=rdflib.term.URIRef(" ++ iri.quoted ++ ")"
    "rdflib.term.Literal(" ++ l.text.quoted ++ type ++ ")"

mutual

/-- The value as messages show it. -/
def quoted : Value → Text
  | .null => "None"
  | .bool b => if b then "True" else "False"
  | .int n => Integer.text n
  | .float x => Double.text x
  | .text t => t.quoted
  | .bytes bs => quotedBytes bs
  | .list vs => "[" ++ List.intercalate ", " (quotedAll vs) ++ "]"
  | .tuple [v] => "(" ++ quoted v ++ ",)"
  | .tuple vs => "(" ++ List.intercalate ", " (quotedAll vs) ++ ")"
  | .mapping es => "\x7b" ++ List.intercalate ", " (quotedEntries es) ++ "\x7d"
  | .term t => quotedTerm t

def quotedAll : List Value → List Text
  | [] => []
  | v :: vs => quoted v :: quotedAll vs

def quotedEntries : List (Value × Value) → List Text
  | [] => []
  | (k, v) :: es => (quoted k ++ ": " ++ quoted v) :: quotedEntries es

end

/-- The plain text of a value: a text or a term as it is, all else quoted. -/
def plain : Value → Text
  | .text t => t
  | .term t => t.text
  | v => v.quoted

def typeName : Value → Text
  | .null => "NoneType"
  | .bool _ => "bool"
  | .int _ => "int"
  | .float _ => "float"
  | .text _ => "str"
  | .bytes _ => "bytes"
  | .list _ => "list"
  | .tuple _ => "tuple"
  | .mapping _ => "dict"
  | .term (.iri _) => "URIRef"
  | .term (.blank _) => "BNode"
  | .term (.literal _) => "Literal"

/-- Whether a setting with this value counts as given: nothing that is empty, zero or false does. -/
def isGiven : Value → Bool
  | .null => false
  | .bool b => b
  | .int n => n != 0
  | .float x => x != 0.0
  | .text t => !t.isEmpty
  | .bytes bs => !bs.isEmpty
  | .list vs => !vs.isEmpty
  | .tuple vs => !vs.isEmpty
  | .mapping es => !es.isEmpty
  | .term t => !t.text.isEmpty

end Value

end FormEdits
