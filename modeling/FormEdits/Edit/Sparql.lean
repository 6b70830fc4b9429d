import FormEdits.Edit.Basic
import FormEdits.Rdf.Written

/-! # Edits as a SPARQL update

A delete that leaves out a term, or names a blank node, becomes a pattern of its own, in which
variables stand for the missing term and for the blank nodes; the other deletes together are one
operation, and the inserts another. Both list their triples by graph, in the order in which the
graphs first appear. `EditSet.updates` gives the operations, and `Update.text` writes them. -/

namespace FormEdits

namespace Sparql

/-- A place in a triple or pattern. A missing term has no written form. -/
inductive Slot
  | term (t : Term)
  | variable (name : Text)
  | missing
deriving DecidableEq, Repr

/-- A triple, or the pattern for triples. -/
structure Pattern where
  subject : Slot
  predicate : Slot
  object : Slot
deriving DecidableEq, Repr

abbrev Block := Option Term × List Pattern

inductive Update
  | deleteWhere (graph : Option Term) (pattern : Pattern)
  | deleteData (triples : List (Option Term × Pattern))
  | insertData (triples : List (Option Term × Pattern))
deriving DecidableEq, Repr

end Sparql

namespace Edit

open Sparql

/-- Whether a delete has to be written as a pattern. -/
def needsPattern (e : Edit) : Bool :=
  e.isWildcard || e.subject.any Term.isBlank || e.predicate.isBlank || e.object.any Term.isBlank

/-- The triple of an edit as it is. -/
def triple (e : Edit) : Pattern :=
  let slot (t : Option Term) : Slot := (t.map Slot.term).getD .missing
  ⟨slot e.subject, .term e.predicate, slot e.object⟩

/-- The labels of the blank nodes of an edit, in order. -/
def blankLabels (e : Edit) : List Text :=
  ([e.subject, some e.predicate, e.object].filterMap fun
    | some (.blank label) => some label
    | _ => none).eraseDups

/-- The place in a pattern of a term of an edit with the blank nodes `labels`; a term that is left
out becomes the variable `wildcard`. -/
def patternSlot (labels : List Text) (wildcard : Text) : Option Term → Slot
  | none => .variable wildcard
  | some (.blank label) => .variable (['b'] ++ Numeral.digits (labels.idxOf label))
  | some t => .term t

/-- The pattern of an edit, with one variable for each blank node. -/
def pattern (e : Edit) : Pattern :=
  let slot := patternSlot e.blankLabels
  ⟨slot "s" e.subject, slot "p" e.predicate, slot "o" e.object⟩

end Edit

namespace EditSet

open Sparql

def triples (edits : List Edit) : List (Option Term × Pattern) :=
  edits.map fun e => (e.graph, e.triple)

def updates (set : EditSet) : List Update :=
  let patterns := set.deletes.filter (·.needsPattern)
  let concrete := set.deletes.filter (!·.needsPattern)
  patterns.map (fun e => .deleteWhere e.graph e.pattern)
    ++ (if concrete.isEmpty then [] else [.deleteData (triples concrete)])
    ++ (if set.inserts.isEmpty then [] else [.insertData (triples set.inserts)])

end EditSet

namespace Sparql

def blocks (triples : List (Option Term × Pattern)) : List Block := Assoc.collect triples

/-! ### Writing -/

def Slot.text : Slot → Except Error Text
  | .term t => Written.term t
  | .variable name => .ok ('?' :: name)
  | .missing => .error .missingTerm

/-- A pattern with a point at its end. -/
def Pattern.text (p : Pattern) : Except Error Text := do
  let s ← p.subject.text
  let v ← p.predicate.text
  let o ← p.object.text
  .ok (s ++ " " ++ v ++ " " ++ o ++ " .")

/-- Lines that begin with blanks and end in a line feed. -/
def indented (blanks : Text) (lines : List Text) : Text :=
  lines.flatMap fun l => blanks ++ l ++ "\n"

/-- The patterns of a graph, one a line; a named graph has a block of its own around them. -/
def blockText (b : Block) : Except Error Text := do
  let lines ← b.2.mapM Pattern.text
  match b.1 with
  | none => .ok (indented "  " lines)
  | some g =>
    let name ← Written.term g
    .ok ("  GRAPH " ++ name ++ " \x7b\n" ++ indented "    " lines ++ "  \x7d\n")

/-- Triples by graph. All triples are tried before any graph is named, so that of several terms
that cannot be written the one in the first triple is reported. -/
def dataText (triples : List (Option Term × Pattern)) : Except Error Text := do
  let _ ← triples.mapM fun t => t.2.text
  let parts ← (blocks triples).mapM blockText
  .ok parts.flatten

def Update.text : Update → Except Error Text
  | .deleteWhere g p => (blockText (g, [p])).map fun t => "DELETE WHERE \x7b\n" ++ t ++ "\x7d"
  | .deleteData ts => (dataText ts).map fun t => "DELETE DATA \x7b\n" ++ t ++ "\x7d"
  | .insertData ts => (dataText ts).map fun t => "INSERT DATA \x7b\n" ++ t ++ "\x7d"

end Sparql

def EditSet.sparql (set : EditSet) : Except Error Text :=
  (set.updates.mapM Sparql.Update.text).map (List.intercalate " ;\n")

end FormEdits
