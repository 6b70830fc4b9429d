import FormEdits.Edit.Basic
import FormEdits.Key.Template
import FormEdits.Session.Special

/-! # The edits of a statement

A template with its values becomes a delete of all statements that it overwrites, and one edit for
each value that is not empty. In a forward statement the value is the object and in a reverse one
the subject; the term opposite to it is the anchor. -/

namespace FormEdits

/-- What the terms of a template stand for in a session. -/
structure Statement where
  anchor : Resource
  predicate : Resource
  graph : Option Resource
  reverse : Bool
deriving DecidableEq, Repr

namespace Statement

/-- The statement of a template. A graph that the template names comes before that of the session,
and the subject of the session is the anchor if no second term is. -/
def ofTemplate (s : Session) (t : Template) : Except Error Statement := do
  let term1 ← s.resolve t.term1
  let term2 ← t.term2.mapM s.resolve
  let graph ← t.graph.mapM s.resolve
  let graph := graph.or s.graph
  .ok <|
    if t.modifiers.reverse then ⟨term2.getD s.subject, term1, graph, true⟩
    else
      match term2 with
      | none => ⟨s.subject, term1, graph, false⟩
      | some predicate => ⟨term1, predicate, graph, false⟩

/-- The edit with a value, or for all values if there is none. -/
def edit (st : Statement) (operation : Operation) (value : Option Term) : Edit :=
  let graph := st.graph.map Resource.toTerm
  if st.reverse then ⟨operation, value, st.predicate, some st.anchor, graph⟩
  else ⟨operation, some st.anchor, st.predicate, value, graph⟩

def trimmedValues (raw : List Text) : List Text := (raw.map Text.trim).eraseDups

/-- The edits with the terms of the values that are not empty. -/
def valueEdits (s : Session) (st : Statement) (operation : Operation) (d : Designator)
    (values : List Text) : Except Error (List Edit) := do
  let terms ← (values.filter (!·.isEmpty)).mapM fun v => s.coerce v d
  .ok (terms.filterMap fun t => t.map fun t => st.edit operation (some t))

/-- The edits of a statement with trimmed values. An overwrite deletes whatever is there first, and
so does a delete with an empty value, which then does nothing else. -/
def edits (s : Session) (st : Statement) (m : Modifiers) (d : Designator) (values : List Text) :
    Except Error (List Edit) :=
  let clear := st.edit .delete none
  let operation := if m.delete then Operation.delete else .insert
  if m.overwrite then (valueEdits s st operation d values).map (clear :: ·)
  else if m.delete && values.contains [] then .ok [clear]
  else valueEdits s st operation d values

end Statement

/-- The edits of a template with its values as they were submitted. A reverse statement whose value
would be a literal has none. -/
def Template.edits (t : Template) (s : Session) (m : Expansions) (raw : List Text)
    (supply : Supply) : Except Error (List Edit) × Supply :=
  let d := t.effectiveDesignator
  if t.modifiers.reverse && !d.isResource then (.ok [], supply)
  else
    match Statement.ofTemplate s t with
    | .error e => (.error e, supply)
    | .ok st =>
      let (raw, supply) :=
        if t.expandsValues then Macros.expandAll m raw supply else (raw, supply)
      (Statement.edits s st t.modifiers d (Statement.trimmedValues raw), supply)

end FormEdits
