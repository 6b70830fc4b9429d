import FormEdits.Edit.Store
import FormEdits.Rdf.Written

/-! # Inserts as lines of quads

The inserts of an edit set as N-Quads: a line for each quad that a dataset would hold, in the
spelling that it has first in its graph. -/

namespace FormEdits

/-- The quads, each once, in their first spelling. -/
def Quad.distinct (quads : List Quad) : List Quad :=
  quads.foldl (fun kept q => if kept.any q.same then kept else kept ++ [q]) []

/-- A quad on a line; the default graph has no name. -/
def Quad.line (q : Quad) : Except Error Text := do
  let s ← Written.term q.subject
  let p ← Written.term q.predicate
  let o ← Written.termOnLine q.object
  let g ← q.graph.mapM Written.term
  .ok (s ++ " " ++ p ++ " " ++ o ++ " " ++ g.getD [] ++ " .")

/-- The lines for the inserts of an edit set. -/
def EditSet.insertLines (set : EditSet) : Except Error (List Text) := do
  let quads ← set.inserts.mapM (·.quad .dataset)
  (Quad.distinct quads).mapM Quad.line

end FormEdits
