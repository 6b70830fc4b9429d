import FormEdits.Edit.Basic
import FormEdits.Json.Written
import FormEdits.Rdf.Written

/-! # Edits as a JSON report

The report of an edit set lists its deletes and its inserts, each with its terms in N3, and says how
many there are of either. -/

namespace FormEdits

/-- An edit with its terms as they are written. -/
structure QuadReport where
  subject : Option Text
  predicate : Text
  object : Option Text
  graph : Option Text
deriving DecidableEq, Repr

structure Report where
  deletes : List QuadReport
  inserts : List QuadReport
deriving DecidableEq, Repr

def Edit.report (e : Edit) : Except Error QuadReport := do
  let s ← e.subject.mapM Written.term
  let p ← Written.term e.predicate
  let o ← e.object.mapM Written.term
  let g ← e.graph.mapM Written.term
  .ok ⟨s, p, o, g⟩

def EditSet.report (set : EditSet) : Except Error Report := do
  let deletes ← set.deletes.mapM Edit.report
  let inserts ← set.inserts.mapM Edit.report
  .ok ⟨deletes, inserts⟩

namespace Report

def quadText (q : QuadReport) : Text :=
  Json.object 2 [("subject", Json.quotedOrNull q.subject), ("predicate", Json.quoted q.predicate),
    ("object", Json.quotedOrNull q.object), ("graph", Json.quotedOrNull q.graph)]

/-- The report as a JSON document. -/
def text (r : Report) : Text :=
  Json.object 0 [("deletes", Json.array 1 (r.deletes.map quadText)),
    ("inserts", Json.array 1 (r.inserts.map quadText)),
    ("deleted_count", Numeral.digits r.deletes.length),
    ("added_count", Numeral.digits r.inserts.length)]

end Report

/-- The number of the edits of either kind, on one line. -/
def EditSet.summary (set : EditSet) : Text :=
  "EditSet(inserts=" ++ Numeral.digits set.inserts.length ++ ", deletes="
    ++ Numeral.digits set.deletes.length ++ ")"

end FormEdits
