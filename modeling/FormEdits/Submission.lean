import FormEdits.Edit.Statement
import FormEdits.Form.Submission
import FormEdits.Key.Classify
import FormEdits.Macros.Resolve

/-! # Submitting a form

A submission declares macros, changes the session by the special ones among them, and makes the
edits of its statements in the changed session. An error before the session is changed leaves it as
it was; an error in a statement leaves the changed session and no edits. -/

namespace FormEdits

/-- What a submission leaves behind: the session for the next one, the edits or the error, and the
supply for later. -/
structure Outcome where
  session : Session
  edits : Except Error EditSet
  supply : Supply

/-- A key that is or may become a statement template, with its values. -/
structure Candidate where
  key : Key
  values : List Text
deriving DecidableEq, Repr

/-- The declared macros and the candidates for statements among the fields of a form. -/
structure Sorted where
  table : MacroTable
  candidates : List Candidate

namespace Sorted

def add (sorted : Sorted) (field : Field) : Sorted :=
  match Key.classify field.1 with
  | .declaration d => { sorted with table := sorted.table.declare d.name field.2 d.pending }
  | .unrecognized => sorted
  | key => { sorted with candidates := sorted.candidates ++ [⟨key, field.2⟩] }

def ofFields (fields : List Field) : Sorted := fields.foldl add ⟨.initial, []⟩

end Sorted

namespace Candidate

/-- The templates of a candidate: its own, or those among the expansions of its text. -/
def templates (c : Candidate) (m : Expansions) (supply : Supply) : List Template × Supply :=
  match c.key with
  | .statement t => ([t], supply)
  | .unexpanded text =>
    let (texts, supply) := Macros.expand m text supply
    (texts.filterMap Template.parse?, supply)
  | .declaration _ | .unrecognized => ([], supply)

/-- The edits of templates that share their values, up to the first error. -/
def templateEdits (s : Session) (m : Expansions) (values : List Text) :
    List Template → Supply → Except Error (List Edit) × Supply
  | [], supply => (.ok [], supply)
  | t :: ts, supply =>
    match t.edits s m values supply with
    | (.error e, supply) => (.error e, supply)
    | (.ok here, supply) =>
      let (rest, supply) := templateEdits s m values ts supply
      (rest.map (here ++ ·), supply)

/-- The edits of candidates, up to the first error. -/
def edits (s : Session) (m : Expansions) :
    List Candidate → Supply → Except Error (List Edit) × Supply
  | [], supply => (.ok [], supply)
  | c :: cs, supply =>
    let (templates, supply) := c.templates m supply
    match templateEdits s m c.values templates supply with
    | (.error e, supply) => (.error e, supply)
    | (.ok here, supply) =>
      let (rest, supply) := edits s m cs supply
      (rest.map (here ++ ·), supply)

end Candidate

namespace Session

def submitSorted (s : Session) (sorted : Sorted) (supply : Supply) : Outcome :=
  match Macros.resolve sorted.table supply with
  | (.error e, supply) => ⟨s, .error e, supply⟩
  | (.ok m, supply) =>
    match s.applySpecials m Special.all supply with
    | (.error e, supply) => ⟨s, .error e, supply⟩
    | (.ok s, supply) =>
      let (edits, supply) := Candidate.edits s m sorted.candidates supply
      ⟨s, edits.map EditSet.ofEdits, supply⟩

def submit (s : Session) (form : Submission) (supply : Supply) : Outcome :=
  match form.fields with
  | .error e => ⟨s, .error e, supply⟩
  | .ok fields => s.submitSorted (Sorted.ofFields fields) supply

end Session

end FormEdits
