import FormEdits.Key.PrefixLine
import FormEdits.Macros.Expand
import FormEdits.Session.Basic

/-! # Macros that change the session

The values of three macros change the session before any statement is read: the last value of
`SUBJECT` and of `GRAPH` is the new subject or graph, and every value of `PREFIX` binds a prefix.
They are applied in this order, each to the session that the one before it left. -/

namespace FormEdits

inductive Special
  | subject
  | graph
  | prefixes
deriving DecidableEq, Repr

namespace Special

/-- The special macros in the order in which they are applied. -/
def all : List Special := [subject, graph, prefixes]

def name : Special → Text
  | subject => "SUBJECT"
  | graph => "GRAPH"
  | prefixes => "PREFIX"

def resource (s : Session) (value : Text) : Except SpecialFault Resource :=
  let value := value.trim
  if value.isEmpty then .error .emptyValue
  else (s.locate value).mapError .malformedAuthority

def bindPrefix (s : Session) (line : Text) : Except SpecialFault Session :=
  match PrefixLine.parse? line with
  | some l => .ok { s with prefixes := s.prefixes.insert l.name l.iri }
  | none => .error (.notPrefixLine line)

def apply (special : Special) (values : List Text) (s : Session) : Except SpecialFault Session :=
  match special with
  | subject => do
    let r ← resource s (values.getLast?.getD [])
    .ok { s with subject := r }
  | graph => do
    let r ← resource s (values.getLast?.getD [])
    .ok { s with graph := some r }
  | prefixes => values.foldlM bindPrefix s

end Special

namespace Session

/-- The session after those of the special macros that have values. -/
def applySpecials (m : Expansions) :
    List Special → Session → Supply → Except Error Session × Supply
  | [], s, supply => (.ok s, supply)
  | special :: rest, s, supply =>
    match (m.find? special.name).getD [] with
    | [] => applySpecials m rest s supply
    | v :: vs =>
      let (texts, supply) := Macros.renderAll (v :: vs) supply
      match special.apply texts s with
      | .ok s => applySpecials m rest s supply
      | .error fault => (.error (.special special.name fault), supply)

end Session

end FormEdits
