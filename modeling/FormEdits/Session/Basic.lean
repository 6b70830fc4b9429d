import FormEdits.Error
import FormEdits.Key.Designator
import FormEdits.Uri.Join

/-! # Sessions

A session is what the tokens of a form are read against: the current subject, a graph, the prefixes
and a function that may replace the term of each value. `resolve` reads a token of a key and
`coerce` a value. -/

namespace FormEdits

/-- What becomes of the term of a value: another term, nothing, or an error. -/
abbrev Replacement := Term → Except Error (Option Term)

/-- The IRIs that prefixes stand for. -/
abbrev Prefixes := Assoc Text Text

structure Session where
  subject : Resource
  graph : Option Resource
  prefixes : Prefixes
  replacement : Option Replacement

namespace Prefixes

/-- The prefixes that every session knows. -/
def default : Prefixes :=
  [("rdf", "http://www.w3.org/1999/02/22-rdf-syntax-ns#"),
    ("rdfs", "http://www.w3.org/2000/01/rdf-schema#"),
    ("owl", "http://www.w3.org/2002/07/owl#"),
    ("xsd", "http://www.w3.org/2001/XMLSchema#")]

/-- The known prefixes with those of a value, whose names and values count as texts. A value that is
not given has none. -/
def merged (v : Value) : Except Error Prefixes :=
  match v with
  | .mapping entries => .ok (default.overlay (entries.map fun e => (e.1.plain, e.2.plain)))
  | v => if v.isGiven then .error (.withoutEntries v.typeName) else .ok default

/-- The known prefixes with those of a setting, which has to be a mapping if it is there. -/
def ofValue (v : Value) : Except Error Prefixes :=
  match v with
  | .null | .mapping _ => merged v
  | v => .error (.configuration (.prefixesNotMapping v.typeName))

end Prefixes

/-- A setting for the function that replaces terms. -/
inductive ReplacementSetting
  | absent
  | function (f : Replacement)
  | notApplicable

def Value.resource? : Value → Option Resource
  | .term t => t.resource?
  | _ => none

namespace Session

/-- The session with the given parts, if the setting for the replacement is of use. -/
def ofSettings (subject : Resource) (graph : Option Resource) (prefixes : Prefixes) :
    ReplacementSetting → Except Error Session
  | .absent => .ok ⟨subject, graph, prefixes, none⟩
  | .function f => .ok ⟨subject, graph, prefixes, some f⟩
  | .notApplicable => .error (.configuration .replacementNotApplicable)

/-- The graph that a value names; null names none. -/
def graphOf : Value → Except Error (Option Resource)
  | .null => .ok none
  | v =>
    match v.resource? with
    | some g => .ok (some g)
    | none => .error (.configuration (.graphNotResource v))

/-- The session with the given settings, which are checked in turn. -/
def ofValues (subject graph prefixes : Value) (replacement : ReplacementSetting) :
    Except Error Session :=
  match subject.resource? with
  | none => .error (.configuration (.subjectNotResource subject))
  | some s => do
    let g ← graphOf graph
    let p ← Prefixes.ofValue prefixes
    ofSettings s g p replacement

/-- What references are relative to: the subject, unless it is a blank node. -/
def base (s : Session) : Text :=
  match s.subject with
  | .iri t => t
  | .blank _ => []

/-- The IRI of a reference. -/
def absolute (s : Session) (reference : Text) : Except Uri.Fault Text := Uri.join s.base reference

/-- The text of a token after the sign of a blank node. -/
def blankLabel? (token : Text) : Option Text := Text.after? "_:" token

/-- The IRI of a token that starts with a known prefix. What follows the colon must not start with
a slash, so that the prefix cannot hide a URI scheme. -/
def prefixed? (s : Session) (token : Text) : Option Text := do
  let (name, rest) ← Text.cut? ':' token
  if rest.head? = some '/' then none else (s.prefixes.find? name).map (· ++ rest)

/-- The resource that a token of a key names: a blank node, an IRI with a known prefix or else a
reference. -/
def locate (s : Session) (token : Text) : Except Uri.Fault Resource :=
  match blankLabel? token with
  | some label => .ok (.blank label)
  | none =>
    match s.prefixed? token with
    | some t => .ok (.iri t)
    | none => (s.absolute token).map .iri

/-- The resource that a token names, if it names one. -/
def resolve? (s : Session) (token : Text) : Option Resource := (s.locate token).toOption

def resolve (s : Session) (token : Text) : Except Error Resource :=
  (s.locate token).mapError fun fault => .value (.malformedAuthority fault)

section

variable {s : Session} {token : Text} {r : Resource}

theorem resolve?_eq_some_iff : s.resolve? token = some r ↔ s.locate token = .ok r := by
  rw [resolve?]
  cases s.locate token with
  | error fault => simp [Except.toOption]
  | ok u => simp [Except.toOption]

theorem resolve_eq_ok_iff : s.resolve token = .ok r ↔ s.resolve? token = some r := by
  rw [resolve, resolve?_eq_some_iff]
  cases s.locate token with
  | error fault =>
    show Except.error _ = _ ↔ _
    simp
  | ok u =>
    show Except.ok _ = _ ↔ _
    simp

theorem resolve_eq_error_iff {e : Error} : s.resolve token = .error e ↔
    ∃ fault, s.locate token = .error fault ∧ e = .value (.malformedAuthority fault) := by
  rw [resolve]
  cases s.locate token with
  | error fault =>
    show Except.error _ = _ ↔ _
    simp [eq_comm]
  | ok u =>
    show Except.ok _ = _ ↔ _
    simp

end

def datatype (s : Session) (token : Text) : Except Error Text :=
  if token.isEmpty then .error (.datatype .missing)
  else do
    match ← s.resolve token with
    | .iri t => .ok t
    | .blank _ => .error (.datatype (.notIri token))

/-- The term of a value before it is replaced; a resource needs a value that is not empty. -/
def term (s : Session) (value : Text) : Designator → Except Error (Option Term)
  | .resource =>
    if value.isEmpty then .ok none else (s.resolve value).map fun r => some r.toTerm
  | .blank =>
    .ok (if value.isEmpty then none else some (.blank ((blankLabel? value).getD value)))
  | .literal => .ok (some (.literal (.plain value)))
  | .language tag =>
    match Literal.tagged? value tag with
    | some l => .ok (some (.literal l))
    | none => .error (.value (.badLanguageTag tag))
  | .datatype token => (s.datatype token).map fun d => some (.literal (.typed value d))

/-- The term that a value becomes under a designator, if it becomes one. -/
def coerce (s : Session) (value : Text) (d : Designator) : Except Error (Option Term) := do
  match ← s.term value d, s.replacement with
  | some t, some f => f t
  | t, _ => .ok t

end Session

end FormEdits
