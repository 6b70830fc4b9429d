import FormEdits.Json.Read
import FormEdits.Path
import FormEdits.Session.Basic
import FormEdits.Text.Upper

/-! # Settings

Settings come from a document with two sections: `processor` has the subject, the graph and the
prefixes of new sessions, and `app` the level of logging. Three of them may be overridden from the
environment. What the document says is checked when it is used, so that settings can be read in full
before they are found wrong. -/

namespace FormEdits

/-- The overrides that the environment gives; an empty one counts. -/
structure Environment where
  subject : Option Text
  graph : Option Text
  logLevel : Option Text
deriving DecidableEq, Repr

/-- The names of settings with their values. -/
abbrev Section := Assoc Text Value

/-- A document, and the path of the file that it is from. -/
structure Settings where
  path : Option Text
  document : Section

namespace Settings

/-- Settings that say nothing. -/
def empty : Settings := ⟨none, []⟩

/-! ### Reading -/

/-- The value of a document; a document of blanks has none. -/
def readDocument (t : Text) : Except Error Value :=
  if t.all isBlank then .ok .null
  else
    match Json.read t with
    | .ok v => .ok v
    | .error (.malformed _ _) => .error (.configuration .documentNotParsed)
    | .error (.tooManyDigits count) => .error (.value (.tooManyDigits count))

/-- The entries of a mapping whose keys are texts. -/
def entries (es : List (Value × Value)) : Section :=
  es.filterMap fun
    | (.text name, v) => some (name, v)
    | _ => none

/-- The settings in the file at a path. -/
def load (files : FileReader) (path : Text) : Except Error Settings :=
  let simple := Path.simplify path
  match files simple with
  | .error (.directory _) => .error (.configuration (.fileNotRead (.directory simple)))
  | .error _ => .error (.configuration (.fileNotFound path))
  | .ok t => do
    let v ← readDocument t
    if !v.isGiven then .ok ⟨some simple, []⟩
    else
      match v with
      | .mapping es => .ok ⟨some simple, entries es⟩
      | _ => .error (.configuration (.documentNotMapping path))

/-- The settings in the file at a path, or those that say nothing. -/
def ofPath (files : FileReader) : Option Text → Except Error Settings
  | some path => load files path
  | none => .ok empty

/-! ### Sections -/

/-- The section with a name; one that is not given is empty. -/
def section? (s : Settings) (name : Text) : Except Error Section :=
  match (s.document.find? name).filter Value.isGiven with
  | none => .ok []
  | some (.mapping es) => .ok (entries es)
  | some v => .error (.sectionNotMapping v.typeName)

/-- A section with an entry that the environment may override. -/
def override (name : Text) (value : Option Text) (sec : Section) : Section :=
  match value with
  | some t => sec.insert name (.text t)
  | none => sec

/-- The section for new sessions. -/
def processor (s : Settings) (env : Environment) : Except Error Section := do
  let sec ← s.section? "processor"
  let defaults : Section := [("subject", .null), ("graph", .null), ("prefixes", .mapping [])]
  .ok (override "graph" env.graph (override "subject" env.subject (defaults.overlay sec)))

/-- The section for the program itself. -/
def app (s : Settings) (env : Environment) : Except Error Section := do
  let sec ← s.section? "app"
  let defaults : Section := [("log_level", .text "INFO")]
  .ok (override "log_level" env.logLevel (defaults.overlay sec))

/-- A setting of a section, if it is given. -/
def given? (sec : Section) (name : Text) : Option Value := (sec.find? name).filter Value.isGiven

/-- The prefixes, with their names and values as texts. -/
def prefixes (s : Settings) (env : Environment) : Except Error Prefixes := do
  match given? (← s.processor env) "prefixes" with
  | none => .ok []
  | some (.mapping es) => .ok (Assoc.ofEntries (es.map fun e => (e.1.plain, e.2.plain)))
  | some _ => .error (.configuration .prefixSettingNotMapping)

/-- The level of logging, in upper case. -/
def logLevel (s : Settings) (env : Environment) : Except Error Text := do
  .ok (Text.upper (((← s.app env).find? "log_level").getD .null).plain)

def logLevels : List Text :=
  ["CRITICAL", "FATAL", "ERROR", "WARN", "WARNING", "INFO", "DEBUG", "NOTSET"]

def validate (s : Settings) (env : Environment) : Except Error Unit := do
  let _ ← s.prefixes env
  let level ← s.logLevel env
  if logLevels.contains level then .ok () else .error (.configuration (.unknownLogLevel level))

def withPrefixes (s : Settings) (p : Prefixes) : Except Error Settings := do
  let sec ← s.section? "processor"
  let value : Value := .mapping (p.map fun e => (.text e.1, .text e.2))
  .ok { s with
    document := s.document.insert "processor"
      (.mapping ((sec.insert "prefixes" value).map fun e => (.text e.1, e.2))) }

/-! ### New sessions -/

/-- The resource that a setting names: a blank node after its sign, else the IRI as it stands. -/
def resource (t : Text) : Resource :=
  match Session.blankLabel? t with
  | some label => .blank label
  | none => .iri t

/-- The text of a setting that is given, where an argument that is not empty comes first. -/
def choose (argument : Option Text) (sec : Section) (name : Text) : Option Text :=
  (argument.filter (!·.isEmpty)).or ((given? sec name).map Value.plain)

/-- A new session, whose subject and graph may be given as arguments. -/
def session (s : Settings) (env : Environment) (subject graph : Option Text)
    (replacement : ReplacementSetting) : Except Error Session := do
  let sec ← s.processor env
  match choose subject sec "subject" with
  | none => .error (.configuration .missingSubject)
  | some subject =>
    let prefixes ← s.prefixes env
    Session.ofSettings (resource subject) ((choose graph sec "graph").map resource)
      (Prefixes.default.overlay prefixes) replacement

/-- The file and the sections of the settings, on one line. -/
def text (s : Settings) : Text :=
  "RDFKVConfig(path=" ++ s.path.getD "None" ++ ", sections="
    ++ Value.quoted (.list (s.document.keys.map .text)) ++ ")"

end Settings

end FormEdits
