import FormEdits.Command.Arguments
import FormEdits.Command.Help
import FormEdits.Edit.QuadLines
import FormEdits.Edit.Report
import FormEdits.Edit.Sparql
import FormEdits.Form.Encoded
import FormEdits.Settings.Basic
import FormEdits.Submission

/-! # Running the command

The command reads settings and a form, and prints the edits of the form. Arguments come before the
environment, and the environment before the settings. Faults of the input end with code 1 and a
message, faults of the arguments with code 2. -/

namespace FormEdits

/-- What a run has to do with: files, the environment and the standard input. -/
structure Surroundings where
  files : FileReader
  environment : Environment
  standardInput : Text

/-- How a run ends. An error that is not a fault of the input has no code. -/
inductive Ending
  | exit (code : Nat) (output errors : Text)
  | failure (e : Error)

namespace Command

def name : Text := "rdfkv"

def version : Text := "0.1.0"

/-- The binding that the value of a prefix option makes. -/
def prefixOption (t : Text) : Except Error (Text × Text) :=
  match Text.cut? '=' t with
  | some (name, iri) =>
    if name.isEmpty || iri.isEmpty then .error (.configuration (.malformedPrefixOption t))
    else .ok (name, iri)
  | none => .error (.configuration (.malformedPrefixOption t))

/-- The bindings of prefix options; the last one of a name counts. -/
def prefixOptions (values : List Text) : Except Error Prefixes :=
  (values.mapM prefixOption).map Assoc.ofEntries

/-- Checks the level of logging that the arguments give, if they give one. -/
def checkLogLevel (a : Arguments) : Except Error Unit :=
  match a.logLevel.filter (!·.isEmpty) with
  | none => .ok ()
  | some level =>
    if Settings.logLevels.contains level.upper then .ok ()
    else .error (.configuration (.unknownLogLevel level))

def session (a : Arguments) (w : Surroundings) : Except Error Session := do
  let env := w.environment
  let settings ← Settings.ofPath w.files a.config
  settings.validate env
  checkLogLevel a
  let known ← settings.prefixes env
  let more ← prefixOptions a.prefixes
  let settings ← settings.withPrefixes (known.overlay more)
  settings.session env a.subject a.graph .absent

/-! ### The form -/

/-- A text with line feeds for all ends of lines. -/
def unifyLines : Text → Text
  | [] => []
  | '\r' :: '\n' :: r => '\n' :: unifyLines r
  | c :: r => (if c = '\r' then '\n' else c) :: unifyLines r

/-- The text of the form, from the standard input or from a file. -/
def inputText (a : Arguments) (w : Surroundings) : Except Error Text :=
  if a.input = "-" then .ok w.standardInput
  else
    match w.files a.input with
    | .ok t => .ok (unifyLines t)
    | .error fault => .error (.configuration (.formNotRead fault.message))

/-- The form that a JSON document writes. -/
def formOfDocument (document : Text) : Except Error Submission :=
  match Json.read document with
  | .ok (.mapping es) => .ok (.value (.mapping es))
  | .ok _ => .error (.configuration .formNotObject)
  | .error (.malformed problem left) =>
    .error (.configuration (.formNotRead (Json.place document problem left)))
  | .error (.tooManyDigits count) => .error (.value (.tooManyDigits count))

/-- The form that a run reads: the encoded one of the arguments, or a JSON document. -/
def form (a : Arguments) (w : Surroundings) : Except Error Submission :=
  match a.form with
  | some t => .ok (.ofFields (Encoded.read t))
  | none => do formOfDocument (← inputText a w)

/-! ### The edits -/

/-- Edits in a format; lines of quads are for the inserts alone. -/
def format (edits : EditSet) : Format → Except Error Text
  | .sparql => edits.sparql
  | .json => edits.report.map Report.text
  | .nquads => edits.insertLines.map fun ls => ls.flatMap (· ++ ['\n']) ++ ['\n']

def edits (a : Arguments) (w : Surroundings) (supply : Supply) : Except Error EditSet := do
  let s ← session a w
  let f ← form a w
  (s.submit f supply).edits

def ending (e : Error) : Ending :=
  if e.isReported then .exit 1 [] ("Error: " ++ e.message ++ "\n") else .failure e

/-- Runs the command as its arguments ask. Only what is wrong before the edits are
printed counts as a fault of the input. -/
def perform (a : Arguments) (w : Surroundings) (supply : Supply) : Ending :=
  match edits a w supply with
  | .error e => ending e
  | .ok edits =>
    match format edits a.format with
    | .ok t => .exit 0 (t ++ "\n") []
    | .error e => .failure e

/-- The ending for arguments that are read already. -/
def answer (request : Except UsageFault Arguments.Request) (w : Surroundings) (supply : Supply) :
    Ending :=
  match request with
  | .error fault => .exit 2 [] (name ++ ": error: " ++ fault.message ++ "\n")
  | .ok .showHelp => .exit 0 help []
  | .ok .showVersion => .exit 0 (name ++ " " ++ version ++ "\n") []
  | .ok (.run a) => perform a w supply

def run (arguments : List Text) (w : Surroundings) (supply : Supply) : Ending :=
  answer (Arguments.read arguments) w supply

/-! ### What a run reads -/

/-- Whether a run reads the standard input. -/
def readsStandardInput (a : Arguments) : Bool := a.form.isNone && a.input = "-"

/-- The paths of the files that a run reads. -/
def paths (a : Arguments) : List Text :=
  (a.config.map Path.simplify).toList
    ++ (if a.form.isSome || a.input = "-" then [] else [a.input])

end Command

end FormEdits
