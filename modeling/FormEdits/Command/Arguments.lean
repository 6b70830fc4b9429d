import FormEdits.Text.Digit
import FormEdits.Text.Quoted

/-! # Arguments of the command

An argument that begins with a hyphen is an option, unless it is a hyphen alone, a negative number
or holds a space; the others are inputs. An option takes its value after a `=`, directly after its
letter, or from the next argument. Long options may be cut short to anything that only one of them
begins with. After `--` all arguments are inputs, and of these there may be one. -/

namespace FormEdits

/-- The forms in which edits are printed. -/
inductive Format
  | sparql
  | json
  | nquads
deriving DecidableEq, Repr

namespace Format

def all : List Format := [sparql, json, nquads]

def name : Format → Text
  | sparql => "sparql"
  | json => "json"
  | nquads => "nquads"

def ofName? (name : Text) : Option Format := all.find? (·.name = name)

end Format

/-- What the arguments ask for. -/
structure Arguments where
  input : Text
  form : Option Text
  subject : Option Text
  graph : Option Text
  prefixes : List Text
  config : Option Text
  format : Format
  logLevel : Option Text
deriving DecidableEq, Repr

/-- Why arguments are refused. -/
inductive UsageFault
  | ambiguous (given : Text) (options : List Text)
  | noValue (option : Text)
  | uselessValue (option value : Text)
  | badFormat (option value : Text)
  | unrecognized (arguments : List Text)
deriving DecidableEq, Repr

/-- The options of the command. -/
inductive CommandOption
  | help
  | form
  | subject
  | graph
  | prefixes
  | config
  | format
  | logLevel
  | version
deriving DecidableEq, Repr

namespace CommandOption

/-- The spellings of each option, in the order in which they are listed. -/
def spellings : List (Text × CommandOption) :=
  [("-h", help), ("--help", help), ("--form", form), ("--subject", subject), ("-s", subject),
    ("--graph", graph), ("-g", graph), ("--prefix", prefixes), ("-P", prefixes),
    ("--config", config), ("-c", config), ("--format", format), ("-f", format),
    ("--log-level", logLevel), ("--version", version)]

/-- All spellings of an option, as messages show it. -/
def label (o : CommandOption) : Text :=
  ['/'].intercalate ((spellings.filter (·.2 = o)).map Prod.fst)

def takesValue (o : CommandOption) : Bool := o ≠ help && o ≠ version

end CommandOption

namespace UsageFault

def message : UsageFault → Text
  | ambiguous given options =>
    "ambiguous option: " ++ given ++ " could match " ++ List.intercalate ", " options
  | noValue option => "argument " ++ option ++ ": expected one argument"
  | uselessValue option value =>
    "argument " ++ option ++ ": ignored explicit argument " ++ value.quoted
  | badFormat option value =>
    "argument " ++ option ++ ": invalid choice: " ++ value.quoted ++ " (choose from "
      ++ List.intercalate ", " (Format.all.map fun f => f.name.quoted) ++ ")"
  | unrecognized arguments => "unrecognized arguments: " ++ List.intercalate " " arguments

end UsageFault

namespace Arguments

/-- What the command does if it is given no argument. -/
def default : Arguments := ⟨"-", none, none, none, [], none, .sparql, none⟩

/-! ### Telling options from inputs -/

/-- An argument by its form. `joined` says that the value follows the letter of an option without a
`=` between them. -/
inductive Word
  | input (t : Text)
  | separator
  | unknown (t : Text)
  | option (o : CommandOption) (joined : Bool) (value : Option Text)
deriving DecidableEq, Repr

/-- Whether an argument is a negative number: digits, perhaps with a point before the last ones. A
final line feed does not count. -/
def isNegativeNumber (t : Text) : Bool :=
  let isDigit (c : Char) : Bool := (digitValue? c).isSome
  match Text.dropFinalLineFeed t with
  | '-' :: r =>
    match Text.cut? '.' r with
    | none => !r.isEmpty && r.all isDigit
    | some (whole, decimals) => whole.all isDigit && !decimals.isEmpty && decimals.all isDigit
  | _ => false

/-- The options that an argument may mean which is not the full spelling of one, with their
spellings and values: long ones by what they begin with, and short ones by their letter. -/
def matching (t : Text) : List (Text × Word) :=
  if (t.drop 1).head? = some '-' then
    let (start, value) : Text × Option Text :=
      match Text.cut? '=' t with
      | some (start, value) => (start, some value)
      | none => (t, none)
    (CommandOption.spellings.filter fun s => start.isPrefixOf s.1).map fun s =>
      (s.1, .option s.2 false value)
  else
    (CommandOption.spellings.filter fun s => s.1 = t.take 2).map fun s =>
      (s.1, .option s.2 true (some (t.drop 2)))

/-- The option that an argument spells in full. -/
def spelled? (t : Text) (value : Option Text) : Option Word :=
  (CommandOption.spellings.lookup t).map fun o => .option o false value

/-- What an argument before any `--` is. -/
def word (t : Text) : Except UsageFault Word :=
  if t.head? ≠ some '-' || t.length = 1 then .ok (.input t)
  else
    match (spelled? t none).or ((Text.cut? '=' t).bind fun s => spelled? s.1 (some s.2)) with
    | some w => .ok w
    | none =>
      match matching t with
      | [(_, w)] => .ok w
      | [] => .ok (if isNegativeNumber t || t.contains ' ' then .input t else .unknown t)
      | several => .error (.ambiguous t (several.map Prod.fst))

/-- What each of the arguments is. -/
def readWords : List Text → Except UsageFault (List Word)
  | [] => .ok []
  | t :: ts =>
    if t = "--" then .ok (.separator :: ts.map .input)
    else do
      let w ← word t
      let ws ← readWords ts
      .ok (w :: ws)

/-! ### Taking the words one by one -/

/-- What the command is asked to do. -/
inductive Request
  | run (a : Arguments)
  | showHelp
  | showVersion
deriving DecidableEq, Repr

/-- Sets an option that takes a value. -/
def set (a : Arguments) (value : Text) : CommandOption → Except UsageFault Arguments
  | .help | .version => .ok a
  | .form => .ok { a with form := some value }
  | .subject => .ok { a with subject := some value }
  | .graph => .ok { a with graph := some value }
  | .prefixes => .ok { a with prefixes := a.prefixes ++ [value] }
  | .config => .ok { a with config := some value }
  | .logLevel => .ok { a with logLevel := some value }
  | .format =>
    match Format.ofName? value with
    | some f => .ok { a with format := f }
    | none => .error (.badFormat CommandOption.format.label value)

/-- What a request for help asks for when other letters follow in the same argument: a letter that
is an option may need the next word as its value, and one that is none does not matter. -/
def helpWith : (letters : Text) → (next : List Word) → Except UsageFault Request
  | [], _ => .ok .showHelp
  | c :: r, next =>
    if c = '-' then .error (.uselessValue CommandOption.help.label (c :: r))
    else
      match CommandOption.spellings.lookup ['-', c], next with
      | none, _ => .ok .showHelp
      | some .help, _ => helpWith r next
      | some _, .input _ :: _ => .ok .showHelp
      | some o, _ => if r.isEmpty then .error (.noValue o.label) else .ok .showHelp

/-- Takes the words in turn. `taken` says that an input has been taken; `extras` are the arguments
so far that nothing is known of. -/
def take (a : Arguments) (taken : Bool) (extras : List Text) :
    List Word → Except UsageFault Request
  | [] => if extras.isEmpty then .ok (.run a) else .error (.unrecognized extras)
  | .input t :: .separator :: ws =>
    if taken then take a taken (extras ++ ([t, "--"] : List Text)) ws
    else take { a with input := t } true extras ws
  | .input t :: ws =>
    if taken then take a taken (extras ++ [t]) ws else take { a with input := t } true extras ws
  | .separator :: ws => take a taken (if taken then extras ++ (["--"] : List Text) else extras) ws
  | .unknown t :: ws => take a taken (extras ++ [t]) ws
  | .option o joined value :: ws =>
    if o.takesValue then
      match value, ws with
      | some v, ws => do take (← a.set v o) taken extras ws
      | none, .input v :: ws => do take (← a.set v o) taken extras ws
      | none, _ => .error (.noValue o.label)
    else
      match value with
      | none => .ok (if o = .help then .showHelp else .showVersion)
      | some v =>
        if joined && !v.isEmpty then helpWith v ws else .error (.uselessValue o.label v)

/-- What a list of arguments asks for. -/
def read (arguments : List Text) : Except UsageFault Request := do
  let words ← readWords arguments
  take default false [] words

end Arguments

end FormEdits
