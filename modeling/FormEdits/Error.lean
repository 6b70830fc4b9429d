import FormEdits.Form.Value
import FormEdits.Text.Utf8
import FormEdits.Uri.Authority

/-! # Errors

Every way in which a submission, a setting or a file is refused, as a cause with its data. The
wording is in `message` alone. The errors that `isReported` holds of are the ones that a user can
mend; the command line shows their message. -/

namespace FormEdits

inductive FileFault
  | missing (path : Text)
  | directory (path : Text)
  | notDirectory (path : Text)
deriving DecidableEq, Repr

/-- Settings and inputs that are refused as they are given. -/
inductive ConfigurationFault
  | subjectNotResource (got : Value)
  | graphNotResource (got : Value)
  | prefixesNotMapping (type : Text)
  | replacementNotApplicable
  | formNotMapping (type : Text)
  | fileNotFound (path : Text)
  | fileNotRead (fault : FileFault)
  | documentNotParsed
  | documentNotMapping (path : Text)
  | prefixSettingNotMapping
  | unknownLogLevel (level : Text)
  | missingSubject
  | malformedPrefixOption (got : Text)
  | formNotRead (reason : Text)
  | formNotObject

/-- Why a special name did not change the session. -/
inductive SpecialFault
  | emptyValue
  | notPrefixLine (got : Text)
  | malformedAuthority (fault : Uri.Fault)
deriving DecidableEq, Repr

inductive DatatypeFault
  | missing
  | notIri (token : Text)
deriving DecidableEq, Repr

/-- Texts that cannot be taken as the value they stand for. -/
inductive ValueFault
  | malformedAuthority (fault : Uri.Fault)
  | badLanguageTag (tag : Text)
  | refused (reason : Text)
  | notModifier (char : Char)
  | notGenerated (name : Text)
  | notOperation (name : Text)
  | tooManyDigits (count : Nat)
deriving DecidableEq, Repr

inductive Error
  | configuration (fault : ConfigurationFault)
  | selfReference (name : Text)
  | cycle (names : List Text)
  | special (name : Text) (fault : SpecialFault)
  | datatype (fault : DatatypeFault)
  | value (fault : ValueFault)
  | undecodable (fault : Utf8.Fault)
  | unbound (name : Text)
  | sectionNotMapping (type : Text)
  | withoutEntries (type : Text)
  | unwritable (iri : Text)
  | missingTerm
  | wildcardInsert (place : Text)

namespace FileFault

def message : FileFault → Text
  | missing path => "[Errno 2] No such file or directory: " ++ path.quoted
  | directory path => "[Errno 21] Is a directory: " ++ path.quoted
  | notDirectory path => "[Errno 20] Not a directory: " ++ path.quoted

end FileFault

namespace ConfigurationFault

def message : ConfigurationFault → Text
  | subjectNotResource got => "Subject must be a URIRef or BNode, got " ++ got.quoted
  | graphNotResource got => "Graph must be a URIRef or BNode, got " ++ got.quoted
  | prefixesNotMapping type => "Prefixes must be a mapping, got " ++ type
  | replacementNotApplicable => "Callback must be callable"
  | formNotMapping type => "Form input must be a mapping, got " ++ type
  | fileNotFound path => "Configuration file not found: " ++ path
  | fileNotRead fault => "Error loading configuration file: " ++ fault.message
  | documentNotParsed => "Error parsing YAML configuration"
  | documentNotMapping path => "Configuration must be a mapping: " ++ path
  | prefixSettingNotMapping => "processor.prefixes must be a mapping"
  | unknownLogLevel level => "Invalid log level: " ++ level
  | missingSubject => "Missing required processor configuration: subject"
  | malformedPrefixOption got => "Expected NAME=URI for --prefix, got " ++ got.quoted
  | formNotRead reason => "Could not read form input: " ++ reason
  | formNotObject => "Form input must be a JSON object"

end ConfigurationFault

namespace Uri.Fault

def message : Uri.Fault → Text
  | unbalancedBrackets => "Invalid IPv6 URL"
  | badFutureAddress => "IPvFuture address is invalid"
  | bracketedIpv4 => "An IPv4 address cannot be in brackets"
  | notAddress host => host.quoted ++ " does not appear to be an IPv4 or IPv6 address"
  | hiddenDelimiter authority =>
    "netloc '" ++ authority ++ "' contains invalid characters under NFKC normalization"

end Uri.Fault

namespace SpecialFault

def message : SpecialFault → Text
  | emptyValue => "empty value"
  | notPrefixLine got => "Expected 'name: uri', got " ++ got.quoted
  | malformedAuthority fault => fault.message

end SpecialFault

namespace DatatypeFault

def token : DatatypeFault → Text
  | missing => []
  | notIri token => token

def message : DatatypeFault → Text
  | missing => "Datatype designator has no datatype"
  | notIri token => "Datatype " ++ token.quoted ++ " does not resolve to a URI"

end DatatypeFault

namespace ValueFault

def message : ValueFault → Text
  | malformedAuthority fault => fault.message
  | badLanguageTag tag => "'" ++ tag ++ "' is not a valid language tag!"
  | refused reason => reason
  | notModifier char => Text.quoted [char] ++ " is not a valid Modifier"
  | notGenerated name => name.quoted ++ " is not a valid GeneratedMacro"
  | notOperation name => name.quoted ++ " is not a valid EditOperation"
  | tooManyDigits count =>
    "Exceeds the limit (4300 digits) for integer string conversion: value has "
      ++ Numeral.digits count ++ " digits; use sys.set_int_max_str_digits() to increase the limit"

end ValueFault

/-- Why bytes are not UTF-8, and where. -/
def Utf8.Fault.message (f : Utf8.Fault) : Text :=
  let reason : Text :=
    match f.flaw with
    | .invalidStart => "invalid start byte"
    | .invalidContinuation => "invalid continuation byte"
    | .unexpectedEnd => "unexpected end of data"
  let place : Text :=
    match f.bytes with
    | [b] =>
      "byte 0x" ++ Quoted.hex 2 b.toNat ++ " in position " ++ Numeral.digits f.position
    | bs =>
      "bytes in position " ++ Numeral.digits f.position ++ "-"
        ++ Numeral.digits (f.position + bs.length - 1)
  "'utf-8' codec can't decode " ++ place ++ ": " ++ reason

namespace Error

def message : Error → Text
  | configuration fault => fault.message
  | selfReference name => "Macro $" ++ name ++ " references itself"
  | cycle names =>
    "Macro dependency cycle: " ++ List.intercalate " -> " (names.map fun n => '$' :: n)
  | special name fault => "Could not apply $" ++ name ++ ": " ++ fault.message
  | datatype fault => fault.message
  | value fault => fault.message
  | undecodable fault => fault.message
  | unbound name => name.quoted
  | sectionNotMapping type => "'" ++ type ++ "' object is not a mapping"
  | withoutEntries type => "'" ++ type ++ "' object has no attribute 'items'"
  | unwritable iri =>
    "\"" ++ iri ++ "\" does not look like a valid URI, I cannot serialize this as N3/Turtle. "
      ++ "Perhaps you wanted to urlencode it?"
  | missingTerm => "'NoneType' object has no attribute 'n3'"
  | wildcardInsert place => place ++ " None must be an rdflib term"

/-- Whether the user is shown the error as a fault of the input. -/
def isReported : Error → Bool
  | configuration _ | selfReference _ | cycle _ | special _ _ | datatype _ => true
  | _ => false

end Error

end FormEdits
