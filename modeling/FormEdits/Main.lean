import FormEdits.Command.Run
import Std.Time.DateTime.Timestamp

/-! # The command

Reads the files and the standard input that the arguments ask for, takes identifiers and the time
from the system, and prints how the run ends. -/

namespace FormEdits

namespace Main

/-- The text of a file. A path through a file cannot be opened, a directory can but not be read. -/
def readText (path : Text) : IO (Except FileFault Text) := do
  try
    let t ← IO.FS.readFile (String.ofList path)
    return .ok t.toList
  catch
    | .noFileOrDirectory _ _ _ => return .error (.missing path)
    | .inappropriateType (some _) _ _ => return .error (.notDirectory path)
    | .inappropriateType none _ _ => return .error (.directory path)
    | e => throw e

/-- The number that bytes write, most significant first. -/
def numberOf (bytes : ByteArray) : Nat := bytes.foldl (fun n b => n * 256 + b.toNat) 0

/-- An odd constant whose multiples below `2 ^ 128` are all distinct, modulo that number. -/
def stride : Nat := 0x9E3779B97F4A7C15F39CC0605CEDC835

/-- Identifiers in strides from a random one, and the present time for all readings of the clock. -/
def systemSupply : IO Supply := do
  let first := numberOf (← IO.getRandomBytes 16)
  let now ← Std.Time.Timestamp.now
  let micros := now.toNanosecondsSinceUnixEpoch.val.toNat / 1000
  return .fresh (fun n => (first + n * stride) % Nat.pow 2 128) fun _ => micros

def environment : IO Environment := do
  let get (name : String) : IO (Option Text) := do
    return (← IO.getEnv name).map String.toList
  return ⟨← get "RDFKV_SUBJECT", ← get "RDFKV_GRAPH", ← get "RDFKV_LOG_LEVEL"⟩

/-- What a run with the given arguments has to do with. -/
def surroundings (a : Arguments) : IO Surroundings := do
  let files ← (Command.paths a).mapM fun p => do return (p, ← readText p)
  let standardInput ←
    if Command.readsStandardInput a then (← IO.getStdin).readToEnd else pure ""
  return {
    files := fun p => (files.lookup p).getD (.error (.missing p))
    environment := ← environment
    standardInput := standardInput.toList }

def print (ending : Ending) : IO UInt32 := do
  match ending with
  | .exit code output errors =>
    (← IO.getStdout).putStr (String.ofList output)
    (← IO.getStderr).putStr (String.ofList errors)
    return code.toUInt32
  | .failure e =>
    (← IO.getStderr).putStrLn (String.ofList e.message)
    return 1

def run (arguments : List String) : IO UInt32 := do
  let request := Arguments.read (arguments.map String.toList)
  let w ←
    match request with
    | .ok (.run a) => surroundings a
    | _ => pure ⟨fun p => .error (.missing p), ⟨none, none, none⟩, []⟩
  print (Command.answer request w (← systemSupply))

end Main

end FormEdits

def main (arguments : List String) : IO UInt32 :=
  FormEdits.Main.run arguments
