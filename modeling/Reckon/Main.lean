import Reckon.Console
/-! The command line. -/
namespace Reckon.CommandLine

def readEnvironment : IO (String → Option String) := do
  let bindings ← Settings.fieldNames.mapM fun field => do
    let name := Settings.variableName field
    return (name, ← IO.getEnv name)
  return fun name => (bindings.lookup name).join

def readInput (arguments : List String) : IO String := do
  if (Console.expressionOf? arguments).isSome then return ""
  let output ← IO.getStdout
  output.putStr Console.prompt
  output.flush
  (← IO.getStdin).getLine

def run (arguments : List String) : IO UInt32 := do
  let environment ← readEnvironment
  if let .error issues := Settings.ofEnvironment environment then
    IO.eprint (Console.Failure.settings issues).message
    return 1
  let console := Console.run environment arguments (← readInput arguments)
  IO.eprint console.errors
  IO.print (console.answerText arguments)
  match console.exit with
  | .ok code => return code.toUInt32
  | .error failure =>
    IO.eprint failure.message
    return 1

end Reckon.CommandLine

def main (arguments : List String) : IO UInt32 := Reckon.CommandLine.run arguments
