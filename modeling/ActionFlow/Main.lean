import ActionFlow.Command.Run

/-!
# The program

Reads the command line, asks for what is missing in the interactive mode, and runs the request on
the files of the system.
-/

namespace ActionFlow

/-- What the system says about an error with a file. -/
def systemText : IO.Error → String
  | .noFileOrDirectory .. => "No such file or directory (os error 2)"
  | .permissionDenied _ code _ => s!"Permission denied (os error {code})"
  | .inappropriateType _ code _ => s!"Is a directory (os error {code})"
  | e => toString e

/-- The surroundings of the program. -/
def systemConsole : Console IO where
  print text := do
    IO.print text
    (← IO.getStdout).flush
  load path := do
    try
      match String.fromUTF8? (← IO.FS.readBinFile path) with
      | some text => return .ok text
      | none => return .error "stream did not contain valid UTF-8"
    catch e => return .error (systemText e)
  save path text := do
    try
      IO.FS.writeFile path text
      return .ok ()
    catch e => return .error (systemText e)
  clock := IO.monoNanosNow

/-- Asks questions until the request is complete. -/
partial def converseWith (q : Question) : IO Request := do
  systemConsole.print q.text
  let line ← (← IO.getStdin).getLine
  match q.reply (q.answer line) with
  | (printed, .done r) =>
    systemConsole.print printed
    return r
  | (printed, .ask next) =>
    systemConsole.print printed
    converseWith next

/-- Ends the program with a message. -/
def endWith (message : String) : IO UInt32 := do
  IO.eprint (failureText message)
  return 1

/-- Runs a request on the files of the system. -/
def runRequest (r : Request) : IO UInt32 := do
  match ← (r.run systemConsole).run with
  | .ok () => return 0
  | .error message => endWith message

end ActionFlow

open ActionFlow in
/-- Compiles the activities of a package. -/
def main (args : List String) : IO UInt32 := do
  match Options.parse? args with
  | none =>
    IO.eprintln "usage: [PACKAGE] [-p explicit|inferred] [-a TEXT] [-o FILE] [-i]"
    return 2
  | some o =>
    match o.start with
    | .ask =>
      systemConsole.print Question.greeting
      runRequest (← converseWith .package)
    | .run r => runRequest r
    | .fail message => endWith message
