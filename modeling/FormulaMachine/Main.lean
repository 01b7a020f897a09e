import FormulaMachine.CommandLine.Command

namespace FormulaMachine.CommandLine

def fileError : IO.Error → FileError
  | .noFileOrDirectory .. => .missing
  | .inappropriateType _ 20 _ => .notDirectory
  | .inappropriateType _ 21 _ => .isDirectory
  | .invalidArgument _ 36 _ => .nameTooLong
  | e => .other (toString e)

def readFiles (paths : List String) : IO (List (String × Except FileError String)) :=
  paths.mapM fun (path : String) => do
    try
      return (path, .ok (← IO.FS.readFile path))
    catch e => return (path, .error (fileError e))

def surroundings (c : Command) : IO Surroundings := do
  let files ← readFiles c.files
  let input ← if c.readsInput then (← IO.getStdin).readToEnd else pure ""
  return ⟨fun path => (files.lookup path).getD (.error .missing), input⟩

def runCommand (c : Command) : IO UInt32 := do
  let output := c.execute (← surroundings c)
  IO.print output.text
  match output.error with
  | some e =>
      IO.eprintln s!"error: {e}"
      return 1
  | none => return 0

end FormulaMachine.CommandLine

open FormulaMachine.CommandLine in
def main (args : List String) : IO UInt32 := do
  match Command.read false args with
  | .error .usage =>
      IO.eprintln "usage: (translate | inspect | run) [EXPR] [OPTIONS]"
      return 2
  | .error (.badValue message) =>
      IO.eprintln s!"error: {message}"
      return 2
  | .ok c => runCommand c
