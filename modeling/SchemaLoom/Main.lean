import SchemaLoom.Command.Run

set_option autoImplicit false

/-! # The program

The command line over the files of the machine. All that is decided is decided elsewhere; this
module only reads, writes and prints.
-/

namespace SchemaLoom.Command

/-- A failure of the machine. -/
def machineError (isDirectory : Bool) (e : IO.Error) : FileError :=
  match e with
  | .noFileOrDirectory _ _ _ => .notFound
  | .alreadyExists _ _ _ => .alreadyExists
  | _ => if isDirectory then .isDirectory else .other (toString e)

/-- What a path of the machine leads to. -/
def machineKind? (path : String) : IO (Option FileKind) := do
  let place := (← IO.currentDir) / path
  if path = "" then return none
  else if ← place.isDir then return some .directory
  else if ← place.pathExists then return some .file
  else return none

/-- Carries out an action on a path and turns an exception into a failure. -/
def attempt {α : Type} (path : String) (action : IO α) : IO (Except FileError α) := do
  let isDirectory := (← machineKind? path) = some .directory
  try
    return .ok (← action)
  catch e =>
    return .error (machineError isDirectory e)

/-- The files of the machine. -/
def machine : FileSystem IO where
  read path := attempt path (IO.FS.readFile path)
  kind? := machineKind?
  names path := do
    let entries ← ((← IO.currentDir) / path).readDir
    return (entries.toList.map fun entry => entry.fileName).foldr FileTree.insertName []
  createDirectories path := attempt path (IO.FS.createDirAll path)
  write path content := attempt path (IO.FS.writeFile path content)

/-- How to call the program. -/
def usage : String :=
  "usage: schema-loom [-v] baml|tools|ir|plan -i PATH... [--json-pointer POINTER]"
    ++ " [--root-class NAME] [--tools] [--config PATH] [--selection] [--dedupe] [-o PATH]"

/-- Prints a failure, the outermost circumstance first. -/
def printFailure (failure : Failure) : IO Unit := do
  match failure.chain with
  | [] => return ()
  | first :: causes =>
      IO.eprintln s!"Error: {first}"
      for cause in causes do
        IO.eprintln s!"  caused by: {cause}"

end SchemaLoom.Command

open SchemaLoom.Command in
/-- Reads the command line, carries it out and reports how it ended. -/
def main (arguments : List String) : IO UInt32 := do
  match ← runLine machine arguments with
  | .error refusal =>
      if refusal = .shown then IO.println usage else IO.eprintln usage
      return refusal.exitCode.toUInt32
  | .ok outcome =>
      for text in outcome.warningLines do
        IO.eprintln text
      IO.print outcome.output
      if let some failure := outcome.failure? then printFailure failure
      return outcome.exitCode.toUInt32
