import SchemaLoom.Command.FileSystem
import SchemaLoom.Command.Pattern

set_option autoImplicit false

/-! # Paths that fit a pattern

A pattern is followed from the current directory down, component by component. A component
without wildcards is looked up; any other one is tried on every name in the directory, in
ascending order. The paths come in the order in which a directory stands before what is in it.
-/

namespace SchemaLoom.Command

/-- The current directory. -/
def currentDirectory : String := "."

/-- Whether a path is a way to write the current directory. -/
def isCurrent (path : String) : Bool :=
  (Path.pieces path).head? = some "." && (Path.names path).isEmpty

/-- A path below a directory; names in the current one stand alone. -/
def below (directory name : String) : String :=
  if isCurrent directory then name
  else if name = "" then
    if Path.endsWithSlash directory then directory else directory ++ "/"
  else Path.join directory name

/-- Whether a component stands for any number of directories. -/
def isAnyDirectories (component : List Glob) : Bool := component = [.anyDirectories]

/-- The components after those at the front that stand for any number of directories. -/
def afterAnyDirectories : List (List Glob) → List (List Glob)
  | [] => []
  | component :: rest =>
      if isAnyDirectories component then afterAnyDirectories rest else component :: rest

/-- The components from the last of those at the front that stand for any number of directories
on. -/
def fromLastAnyDirectories (components : List (List Glob)) : List (List Glob) :=
  [.anyDirectories] :: afterAnyDirectories components

/-- Whether a component starts with a point. -/
def startsWithPoint : List Glob → Bool
  | .char '.' :: _ => true
  | _ => false

/-- The steps that a component fits: to the directory itself and upwards. They fit only a component
that starts with a point. -/
def fittingSteps (component : List Glob) : List String :=
  if startsWithPoint component then
    ["..", "."].filter fun name => Glob.fitsAll component name.toList
  else []

/-- How many steps down a path can lead. No path is longer than this. -/
def depthLimit : Nat := 4096

variable {m : Type → Type} [Monad m]

/-- Collects the paths found for each name. -/
def collect (find : String → m (List String)) : List String → m (List String)
  | [] => return []
  | name :: rest => return (← find name) ++ (← collect find rest)

mutual

/-- The paths that fit components below a path. The first number bounds the steps. -/
def search (fs : FileSystem m) (directoriesOnly : Bool) :
    Nat → List (List Glob) → String → m (List String)
  | 0, _, _ => return []
  | _, [], _ => return []
  | steps + 1, component :: rest, path => do
      let isDirectory := (← fs.kind? path) = some .directory
      match Glob.literal? component with
      | some name =>
          let name := String.ofList name
          let next := below path name
          let isStep := name = "." || name = ".."
          let exists? := (← fs.kind? next).isSome
          if (isStep && isDirectory) || (!isStep && exists?) then
            found fs directoriesOnly steps rest next
          else return []
      | none =>
          if isDirectory then
            let atSteps ← collect
              (fun name => found fs directoriesOnly steps rest (Path.join path name))
              (fittingSteps component)
            let names ← fs.names path
            let children ← collect
              (fun name =>
                visit fs directoriesOnly steps (component :: rest) (below path name) name)
              names
            return atSteps ++ children
          else return []

/-- The paths that fit once a path is known to fit the components before. -/
def found (fs : FileSystem m) (directoriesOnly : Bool) :
    Nat → List (List Glob) → String → m (List String)
  | 0, _, _ => return []
  | _, [], path => do
      let isDirectory := (← fs.kind? path) = some .directory
      return if !directoriesOnly || isDirectory then [path] else []
  | steps + 1, rest, path => search fs directoriesOnly steps rest path

/-- The paths that fit components at a path of a given name. -/
def visit (fs : FileSystem m) (directoriesOnly : Bool) :
    Nat → List (List Glob) → String → String → m (List String)
  | 0, _, _, _ => return []
  | _, [], _, _ => return []
  | steps + 1, component :: rest, path, name => do
      let isDirectory := (← fs.kind? path) = some .directory
      if isAnyDirectories component then
        -- A directory may stand for itself and for what is in it.
        let inside ←
          if isDirectory then
            search fs directoriesOnly steps (fromLastAnyDirectories rest) path
          else pure []
        match afterAnyDirectories rest with
        | [] => return if isDirectory then path :: inside else []
        | next :: after =>
            let here ←
              if Glob.fitsAll next name.toList then found fs directoriesOnly steps after path
              else pure []
            return here ++ inside
      else if Glob.fitsAll component name.toList then
        found fs directoriesOnly steps rest path
      else return []

end

/-- The paths that fit a pattern. -/
def expand (fs : FileSystem m) (pattern : PathPattern) : m (List String) :=
  search fs pattern.directoriesOnly (3 * (depthLimit + pattern.components.length))
    pattern.components currentDirectory

end SchemaLoom.Command
