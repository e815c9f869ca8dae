import SchemaLoom.Command.Path
import SchemaLoom.Entries

set_option autoImplicit false

/-! # Files

A command reads and writes files through a `FileSystem`. Two kinds exist: that of the machine,
and `FileTree`, a tree of files held as a value, over which a command is a pure function.
-/

namespace SchemaLoom.Command

/-- Why a file operation fails. -/
inductive FileError where
  | notFound
  | alreadyExists
  | notDirectory
  | isDirectory
  | other (text : String)
  deriving DecidableEq, Repr

/-- The wording of a failure. -/
def FileError.message : FileError → String
  | notFound => "No such file or directory (os error 2)"
  | alreadyExists => "File exists (os error 17)"
  | notDirectory => "Not a directory (os error 20)"
  | isDirectory => "Is a directory (os error 21)"
  | other text => text

/-- What a path leads to. -/
inductive FileKind where
  | file
  | directory
  deriving DecidableEq, Repr

/-- The operations on files that a command needs. -/
structure FileSystem (m : Type → Type) where
  read : String → m (Except FileError String)
  kind? : String → m (Option FileKind)
  /-- The names in a directory, ascending. -/
  names : String → m (List String)
  createDirectories : String → m (Except FileError Unit)
  write : String → String → m (Except FileError Unit)

/-! ## Trees of files -/

/-- A file with its content, or a directory. -/
inductive FileNode where
  | file (content : String)
  | directory
  deriving DecidableEq, Repr

/-- Files and directories by the names that lead to them; the root is a directory. -/
structure FileTree where
  nodes : List (List String × FileNode) := []

namespace FileTree

/-- The node at a place. -/
def node? (t : FileTree) (place : List String) : Option FileNode :=
  if place.isEmpty then some .directory
  else (t.nodes.find? fun (other, _) => other = place).map Prod.snd

/-- The tree with a node at a place. -/
def put (t : FileTree) (place : List String) (node : FileNode) : FileTree :=
  if (t.node? place).isSome then
    ⟨t.nodes.map fun (other, old) => if other = place then (other, node) else (other, old)⟩
  else ⟨t.nodes ++ [(place, node)]⟩

/-- Where names lead: to a place of the tree, or out of it with some names left. -/
inductive Route where
  | inside (place : List String)
  | outside (rest : List String)
  deriving DecidableEq, Repr

/-- What a path leads to. -/
inductive Target where
  | file (place : List String) (content : String)
  | directory (place : List String)
  /-- A directory that is not in the tree. -/
  | outside
  deriving DecidableEq, Repr

/-- Follows names from a place. A step upwards leaves a directory, and the tree from its root. -/
def follow (t : FileTree) (place : List String) : List String → Except FileError Route
  | [] => .ok (.inside place)
  | name :: rest =>
      if name = ".." then
        if place.isEmpty then .ok (.outside rest) else t.follow place.dropLast rest
      else
        match t.node? (place ++ [name]) with
        | none => .error .notFound
        | some .directory => t.follow (place ++ [name]) rest
        | some (.file _) =>
            if rest.isEmpty then .ok (.inside (place ++ [name])) else .error .notDirectory

/-- The route of names on a path. -/
def route (t : FileTree) (path : String) (names : List String) : Except FileError Route :=
  if Path.isAbsolute path then .ok (.outside names) else t.follow [] names

/-- What a path leads to. Outside the tree nothing is known but the directories above it. -/
def locate (t : FileTree) (path : String) : Except FileError Target := do
  if path = "" then throw .notFound
  match ← t.route path (Path.names path) with
  | .outside rest => if rest.all (· = "..") then return .outside else throw .notFound
  | .inside place =>
      match t.node? place with
      | none => throw .notFound
      | some .directory => return .directory place
      | some (.file content) =>
          if Path.requiresDirectory path then throw .notDirectory else return .file place content

/-- The content of a file. -/
def read (t : FileTree) (path : String) : Except FileError String :=
  match t.locate path with
  | .ok (.file _ content) => .ok content
  | .ok (.directory _) | .ok .outside => .error .isDirectory
  | .error e => .error e

/-- What a path leads to. -/
def kind? (t : FileTree) (path : String) : Option FileKind :=
  match t.locate path with
  | .ok (.file _ _) => some .file
  | .ok (.directory _) | .ok .outside => some .directory
  | .error _ => none

/-- Puts a name into an ascending list. -/
def insertName (name : String) : List String → List String
  | [] => [name]
  | n :: rest => if name < n then name :: n :: rest else n :: insertName name rest

/-- The names in a directory, ascending. -/
def names (t : FileTree) (path : String) : List String :=
  match t.locate path with
  | .ok (.directory place) =>
      (t.nodes.filterMap fun (other, _) =>
        if other.dropLast = place then other.getLast? else none).foldr insertName []
  | _ => []

/-- Where a new node of a path would be, its directory being there; `none` outside the tree. -/
def vacancy? (t : FileTree) (path : String) : Except FileError (Option (List String)) := do
  if path = "" then throw .notFound
  let names := Path.names path
  match ← t.route path names.dropLast with
  | .outside _ => return none
  | .inside place =>
      match t.node? place, names.getLast? with
      | some .directory, some name =>
          if name = ".." then throw .alreadyExists else return some (place ++ [name])
      | some .directory, none => throw .alreadyExists
      | _, _ => throw .notDirectory

/-- Makes a directory. What is made outside the tree is not kept. -/
def makeDirectory (t : FileTree) (path : String) : Except FileError FileTree := do
  match ← t.vacancy? path with
  | none => return t
  | some place =>
      if (t.node? place).isSome then throw .alreadyExists else return t.put place .directory

/-- Makes a directory and those it lies in, as far as they are missing. The number bounds how many
they are. -/
def makeDirectories (t : FileTree) : Nat → String → Except FileError FileTree
  | 0, _ => .error .notFound
  | depth + 1, path =>
      if path = "" then .ok t
      else
        let attempt := fun (t : FileTree) =>
          match t.makeDirectory path with
          | .ok made => .ok made
          | .error e => if t.kind? path = some .directory then .ok t else .error e
        match t.makeDirectory path with
        | .error .notFound => do attempt (← t.makeDirectories depth (Path.parent path))
        | _ => attempt t

/-- Writes a file whose directory is there. A slash at the end asks for a directory, which cannot
be written. What is written outside the tree is not kept. -/
def write (t : FileTree) (path content : String) : Except FileError FileTree :=
  match t.locate path with
  | .ok (.directory _) | .ok .outside => .error .isDirectory
  | .ok (.file place _) => .ok (t.put place (.file content))
  | .error e =>
      if Path.endsWithStep path then .error e
      else do
        let place? ← t.vacancy? path
        if Path.endsWithSlash path then throw .isDirectory
        match place? with
        | none => return t
        | some place => return t.put place (.file content)

/-- Adds a file and the directories it lies in. -/
def addFile (t : FileTree) (path content : String) : FileTree :=
  let names := Path.names path
  let withDirectories := (List.range names.length).foldl
    (fun (t : FileTree) depth =>
      if (t.node? (names.take depth)).isSome then t else t.put (names.take depth) .directory) t
  withDirectories.put names (.file content)

/-- The tree of files given by their paths. -/
def ofFiles (files : Entries String) : FileTree :=
  files.foldl (fun t (path, content) => t.addFile path content) {}

/-- The files that are new or changed with respect to an earlier tree. -/
def changedSince (t earlier : FileTree) : Entries String :=
  t.nodes.filterMap fun (place, node) =>
    match node with
    | .file content =>
        if earlier.node? place = some node then none else some ("/".intercalate place, content)
    | .directory => none

/-- Keeps the changed tree, if there is one. -/
def keep (result : Except FileError FileTree) : StateM FileTree (Except FileError Unit) := do
  match result with
  | .ok t =>
      set t
      return .ok ()
  | .error e => return .error e

/-- The file system over a tree of files. -/
def fileSystem : FileSystem (StateM FileTree) where
  read path := return (← get).read path
  kind? path := return (← get).kind? path
  names path := return (← get).names path
  createDirectories path := do
    keep ((← get).makeDirectories ((Path.pieces path).length + 1) path)
  write path content := do keep ((← get).write path content)

end FileTree

end SchemaLoom.Command
