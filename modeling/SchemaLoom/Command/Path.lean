import SchemaLoom.Text.Pieces

set_option autoImplicit false

/-! # Paths

A path is read as the sequence of names between its slashes. Empty names and points stand for
nothing, except that a point may be the first name.
-/

namespace SchemaLoom.Command.Path

/-- The text between slashes, empty text included. -/
def pieces (path : String) : List String :=
  (Text.pieces (· = '/') path.toList).map String.ofList

/-- Whether a path starts at the root of all files. -/
def isAbsolute (path : String) : Bool := path.toList.head? = some '/'

/-- Whether a piece of a path stands for nothing. -/
def isBlank (piece : String) : Bool := piece = "" || piece = "."

/-- The names on the way that a path describes, steps upwards included. -/
def names (path : String) : List String := (pieces path).filter fun piece => !isBlank piece

/-- Whether a path can only be a directory: it ends with a slash or a point. -/
def requiresDirectory (path : String) : Bool :=
  match (pieces path).getLast? with
  | some piece => isBlank piece
  | none => false

/-- Whether a path ends with a slash. -/
def endsWithSlash (path : String) : Bool := path.toList.getLast? = some '/'

/-- Whether the last piece of a path is a step: a point or two of them. -/
def endsWithStep (path : String) : Bool :=
  match (pieces path).reverse.find? (· ≠ "") with
  | some piece => piece = "." || piece = ".."
  | none => false

/-- The pieces without those at the end that stand for nothing; they come in reverse order, and a
point that is the first piece stays. -/
def dropBlanks : List String → List String
  | [] => []
  | ["."] => ["."]
  | piece :: before => if isBlank piece then dropBlanks before else piece :: before

/-- The last name of a path, unless it is a step. -/
def fileName? (path : String) : Option String :=
  match dropBlanks (pieces path).reverse with
  | [] => none
  | name :: _ => if name = "." || name = ".." then none else some name

/-- The path of the directory that a path lies in; empty for a single name. -/
def parent (path : String) : String :=
  match dropBlanks ((dropBlanks (pieces path).reverse).drop 1) with
  | [] => if isAbsolute path then "/" else ""
  | before => "/".intercalate before.reverse

/-- A name below a directory. -/
def join (directory name : String) : String :=
  if directory = "" || endsWithSlash directory then directory ++ name
  else directory ++ "/" ++ name

end SchemaLoom.Command.Path
