import SchemaLoom.Text.Pieces

set_option autoImplicit false

/-! # Identifiers

Names of a document become identifiers of a data model: type names and enum values start with a
capital letter, field names with a small one. A name is cut into words at `_` and `-`; within a
word everything but letters and digits is dropped and the capitals stay as they are. An
identifier that would start with a digit gets a letter in front.

Where the identifier differs from the name, the name is kept as its alias.
-/

namespace SchemaLoom.Identifier

/-- The two ways to write an identifier. -/
inductive Case where
  /-- The first letter is a capital: types and enum values. -/
  | pascal
  /-- The first letter is a small one: fields. -/
  | camel
  deriving DecidableEq, Repr

/-- Whether a character separates words. -/
def separatesWords (c : Char) : Bool := c = '_' || c = '-'

/-- The words of a name: letters and digits of the basic alphabet, empty words left out. -/
def words (raw : List Char) : List (List Char) :=
  ((Text.pieces separatesWords raw).map fun piece => piece.filter Char.isAlphanum).filter
    fun word => !word.isEmpty

/-- The word with a capital in front. -/
def capitalize : List Char → List Char
  | [] => []
  | c :: rest => c.toUpper :: rest

/-- The word with a small letter in front. -/
def decapitalize : List Char → List Char
  | [] => []
  | c :: rest => c.toLower :: rest

/-- Joins words: every word but the first one of a field name gets a capital. -/
def join (case : Case) : List (List Char) → List Char
  | [] => []
  | first :: rest =>
      (match case with
        | .pascal => capitalize first
        | .camel => decapitalize first) ++ rest.flatMap capitalize

/-- The letter in front of an identifier that would start with a digit. -/
def guardLetter : Case → Char
  | .pascal => 'V'
  | .camel => 'v'

/-- Puts the guard letter in front where it is needed. -/
def guardDigit (case : Case) : List Char → List Char
  | [] => []
  | c :: rest => if c.isDigit then guardLetter case :: c :: rest else c :: rest

/-- The identifier of a name, by characters. -/
def ofChars (case : Case) (raw : List Char) : List Char := guardDigit case (join case (words raw))

/-- The identifier of a name; empty when the name has no letter or digit. -/
def of (case : Case) (raw : String) : String := String.ofList (ofChars case raw.toList)

/-- The identifier of a type or an enum value. -/
def pascal (raw : String) : String := of .pascal raw

/-- The identifier of a field. -/
def camel (raw : String) : String := of .camel raw

/-- Whether the identifier does not tell the name any more. -/
def needsAlias (raw identifier : String) : Bool := raw ≠ identifier

/-- An identifier and, where it differs, the name it stands for. -/
structure Resolved where
  identifier : String
  alias? : Option String
  deriving DecidableEq, Repr

/-- The identifier of a name with its alias. -/
def resolve (case : Case) (raw : String) : Resolved :=
  let identifier := of case raw
  ⟨identifier, if needsAlias raw identifier then some raw else none⟩

end SchemaLoom.Identifier
