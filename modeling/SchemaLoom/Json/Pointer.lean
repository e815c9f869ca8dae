import SchemaLoom.Json.Basic
import SchemaLoom.Text.Pieces

set_option autoImplicit false

/-! # Pointers into a document

A pointer is empty, or a sequence of segments each led by a slash; it selects a part of a
document. In a segment `~1` stands for a slash and `~0` for a tilde. A reference is a pointer into
the same document, led by `#`.
-/

namespace SchemaLoom.Pointer

/-- The character that leads a local reference. -/
def root : String := "#"

/-! ## Segments -/

/-- Writes a key as a segment. -/
def escapeChars (key : List Char) : List Char :=
  key.flatMap fun c => if c = '~' then ['~', '0'] else if c = '/' then ['~', '1'] else [c]

/-- Reads a segment as a key. A tilde that starts no escape stands for itself. -/
def unescapeChars : List Char → List Char
  | [] => []
  | '~' :: '0' :: rest => '~' :: unescapeChars rest
  | '~' :: '1' :: rest => '/' :: unescapeChars rest
  | c :: rest => c :: unescapeChars rest

/-- Writes a key as a segment. -/
def escape (key : String) : String := String.ofList (escapeChars key.toList)

/-- The index that a segment denotes: decimal, without superfluous leading zeros. -/
def index? (segment : List Char) : Option Nat :=
  match segment with
  | [] => none
  | ['0'] => some 0
  | '0' :: _ => none
  | _ =>
      if segment.all Char.isDigit then
        some (segment.foldl (fun n c => 10 * n + (c.toNat - '0'.toNat)) 0)
      else none

/-! ## Selection -/

/-- The part of a value that a segment selects. -/
def step? (value : Json) (segment : List Char) : Option Json :=
  match value with
  | .obj members => Entries.get? (String.ofList (unescapeChars segment)) members
  | .arr items =>
      match index? (unescapeChars segment) with
      | some i => items[i]?
      | none => none
  | _ => none

/-- The part of a value that segments select one after the other. -/
def walk? (value : Json) : List (List Char) → Option Json
  | [] => some value
  | segment :: rest =>
      match step? value segment with
      | some inner => walk? inner rest
      | none => none

/-- The part of a document that a pointer selects, the pointer given by its characters. -/
def selectChars? (document : Json) : List Char → Option Json
  | [] => some document
  | '/' :: rest => walk? document (Text.pieces (· = '/') rest)
  | _ => none

/-- The part of a document that a pointer selects. -/
def select? (document : Json) (pointer : String) : Option Json :=
  selectChars? document pointer.toList

/-- The part of a document that a reference points at; only references into the same document,
led by `#`, point anywhere. -/
def resolve? (document : Json) (reference : String) : Option Json :=
  match reference.toList with
  | '#' :: pointer => selectChars? document pointer
  | _ => none

/-- The last segment of a reference as a key, if it is not empty. -/
def lastSegment? (reference : String) : Option String :=
  match reference.toList with
  | '#' :: pointer =>
      match (Text.pieces (· = '/') pointer).getLast? with
      | some (c :: segment) => some (String.ofList (unescapeChars (c :: segment)))
      | _ => none
  | _ => none

/-! ## Definitions -/

/-- The keys under which a document keeps definitions, the preferred one first. -/
def containers : List String := ["$defs", "definitions"]

/-- The definitions of one container with the references to them. -/
def definitionsOf (document : Json) (container : String) : List (String × Json) :=
  match document.get? container with
  | some (.obj members) =>
      members.map fun (key, schema) => (s!"{root}/{container}/{escape key}", schema)
  | _ => []

/-- The definitions of a document with the references to them, in document order. -/
def definitions (document : Json) : List (String × Json) :=
  containers.flatMap (definitionsOf document)

end SchemaLoom.Pointer
