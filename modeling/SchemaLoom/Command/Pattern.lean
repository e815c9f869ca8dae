import SchemaLoom.Text.Pieces

set_option autoImplicit false

/-! # Patterns for file names

In a pattern `?` stands for any character, `*` for any text, and a bracket for one character out
of a set, or not out of it after `!`. The component `**` stands for any number of directories.
Every other character stands for itself.
-/

namespace SchemaLoom.Command

/-- A character or a range of characters in brackets. -/
structure CharRange where
  first : Char
  last : Char
  deriving DecidableEq, Repr

/-- Whether a character lies in a range. -/
def CharRange.has (range : CharRange) (c : Char) : Bool := range.first ≤ c && c ≤ range.last

/-- A part of a pattern. -/
inductive Glob where
  | char (c : Char)
  | anyChar
  | anyText
  /-- Any number of directories. -/
  | anyDirectories
  | oneOf (ranges : List CharRange)
  | noneOf (ranges : List CharRange)
  deriving DecidableEq, Repr

/-- What is wrong with a pattern. -/
inductive PatternFault where
  /-- More than two stars in a row. -/
  | tooManyStars
  /-- Two stars that are not a component by themselves. -/
  | starsNotAlone
  /-- A bracket that is not closed. -/
  | openBracket
  deriving DecidableEq, Repr

/-- A fault and the position of the character it is at. -/
structure PatternError where
  position : Nat
  fault : PatternFault
  deriving DecidableEq, Repr

/-- The wording of a fault. -/
def PatternFault.message : PatternFault → String
  | tooManyStars => "wildcards are either regular `*` or recursive `**`"
  | starsNotAlone => "recursive wildcards must form a single path component"
  | openBracket => "invalid range pattern"

/-- The wording of a fault with its position. -/
def PatternError.message (e : PatternError) : String :=
  s!"Pattern syntax error near position {e.position}: {e.fault.message}"

namespace Glob

/-! ## Reading -/

/-- The ranges in brackets. -/
def ranges : List Char → List CharRange
  | [] => []
  | first :: '-' :: last :: rest => ⟨first, last⟩ :: ranges rest
  | c :: rest => ⟨c, c⟩ :: ranges rest

/-- Reads a bracket after its opening; the first character inside is never the closing one. The
number of characters read comes with the part and the rest. -/
def readBracket? (cs : List Char) : Option (Glob × Nat × List Char) :=
  let closed := fun (part : List CharRange → Glob) (lead : Nat) (inside : List Char) =>
    match inside with
    | [] => none
    | c :: more =>
        let body := c :: more.takeWhile (· ≠ ']')
        match more.dropWhile (· ≠ ']') with
        | [] => none
        | _ :: rest => some (part (ranges body), lead + body.length + 1, rest)
  match cs with
  | '!' :: inside => closed .noneOf 1 inside
  | inside => closed .oneOf 0 inside

/-- Reads the parts of a pattern from a position on, after a given character. The first argument
bounds the number of parts. -/
def readFrom : Nat → Nat → Option Char → List Char → Except PatternError (List Glob)
  | 0, _, _, _ => .ok []
  | _, _, _, [] => .ok []
  | fuel + 1, position, before?, c :: rest =>
      if c = '?' then do return .anyChar :: (← readFrom fuel (position + 1) (some c) rest)
      else if c = '*' then
        match rest.takeWhile (· = '*'), rest.dropWhile (· = '*') with
        | [], rest => do return .anyText :: (← readFrom fuel (position + 1) (some '*') rest)
        | [_], rest =>
            if before? = none || before? = some '/' then
              match rest with
              | [] => .ok [.anyDirectories]
              | '/' :: rest => do
                  return .anyDirectories :: (← readFrom fuel (position + 3) (some '/') rest)
              | _ => .error ⟨position + 2, .starsNotAlone⟩
            else .error ⟨position - 1, .starsNotAlone⟩
        | _, _ => .error ⟨position + 2, .tooManyStars⟩
      else if c = '[' then
        match readBracket? rest with
        | some (part, count, rest) => do
            return part :: (← readFrom fuel (position + 1 + count) (some ']') rest)
        | none => .error ⟨position, .openBracket⟩
      else do return .char c :: (← readFrom fuel (position + 1) (some c) rest)

/-- Reads the parts of a pattern. -/
def read (pattern : List Char) : Except PatternError (List Glob) :=
  readFrom pattern.length 0 none pattern

/-! ## Matching -/

/-- Whether a single character fits a part. -/
def fits (c : Char) : Glob → Bool
  | .char c' => c = c'
  | .anyChar => true
  | .oneOf ranges => ranges.any fun range => range.has c
  | .noneOf ranges => !ranges.any fun range => range.has c
  | .anyText | .anyDirectories => false

/-- Whether a rest of the text satisfies a condition. -/
def someRest (condition : List Char → Bool) : List Char → Bool
  | [] => condition []
  | c :: rest => condition (c :: rest) || someRest condition rest

/-- Whether a name fits the parts of a pattern. -/
def fitsAll : List Glob → List Char → Bool
  | [], cs => cs.isEmpty
  | .anyText :: parts, cs | .anyDirectories :: parts, cs => someRest (fitsAll parts) cs
  | _ :: _, [] => false
  | part :: parts, c :: cs => part.fits c && fitsAll parts cs

/-- The name that a pattern without wildcards stands for. -/
def literal? : List Glob → Option (List Char)
  | [] => some []
  | .char c :: parts => (literal? parts).map (c :: ·)
  | _ :: _ => none

end Glob

/-! ## Patterns of paths -/

/-- A pattern of paths, cut at its slashes. -/
structure PathPattern where
  components : List (List Glob)
  /-- The pattern ends with a slash, so that only directories fit. -/
  directoriesOnly : Bool
  deriving DecidableEq, Repr

namespace PathPattern

/-- Whether an argument is a pattern and not a path. -/
def isPattern (text : String) : Bool :=
  text.toList.any fun c => c = '*' || c = '?' || c = '[' || c = '\x7b'

/-- The texts between slashes; after a last slash none is missing. -/
def componentTexts (cs : List Char) : List (List Char) :=
  let texts := Text.pieces (· = '/') cs
  if texts.getLast? = some [] then texts.dropLast else texts

/-- Reads a pattern: as a whole, then component by component. -/
def read (text : String) : Except PatternError PathPattern := do
  let _ ← Glob.read text.toList
  let components ← (componentTexts text.toList).mapM Glob.read
  return ⟨components, text.toList.getLast? = some '/'⟩

end PathPattern

end SchemaLoom.Command
