import SchemaLoom.Json.Basic
import SchemaLoom.Decimal.Shortest

set_option autoImplicit false

/-! # Writing JSON

Two layouts are written: a compact one without blanks and an indented one with two spaces a
level. Both write members in the order of the value.

A double is written with its shortest digits, positionally while its leading digit stands
between the fifth place after the point and the sixteenth place before it, and always with a
point or an exponent, so that it reads back as a double.
-/

namespace SchemaLoom

/-! ## Numbers -/

namespace JsonNumber

/-- The leading digit's place from which on a double is written positionally. -/
def positionalFrom : Int := -5

/-- The leading digit's place from which on a double is written with an exponent again. -/
def positionalBelow : Int := 16

/-- The text of `digits * 10 ^ exponent`, where `digits` are the digits of the coefficient. -/
def scaledText (digits : List Char) (exponent : Int) : List Char :=
  let leading := exponent + digits.length - 1
  if positionalFrom ≤ leading && leading < positionalBelow then
    if 0 ≤ exponent then digits ++ List.replicate exponent.toNat '0' ++ ['.', '0']
    else if 0 ≤ leading then
      digits.take (leading.toNat + 1) ++ '.' :: digits.drop (leading.toNat + 1)
    else '0' :: '.' :: List.replicate (-leading - 1).toNat '0' ++ digits
  else
    let fraction := match digits.drop 1 with
      | [] => []
      | rest => '.' :: rest
    let sign := if leading < 0 then '-' else '+'
    digits.take 1 ++ fraction ++ 'e' :: sign :: Nat.toDigits 10 leading.natAbs

/-- The text of a double given by its bits. -/
def doubleText (bits : UInt64) : List Char :=
  let magnitude := bits.toNat % 0x8000000000000000
  let sign := if bits.toNat = magnitude then [] else ['-']
  if magnitude = 0 then sign ++ ['0', '.', '0']
  else
    let shortest := (Decimal.BinaryParts.ofBits bits).shortest
    sign ++ scaledText (Nat.toDigits 10 shortest.coefficient) shortest.exponent

/-- The text of an integer. -/
def intText (value : Int) : List Char :=
  if value < 0 then '-' :: Nat.toDigits 10 value.natAbs else Nat.toDigits 10 value.natAbs

/-- The text of a number. -/
def text : JsonNumber → List Char
  | .int value => intText value
  | .double bits => doubleText bits

end JsonNumber

namespace Json

/-! ## Strings -/

/-- The lower-case hexadecimal digit of a number below 16. -/
def hexDigit (n : Nat) : Char := (Nat.toDigits 16 n).headD '0'

/-- A character inside a string: quotes, backslashes and control characters are escaped, the
control characters that have a letter of their own by that letter. -/
def escapedChar (c : Char) : List Char :=
  if c = '"' then ['\\', '"']
  else if c = '\\' then ['\\', '\\']
  else if c = '\x08' then ['\\', 'b']
  else if c = '\t' then ['\\', 't']
  else if c = '\n' then ['\\', 'n']
  else if c = '\x0c' then ['\\', 'f']
  else if c = '\r' then ['\\', 'r']
  else if c.toNat < 32 then ['\\', 'u', '0', '0', hexDigit (c.toNat / 16), hexDigit (c.toNat % 16)]
  else [c]

/-- A string as it is written in a document. -/
def quotedChars (text : List Char) : List Char := '"' :: text.flatMap escapedChar ++ ['"']

/-! ## The compact layout -/

mutual

/-- The characters of a value in the compact layout, in front of `rest`. -/
def compactChars (value : Json) (rest : List Char) : List Char :=
  match value with
  | .null => "null".toList ++ rest
  | .bool true => "true".toList ++ rest
  | .bool false => "false".toList ++ rest
  | .num n => n.text ++ rest
  | .str text => quotedChars text.toList ++ rest
  | .arr items => '[' :: compactItems true items (']' :: rest)
  | .obj members => '\x7b' :: compactMembers true members ('\x7d' :: rest)

/-- The items of an array, separated by commas; `first` tells whether a comma is due. -/
def compactItems (first : Bool) (items : List Json) (rest : List Char) : List Char :=
  match items with
  | [] => rest
  | item :: more =>
      (if first then [] else [',']) ++ compactChars item (compactItems false more rest)

/-- The members of an object, separated by commas. -/
def compactMembers (first : Bool) (members : List (String × Json)) (rest : List Char) :
    List Char :=
  match members with
  | [] => rest
  | (key, value) :: more =>
      (if first then [] else [',']) ++ quotedChars key.toList
        ++ ':' :: compactChars value (compactMembers false more rest)

end

/-- The value as text without blanks. -/
def compact (value : Json) : String := String.ofList (compactChars value [])

/-- The compact text of an array. -/
def compactList (items : List Json) : String := (Json.arr items).compact

/-- The text of a string, a number or a boolean; a string is its own text. -/
def literalText? : Json → Option String
  | .str text => some text
  | .num n => some (String.ofList n.text)
  | .bool true => some "true"
  | .bool false => some "false"
  | .null | .arr _ | .obj _ => none

/-! ## The indented layout -/

/-- A line break followed by the indentation of a level. -/
def lineBreak (level : Nat) : List Char := '\n' :: List.replicate (2 * level) ' '

mutual

/-- The characters of a value whose lines stand at a level, in front of `rest`. Empty arrays and
objects stay on one line. -/
def indentedChars (level : Nat) (value : Json) (rest : List Char) : List Char :=
  match value with
  | .null => "null".toList ++ rest
  | .bool true => "true".toList ++ rest
  | .bool false => "false".toList ++ rest
  | .num n => n.text ++ rest
  | .str text => quotedChars text.toList ++ rest
  | .arr [] => '[' :: ']' :: rest
  | .arr items =>
      '[' :: indentedItems (level + 1) true items (lineBreak level ++ ']' :: rest)
  | .obj [] => '\x7b' :: '\x7d' :: rest
  | .obj members =>
      '\x7b' :: indentedMembers (level + 1) true members (lineBreak level ++ '\x7d' :: rest)

/-- The items of an array, each on lines of its own. -/
def indentedItems (level : Nat) (first : Bool) (items : List Json) (rest : List Char) :
    List Char :=
  match items with
  | [] => rest
  | item :: more =>
      (if first then [] else [',']) ++ lineBreak level
        ++ indentedChars level item (indentedItems level false more rest)

/-- The members of an object, each on lines of its own. -/
def indentedMembers (level : Nat) (first : Bool) (members : List (String × Json))
    (rest : List Char) : List Char :=
  match members with
  | [] => rest
  | (key, value) :: more =>
      (if first then [] else [',']) ++ lineBreak level ++ quotedChars key.toList
        ++ ':' :: ' ' :: indentedChars level value (indentedMembers level false more rest)

end

/-- The value as text with two spaces of indentation a level. -/
def indented (value : Json) : String := String.ofList (indentedChars 0 value [])

end Json

end SchemaLoom
