set_option autoImplicit false

/-! # Faults of a JSON text -/

namespace SchemaLoom

/-- Why a text is not a JSON document. -/
inductive SyntaxError where
  /-- The text ends inside an array. -/
  | endInArray
  /-- The text ends inside an object. -/
  | endInObject
  /-- The text ends inside a string. -/
  | endInString
  /-- The text ends where a value is due. -/
  | endInValue
  | expectedColon
  | expectedCommaOrBracket
  | expectedCommaOrBrace
  /-- A word that starts like `null`, `true` or `false` and goes on differently. -/
  | expectedWord
  | expectedValue
  | badEscape
  | badNumber
  /-- The number is beyond the range of doubles. -/
  | numberOutOfRange
  /-- A control character stands unescaped in a string. -/
  | controlCharacter
  | keyNotString
  /-- A second half of a surrogate pair stands where none may, or the first half is followed by
  another escape. -/
  | loneSurrogate
  /-- The first half of a surrogate pair is not followed by an escape. -/
  | brokenPair
  | trailingComma
  /-- Something follows the value. -/
  | trailingText
  /-- Arrays and objects are nested too deep. -/
  | tooDeep
  deriving DecidableEq, Repr

/-- The wording of a fault. -/
def SyntaxError.message : SyntaxError → String
  | endInArray => "EOF while parsing a list"
  | endInObject => "EOF while parsing an object"
  | endInString => "EOF while parsing a string"
  | endInValue => "EOF while parsing a value"
  | expectedColon => "expected `:`"
  | expectedCommaOrBracket => "expected `,` or `]`"
  | expectedCommaOrBrace => "expected `,` or `\x7d`"
  | expectedWord => "expected ident"
  | expectedValue => "expected value"
  | badEscape => "invalid escape"
  | badNumber => "invalid number"
  | numberOutOfRange => "number out of range"
  | controlCharacter => "control character (\\u0000-\\u001F) found while parsing a string"
  | keyNotString => "key must be a string"
  | loneSurrogate => "lone leading surrogate in hex escape"
  | brokenPair => "unexpected end of hex escape"
  | trailingComma => "trailing comma"
  | trailingText => "trailing characters"
  | tooDeep => "recursion limit exceeded"

end SchemaLoom
