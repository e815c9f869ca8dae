import SchemaLoom.Json.Basic
import SchemaLoom.Json.SyntaxError

set_option autoImplicit false

/-! # Drafts: what a text spells, as far as it goes

A `Draft` is the tree that a text spells, faults included: it records where the text breaks and
goes no further. A reader consumes a draft from the front, so it meets a fault only if it gets
that far, and what it says then depends on how it was reading.

* A *strict* reader builds what it reads. It refuses characters and numbers that have no value,
  and nesting beyond a limit.
* A *skipping* reader only passes over. It refuses only what leaves the end of the value in
  doubt, and words some faults differently.

A stored value is the draft without faults; reading a value is reading its draft.
-/

namespace SchemaLoom

/-- A string or a number of a text: its value, or the fault that a strict reader reports. A faulty
token that a skipping reader passes over has no fault for it. -/
inductive Token (α : Type) where
  | good (value : α)
  | faulty (strict : SyntaxError) (skipping : Option SyntaxError)
  deriving Repr

/-- How an array ends after the items that were read. -/
inductive ArrayStop where
  /-- A bracket closes it. -/
  | closed
  /-- It is an array of a stored value. -/
  | stored
  /-- The text ends after the opening bracket or after an item. -/
  | ended
  /-- Something else than a comma or a bracket follows an item. -/
  | unexpected
  /-- A comma is followed by the closing bracket. -/
  | commaBracket
  /-- A comma is followed by the end of the text. -/
  | commaEnded
  deriving DecidableEq, Repr

/-- How an object ends after the members that were read. -/
inductive ObjectStop where
  /-- A brace closes it. -/
  | closed
  /-- No further member can be read; a strict and a skipping reader say why. -/
  | broken (strict skipping : SyntaxError)
  deriving DecidableEq, Repr

/-- The tree that a text spells. `deep` marks an array or object beyond the nesting limit. -/
inductive Draft where
  | null
  | bool (value : Bool)
  | num (token : Token JsonNumber)
  | str (token : Token String)
  /-- No value starts here, or the text ends inside it. -/
  | broken (cause : SyntaxError)
  /-- The value of a member whose key is not followed by a colon. -/
  | noColon (cause : SyntaxError)
  | arr (deep : Bool) (items : List Draft) (stop : ArrayStop)
  | obj (deep : Bool) (members : List (Token String × Draft)) (stop : ObjectStop)
  deriving Repr

/-! ## Faults by the way of reading -/

/-- The fault of a skipping reader at a token. -/
def Token.skipFault? {α : Type} : Token α → Option SyntaxError
  | good _ => none
  | faulty _ skipping => skipping

/-- The fault of a reader that asks for a further item. -/
def ArrayStop.nextFault? : ArrayStop → Option SyntaxError
  | closed | stored => none
  | ended => some .endInArray
  | unexpected => some .expectedCommaOrBracket
  | commaBracket => some .trailingComma
  | commaEnded => some .endInValue

/-- The fault of a skipping reader. -/
def ArrayStop.skipFault? : ArrayStop → Option SyntaxError
  | closed | stored => none
  | ended => some .endInArray
  | unexpected => some .expectedCommaOrBracket
  | commaBracket => some .expectedValue
  | commaEnded => some .endInValue

/-- The fault of a reader that has all it wants and expects the closing bracket. -/
def ArrayStop.closeFault? : ArrayStop → Option SyntaxError
  | closed | stored => none
  | ended => some .endInArray
  | unexpected | commaEnded => some .trailingText
  | commaBracket => some .trailingComma

/-- The fault of a reader that asks for a further member. -/
def ObjectStop.nextFault? : ObjectStop → Option SyntaxError
  | closed => none
  | broken strict _ => some strict

/-- The fault of a skipping reader. -/
def ObjectStop.skipFault? : ObjectStop → Option SyntaxError
  | closed => none
  | broken _ skipping => some skipping

/-! ## Skipping -/

mutual

/-- The fault that a skipping reader meets in a draft. -/
def Draft.skipFault? : Draft → Option SyntaxError
  | .null | .bool _ => none
  | .num token => token.skipFault?
  | .str token => token.skipFault?
  | .broken cause | .noColon cause => some cause
  | .arr _ items stop => skipFaultOfItems? items <|> stop.skipFault?
  | .obj _ members stop => skipFaultOfMembers? members <|> stop.skipFault?

/-- The first fault that a skipping reader meets in items. -/
def Draft.skipFaultOfItems? : List Draft → Option SyntaxError
  | [] => none
  | item :: rest => item.skipFault? <|> skipFaultOfItems? rest

/-- The first fault that a skipping reader meets in members. -/
def Draft.skipFaultOfMembers? : List (Token String × Draft) → Option SyntaxError
  | [] => none
  | (key, value) :: rest => key.skipFault? <|> value.skipFault? <|> skipFaultOfMembers? rest

end

/-! ## Drafts of stored values -/

mutual

/-- The draft of a stored value. -/
def Draft.ofJson : Json → Draft
  | .null => .null
  | .bool value => .bool value
  | .num value => .num (.good value)
  | .str text => .str (.good text)
  | .arr items => .arr false (ofItems items) .stored
  | .obj members => .obj false (ofMembers members) .closed

/-- The drafts of stored items. -/
def Draft.ofItems : List Json → List Draft
  | [] => []
  | item :: rest => ofJson item :: ofItems rest

/-- The drafts of stored members. -/
def Draft.ofMembers : List (String × Json) → List (Token String × Draft)
  | [] => []
  | (key, value) :: rest => (.good key, ofJson value) :: ofMembers rest

end

end SchemaLoom
