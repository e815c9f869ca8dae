import SchemaLoom.Text.Shapeless

set_option autoImplicit false

/-! # Text shown in messages

A message shows a foreign text between double quotes. Quotes, backslashes and everything that
cannot be seen are escaped, so that the text stays on one line and its end is certain.
-/

namespace SchemaLoom.Text

/-- A character as a message shows it. -/
def shownChar (c : Char) : List Char :=
  if c = '\x00' then ['\\', '0']
  else if c = '\t' then ['\\', 't']
  else if c = '\r' then ['\\', 'r']
  else if c = '\n' then ['\\', 'n']
  else if c = '"' then ['\\', '"']
  else if c = '\\' then ['\\', '\\']
  else if c.toNat < 127 && 32 ≤ c.toNat then [c]
  else if isShapeless c then '\\' :: 'u' :: '\x7b' :: Nat.toDigits 16 c.toNat ++ ['\x7d']
  else [c]

/-- A text as a message shows it. -/
def shown (text : String) : String :=
  String.ofList ('"' :: text.toList.flatMap shownChar ++ ['"'])

end SchemaLoom.Text
