set_option autoImplicit false

/-! # Raw strings

A raw string stands between quotes that are fenced with hashes: `#"…"#`. It ends at the first
quote that is followed by as many hashes as it started with, so it is fenced with one hash more
than follow any quote inside it, and nothing in it is escaped.
-/

namespace SchemaLoom.Baml

/-- How many hashes a text starts with. -/
def hashRun (cs : List Char) : Nat := (cs.takeWhile (· = '#')).length

/-- The greatest number of hashes that follow a quote in a text. -/
def longestRun : List Char → Nat
  | [] => 0
  | c :: rest => if c = '"' then max (hashRun rest) (longestRun rest) else longestRun rest

/-- How many hashes fence a text. -/
def fenceWidth (text : List Char) : Nat := longestRun text + 1

/-- The fence of a width. -/
def fence (width : Nat) : List Char := List.replicate width '#'

/-- A text as a raw string. -/
def rawString (text : List Char) : List Char :=
  fence (fenceWidth text) ++ '"' :: text ++ '"' :: fence (fenceWidth text)

end SchemaLoom.Baml
