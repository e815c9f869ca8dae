import SchemaLoom.Entries

set_option autoImplicit false

/-! # JSON values

A `Json` value keeps what a document says and in which order it says it: an object is the list
of its members as they stand in the text. Numbers are split by how they are written, because a
schema treats `1` and `1.0` differently: an integer literal that fits a machine word is an
`Int`, everything else is a double, held by its bits so that equality of values is decidable.

The members of an object are `Entries`: the operations on them are those of ordered maps.
-/

namespace SchemaLoom

/-- A JSON number: an integer between `-2^63` and `2^64 - 1`, or a finite double given by its
bits. -/
inductive JsonNumber where
  | int (value : Int)
  | double (bits : UInt64)
  deriving DecidableEq, Repr

/-- The number as a signed 64-bit integer, if it is one. -/
def JsonNumber.toInt64? : JsonNumber → Option Int
  | .int value => if value < 0x8000000000000000 then some value else none
  | .double _ => none

/-- A JSON value; the members of an object are in document order. -/
inductive Json where
  | null
  | bool (value : Bool)
  | num (value : JsonNumber)
  | str (text : String)
  | arr (items : List Json)
  | obj (members : List (String × Json))
  deriving Repr

namespace Json

/-! ## Views

Each view answers `none` for a value of another kind. -/

/-- The text of a string. -/
def string? : Json → Option String
  | .str text => some text
  | _ => none

/-- The members of an object. -/
def members? : Json → Option (Entries Json)
  | .obj members => some members
  | _ => none

/-- The value of a key of an object. -/
def get? (key : String) : Json → Option Json
  | .obj members => Entries.get? key members
  | _ => none

/-- Whether the value is `null`. -/
def isNull : Json → Bool
  | .null => true
  | _ => false

/-- Whether the value is a string. -/
def isString : Json → Bool
  | .str _ => true
  | _ => false

/-- Whether the value is `true`. -/
def isTrue : Json → Bool
  | .bool true => true
  | _ => false

/-- Whether the value is `false`. -/
def isFalse : Json → Bool
  | .bool false => true
  | _ => false

/-! ## Optional members -/

/-- The member of an optional text, none when it is absent. -/
def textMember (key : String) : Option String → List (String × Json)
  | some text => [(key, .str text)]
  | none => []

/-- The member of a flag, none when it is not set. -/
def flagMember (key : String) (flag : Bool) : List (String × Json) :=
  if flag then [(key, .bool true)] else []

/-! ## Size -/

mutual

/-- How many levels of arrays and objects the value has, itself counted. -/
def depth : Json → Nat
  | .arr items => depthOfItems items + 1
  | .obj members => depthOfMembers members + 1
  | _ => 1

/-- The greatest depth among the items. -/
def depthOfItems : List Json → Nat
  | [] => 0
  | item :: rest => max item.depth (depthOfItems rest)

/-- The greatest depth among the members. -/
def depthOfMembers : List (String × Json) → Nat
  | [] => 0
  | (_, value) :: rest => max value.depth (depthOfMembers rest)

end

mutual

/-- How many values the value is made of, itself counted. -/
def size : Json → Nat
  | .arr items => sizeOfItems items + 1
  | .obj members => sizeOfMembers members + 1
  | _ => 1

/-- How many values the items are made of. -/
def sizeOfItems : List Json → Nat
  | [] => 0
  | item :: rest => item.size + sizeOfItems rest

/-- How many values the members are made of. -/
def sizeOfMembers : List (String × Json) → Nat
  | [] => 0
  | (_, value) :: rest => value.size + sizeOfMembers rest

end

theorem one_le_depth (j : Json) : 1 ≤ j.depth := by cases j <;> simp [depth]

end Json

end SchemaLoom
