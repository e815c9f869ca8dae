import SchemaLoom.Json.Basic

set_option autoImplicit false

/-! # Types of a data model

A type says which values a field takes. It may be optional, which allows the value to be absent
or `null`. Classes and enums are named, not contained, so types may refer to each other in
circles.
-/

namespace SchemaLoom

/-- A type without parts. -/
inductive Leaf where
  | string
  | int
  | float
  | bool
  | null
  | any
  | literalString (text : String)
  | literalInt (value : Int)
  | literalBool (value : Bool)
  | classRef (name : String)
  | enumRef (name : String)
  deriving DecidableEq, Repr

/-- The type of a value, and whether the value may be absent. -/
inductive DataType where
  | leaf (leaf : Leaf) (isOptional : Bool)
  | list (item : DataType) (isOptional : Bool)
  | union (members : List DataType) (isOptional : Bool)
  deriving Repr

namespace DataType

/-! ## Construction -/

/-- The type of a leaf that is not optional. -/
abbrev of (l : Leaf) : DataType := .leaf l false

/-- The type of lists that are not optional. -/
abbrev listOf (item : DataType) : DataType := .list item false

/-- The union that is not optional. -/
abbrev unionOf (members : List DataType) : DataType := .union members false

/-- A reference to a class. -/
abbrev classRef (name : String) : DataType := of (.classRef name)

/-- A reference to an enum. -/
abbrev enumRef (name : String) : DataType := of (.enumRef name)

/-- Whether the type is marked optional. -/
def isOptional : DataType → Bool
  | .leaf _ o | .list _ o | .union _ o => o

/-- The type made optional if `optional` is set; an optional type stays optional. -/
def withOptional (optional : Bool) : DataType → DataType
  | .leaf l o => .leaf l (o || optional)
  | .list item o => .list item (o || optional)
  | .union members o => .union members (o || optional)

/-- The type made optional. -/
def optional (t : DataType) : DataType := t.withOptional true

/-! ## Views -/

/-- Whether the type is the one of `null`, optional or not. -/
def isNull : DataType → Bool
  | .leaf .null _ => true
  | _ => false

/-- Whether the type is a union, optional or not. -/
def isUnion : DataType → Bool
  | .union _ _ => true
  | _ => false

/-- Whether a value of the type may be absent. -/
def mayBeAbsent (t : DataType) : Bool := t.isOptional || t.isNull

/-- The type of the items of a list. -/
def itemType? : DataType → Option DataType
  | .list item _ => some item
  | _ => none

/-- The members of a union. -/
def unionMembers? : DataType → Option (List DataType)
  | .union members _ => some members
  | _ => none

/-- The leaf of a type without parts. -/
def leaf? : DataType → Option Leaf
  | .leaf l _ => some l
  | _ => none

/-- The value that a literal type allows. -/
def literalValue? (t : DataType) : Option Json :=
  match t.leaf? with
  | some (.literalString text) => some (.str text)
  | some (.literalInt value) => some (.num (.int value))
  | some (.literalBool value) => some (.bool value)
  | _ => none

/-- The name of the class or enum that a reference names. -/
def referencedName? (t : DataType) : Option String :=
  match t.leaf? with
  | some (.classRef name) | some (.enumRef name) => some name
  | _ => none

@[simp] theorem withOptional_false (t : DataType) : t.withOptional false = t := by
  cases t <;> simp [withOptional]

@[simp] theorem isOptional_withOptional (t : DataType) (o : Bool) :
    (t.withOptional o).isOptional = (t.isOptional || o) := by
  cases t <;> rfl

/-! ## Equality -/

mutual

/-- Whether two types are the same. -/
def same : DataType → DataType → Bool
  | .leaf l o, .leaf l' o' => l = l' && o = o'
  | .list item o, .list item' o' => same item item' && o = o'
  | .union members o, .union members' o' => sameAll members members' && o = o'
  | _, _ => false

/-- Whether two lists of types are the same. -/
def sameAll : List DataType → List DataType → Bool
  | [], [] => true
  | t :: rest, t' :: rest' => same t t' && sameAll rest rest'
  | _, _ => false

end

mutual

theorem same_iff : ∀ t u : DataType, same t u = true ↔ t = u
  | .leaf l o, .leaf l' o' => by simp [same]
  | .list item o, .list item' o' => by simp [same, same_iff item item']
  | .union members o, .union members' o' => by simp [same, sameAll_iff members members']
  | .leaf _ _, .list _ _ | .leaf _ _, .union _ _ | .list _ _, .leaf _ _
  | .list _ _, .union _ _ | .union _ _, .leaf _ _ | .union _ _, .list _ _ => by simp [same]

theorem sameAll_iff : ∀ ts us : List DataType, sameAll ts us = true ↔ ts = us
  | [], [] => by simp [sameAll]
  | t :: rest, u :: rest' => by simp [sameAll, same_iff t u, sameAll_iff rest rest']
  | [], _ :: _ | _ :: _, [] => by simp [sameAll]

end

/-- Equality of types is decided by `same`. -/
instance : DecidableEq DataType := fun t u => decidable_of_iff _ (same_iff t u)

end DataType

end SchemaLoom
