import SchemaLoom.Model.Encode
import SchemaLoom.Schema.Diagnostic

set_option autoImplicit false

/-! # Field types

A builder of types knows fewer kinds than a data model: classes and enums are both named types,
and neither `null` nor `any` exists by itself. `null` becomes an optional string, `any` a string
with a warning.
-/

namespace SchemaLoom

/-- A field type without parts. -/
inductive FieldLeaf where
  | string
  | int
  | float
  | bool
  | literalString (text : String)
  | literalInt (value : Int)
  | literalBool (value : Bool)
  /-- A class or an enum, looked up by its name. -/
  | named (name : String)
  deriving DecidableEq, Repr

/-- A type that a builder understands. -/
inductive FieldType where
  | leaf (leaf : FieldLeaf)
  | list (item : FieldType)
  | union (members : List FieldType)
  | optional (inner : FieldType)
  deriving Repr

namespace FieldType

/-- The type made optional; an optional type stays as it is. -/
def toOptional : FieldType → FieldType
  | .optional inner => .optional inner
  | type => .optional type

/-- The type made optional if `isOptional` is set. -/
def withOptional (isOptional : Bool) (type : FieldType) : FieldType :=
  if isOptional then type.toOptional else type

mutual

/-- The names of the types it refers to, from left to right. -/
def targets : FieldType → List String
  | .leaf (.named name) => [name]
  | .leaf _ => []
  | .list item => item.targets
  | .union members => targetsOfAll members
  | .optional inner => inner.targets

/-- The names of the types that several types refer to. -/
def targetsOfAll : List FieldType → List String
  | [] => []
  | type :: rest => type.targets ++ targetsOfAll rest

end

/-! ## From data types -/

/-- The field type of a leaf. -/
def ofLeaf : Leaf → FieldType
  | .string | .any => .leaf .string
  | .int => .leaf .int
  | .float => .leaf .float
  | .bool => .leaf .bool
  | .null => .optional (.leaf .string)
  | .literalString text => .leaf (.literalString text)
  | .literalInt value => .leaf (.literalInt value)
  | .literalBool value => .leaf (.literalBool value)
  | .classRef name | .enumRef name => .leaf (.named name)

mutual

/-- The field type of a data type, with the warnings that the step gives. -/
def ofDataType (context : String) : DataType → FieldType × List Warning
  | .leaf l o =>
      ((ofLeaf l).withOptional o, match l with
        | .any => [.anyType context]
        | _ => [])
  | .list item o =>
      let (type, warnings) := ofDataType context item
      ((FieldType.list type).withOptional o, warnings)
  | .union members o =>
      let (types, warnings) := ofDataTypes context members
      ((FieldType.union types).withOptional o, warnings)

/-- The field types of data types, with the warnings that the step gives. -/
def ofDataTypes (context : String) : List DataType → List FieldType × List Warning
  | [] => ([], [])
  | t :: rest =>
      let (type, warnings) := ofDataType context t
      let (types, more) := ofDataTypes context rest
      (type :: types, warnings ++ more)

end

/-! ## JSON form -/

/-- A type tagged with its name; what belongs to it stands under `of`. -/
def tagged (name : String) (content : Option Json) : Json :=
  .obj (("type", .str name) :: match content with
    | some value => [("of", value)]
    | none => [])

/-- The JSON form of a leaf. -/
def leafJson : FieldLeaf → Json
  | .string => tagged "string" none
  | .int => tagged "int" none
  | .float => tagged "float" none
  | .bool => tagged "bool" none
  | .literalString text => tagged "literal_string" (some (.str text))
  | .literalInt value => tagged "literal_int" (some (.num (.int value)))
  | .literalBool value => tagged "literal_bool" (some (.bool value))
  | .named name => tagged "named" (some (.str name))

mutual

/-- The JSON form of a field type. -/
def toJson : FieldType → Json
  | .leaf l => leafJson l
  | .list item => tagged "list" (some item.toJson)
  | .union members => tagged "union" (some (.arr (toJsonAll members)))
  | .optional inner => tagged "optional" (some inner.toJson)

/-- The JSON forms of field types. -/
def toJsonAll : List FieldType → List Json
  | [] => []
  | type :: rest => type.toJson :: toJsonAll rest

end

end FieldType

end SchemaLoom
