import SchemaLoom.Model.Basic

set_option autoImplicit false

/-! # Data models as JSON

The JSON form of a type tags it with its `kind`; what belongs to the kind stands under `of`. Absent
texts and unset flags are left out.
-/

namespace SchemaLoom

/-- The tag of a leaf. -/
def Leaf.kindName : Leaf → String
  | string => "string"
  | int => "int"
  | float => "float"
  | bool => "bool"
  | null => "null"
  | any => "any"
  | literalString _ => "literal_string"
  | literalInt _ => "literal_int"
  | literalBool _ => "literal_bool"
  | classRef _ => "class_ref"
  | enumRef _ => "enum_ref"

/-- What belongs to a leaf. -/
def Leaf.content : Leaf → List (String × Json)
  | literalString text => [("of", .str text)]
  | literalInt value => [("of", .num (.int value))]
  | literalBool value => [("of", .bool value)]
  | classRef name | enumRef name => [("of", .str name)]
  | string | int | float | bool | null | any => []

namespace DataType

/-- The tag of a type. -/
def kindName : DataType → String
  | .leaf l _ => l.kindName
  | .list _ _ => "list"
  | .union _ _ => "union"

mutual

/-- The JSON form of a type. -/
def toJson : DataType → Json
  | .leaf l o => .obj ([("kind", .str l.kindName)] ++ l.content ++ Json.flagMember "is_optional" o)
  | .list item o =>
      .obj ([("kind", .str "list"), ("of", item.toJson)] ++ Json.flagMember "is_optional" o)
  | .union members o =>
      .obj ([("kind", .str "union"), ("of", .arr (toJsonAll members))]
        ++ Json.flagMember "is_optional" o)

/-- The JSON forms of types. -/
def toJsonAll : List DataType → List Json
  | [] => []
  | t :: rest => t.toJson :: toJsonAll rest

end

end DataType

/-- The JSON form of a field. -/
def DataField.toJson (f : DataField) : Json :=
  .obj ([("name", .str f.name), ("type_info", f.type.toJson)]
    ++ Json.textMember "description" f.description? ++ Json.textMember "alias" f.alias?
    ++ Json.flagMember "skip" f.skip)

/-- The JSON form of an enum value. -/
def EnumMember.toJson (v : EnumMember) : Json :=
  .obj ([("name", .str v.name)] ++ Json.textMember "alias" v.alias?
    ++ Json.textMember "description" v.description? ++ Json.flagMember "skip" v.skip)

/-- The JSON form of a model. -/
def DataModel.toJson : DataModel → Json
  | .ofClass c =>
      .obj ([("model", .str "class"), ("name", .str c.name),
          ("properties", .arr (c.fields.map DataField.toJson))]
        ++ Json.textMember "description" c.description? ++ Json.textMember "alias" c.alias?)
  | .ofEnum e =>
      .obj ([("model", .str "enum"), ("name", .str e.name),
          ("values", .arr (e.values.map EnumMember.toJson))]
        ++ Json.textMember "description" e.description? ++ Json.textMember "alias" e.alias?)

end SchemaLoom
