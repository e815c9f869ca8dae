import SchemaLoom.Json.Printer
import SchemaLoom.Model.DataType

set_option autoImplicit false

/-! # The shape of a schema

Before a schema is converted, one question is settled for it alone: which of a closed set of
shapes it has. The keys are asked in a fixed order, so a schema that mixes several has the shape
of the first: a reference, then `allOf`, `anyOf` and `oneOf` where neither a type nor properties
are given, then a constant, then the type.
-/

namespace SchemaLoom

/-- A type of plain values. -/
inductive Scalar where
  | string
  | int
  | float
  | bool
  deriving DecidableEq, Repr

namespace Scalar

/-- The scalar that a type name means. -/
def ofTypeName? (name : String) : Option Scalar :=
  if name = "string" || name = "str" then some .string
  else if name = "integer" || name = "int" then some .int
  else if name = "number" || name = "float" then some .float
  else if name = "boolean" || name = "bool" then some .bool
  else none

/-- The data type of a scalar. -/
def dataType : Scalar → DataType
  | string => .of .string
  | int => .of .int
  | float => .of .float
  | bool => .of .bool

end Scalar

/-- The two keys that list alternatives. -/
inductive UnionKeyword where
  | anyOf
  | oneOf
  deriving DecidableEq, Repr

/-- The key itself. -/
def UnionKeyword.text : UnionKeyword → String
  | anyOf => "anyOf"
  | oneOf => "oneOf"

/-- What a schema is. -/
inductive Shape where
  /-- The schema `false`: no value fits. -/
  | never
  | any
  | null
  /-- A reference to another part of the document. -/
  | ref (reference : String)
  /-- The only member of an `allOf`. -/
  | single (member : Json)
  | union (keyword : UnionKeyword) (members : List Json)
  | const (value : Json)
  | enum (values : List Json)
  /-- An object; it comes with the members of the schema itself. -/
  | object (schema : Entries Json)
  | array (items : Option Json)
  | scalar (scalar : Scalar)
  | scalarUnion (scalars : List Scalar)

/-- A shape, and whether a list of types names `null` besides it. -/
structure Classified where
  shape : Shape
  nullable : Bool

/-- Why a schema has no shape. -/
inductive ShapeFault where
  /-- A schema is an object or a boolean. -/
  | notSchema (found : Json)
  | referenceNotString
  /-- Only an `allOf` of one member is understood. -/
  | severalAllOf
  | unionNotArray (keyword : UnionKeyword)
  | typeNotText (found : Json)
  | typeEntryNotString (found : Json)
  | typeUnknown (name : String)
  /-- Only scalars may stand together in a list of types. -/
  | typeNotListable (name : String)

/-- The wording of a fault. -/
def ShapeFault.message : ShapeFault → String
  | notSchema found => s!"expected a schema object, found `{found.compact}`"
  | referenceNotString => "'$ref' must be a string"
  | severalAllOf => "'allOf' with more than one member is not supported"
  | unionNotArray keyword => s!"'{keyword.text}' must be an array"
  | typeNotText found => s!"'type' must be a string or array, found `{found.compact}`"
  | typeEntryNotString found => s!"'type' entries must be strings, found `{found.compact}`"
  | typeUnknown name => s!"unknown type '{name}'"
  | typeNotListable name => s!"type '{name}' cannot appear in a type list"

namespace Shape

/-- The shape of a schema of a named type. An enumeration counts for strings only, and not where
`ignoreEnum` is set. -/
def ofTypeName (name : String) (schema : Entries Json) (ignoreEnum : Bool) :
    Except ShapeFault Shape :=
  match Scalar.ofTypeName? name with
  | some s =>
      match s, ignoreEnum, Entries.get? "enum" schema with
      | .string, false, some (.arr values) => .ok (.enum values)
      | _, _, _ => .ok (.scalar s)
  | none =>
      if name = "object" then .ok (.object schema)
      else if name = "array" then .ok (.array (Entries.get? "items" schema))
      else if name = "null" then .ok .null
      else .error (.typeUnknown name)

/-- The shape of a schema without a type: an object if it has properties, else an array if it has
items, else an enumeration of strings and `null`. -/
def untyped (schema : Entries Json) : Shape :=
  if Entries.contains "properties" schema then .object schema
  else if Entries.contains "items" schema then .array (Entries.get? "items" schema)
  else match Entries.get? "enum" schema with
    | some (.arr values) =>
        if values.all fun value => value.isString || value.isNull then .enum values else .any
    | _ => .any

/-- The names in a list of types. -/
def typeNames : List Json → Except ShapeFault (List String)
  | [] => .ok []
  | .str name :: rest => return name :: (← typeNames rest)
  | found :: _ => .error (.typeEntryNotString found)

/-- The scalars that type names mean. -/
def scalars : List String → Except ShapeFault (List Scalar)
  | [] => .ok []
  | name :: rest =>
      match Scalar.ofTypeName? name with
      | some s => return s :: (← scalars rest)
      | none => .error (.typeNotListable name)

/-- The shape of a schema with a list of types. The type `null` makes it nullable; of what
remains, one type is that type, and several are a union of scalars. -/
def ofTypeList (entries : List Json) (schema : Entries Json) : Except ShapeFault Classified := do
  let names ← typeNames entries
  let nullable := names.contains "null"
  match names.filter (· ≠ "null") with
  | [] => return ⟨.null, nullable⟩
  | [name] => return ⟨← ofTypeName name schema nullable, nullable⟩
  | several => return ⟨.scalarUnion (← scalars several), nullable⟩

/-- The shape of a schema whose type decides. -/
def ofType (schema : Entries Json) : Except ShapeFault Classified :=
  match Entries.get? "type" schema with
  | none => .ok ⟨untyped schema, false⟩
  | some (.str name) => return ⟨← ofTypeName name schema false, false⟩
  | some (.arr entries) => ofTypeList entries schema
  | some found => .error (.typeNotText found)

/-- The shape of a schema that lists alternatives, `none` for any other. -/
def alternatives? (schema : Entries Json) : Except ShapeFault (Option Shape) :=
  match Entries.get? "allOf" schema with
  | some (.arr [member]) => .ok (some (.single member))
  | some (.arr _) => .error .severalAllOf
  | _ =>
      match Entries.get? "anyOf" schema, Entries.get? "oneOf" schema with
      | some (.arr members), _ => .ok (some (.union .anyOf members))
      | some _, _ => .error (.unionNotArray .anyOf)
      | none, some (.arr members) => .ok (some (.union .oneOf members))
      | none, some _ => .error (.unionNotArray .oneOf)
      | none, none => .ok none

/-- The shape of a schema that is no reference and lists no alternatives. -/
def ofConstOrType (schema : Entries Json) : Except ShapeFault Classified :=
  match Entries.get? "const" schema with
  | some value => .ok ⟨.const value, false⟩
  | none => ofType schema

/-- Whether a schema says by a type or by properties what it is. -/
def isTyped (schema : Entries Json) : Bool :=
  Entries.contains "type" schema || Entries.contains "properties" schema

/-- The shape of a schema object. -/
def ofObject (schema : Entries Json) : Except ShapeFault Classified :=
  match Entries.get? "$ref" schema with
  | some (.str reference) => .ok ⟨.ref reference, false⟩
  | some _ => .error .referenceNotString
  | none =>
      if isTyped schema then ofConstOrType schema
      else do
        match ← alternatives? schema with
        | some shape => return ⟨shape, false⟩
        | none => ofConstOrType schema

end Shape

/-- The shape of a schema, or why it has none. -/
def classify : Json → Except ShapeFault Classified
  | .bool true => .ok ⟨.any, false⟩
  | .bool false => .ok ⟨.never, false⟩
  | .obj schema => Shape.ofObject schema
  | found => .error (.notSchema found)

end SchemaLoom
