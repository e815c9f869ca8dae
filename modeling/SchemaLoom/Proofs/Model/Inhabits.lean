import SchemaLoom.Model.Basic

set_option autoImplicit false

/-! # Values of a data type

What a type means over a list of models. Classes and enums are meant by name: a value of a
reference is a value of some model of that kind and name. A field stands for the key it is an alias
of, or else for its own name, and an enum value likewise for a text; keys for which a class has no
field are free.
-/

namespace SchemaLoom

/-- The key of an object that the field stands for. -/
def DataField.wireName (field : DataField) : String := field.alias?.getD field.name

/-- The text that the enum value stands for. -/
def EnumMember.wireName (member : EnumMember) : String := member.alias?.getD member.name

/-- The values of a type that neither has parts nor names a model. -/
def Leaf.Admits : Leaf → Json → Prop
  | .string, value => ∃ text, value = .str text
  | .int, value => ∃ n, value = .num (.int n)
  | .float, value => ∃ n, value = .num n
  | .bool, value => ∃ b, value = .bool b
  | .null, value => value = .null
  | .any, _ => True
  | .literalString text, value => value = .str text
  | .literalInt n, value => value = .num (.int n)
  | .literalBool b, value => value = .bool b
  | .classRef _, _ | .enumRef _, _ => False

/-- A value inhabits a type over models. -/
inductive Inhabits (models : List DataModel) : DataType → Json → Prop where
  | absent {type : DataType} (optional : type.isOptional = true) : Inhabits models type .null
  | leaf {leaf : Leaf} {o : Bool} {value : Json} (admits : leaf.Admits value) :
      Inhabits models (.leaf leaf o) value
  | enumRef {name : String} {o : Bool} {e : DataEnum} {member : EnumMember}
      (there : .ofEnum e ∈ models) (named : e.name = name) (mem : member ∈ e.values) :
      Inhabits models (.leaf (.enumRef name) o) (.str member.wireName)
  /-- Fields that are present inhabit their types and are not skipped; the others are optional. -/
  | classRef {name : String} {o : Bool} {c : DataClass} {members : Entries Json}
      (there : .ofClass c ∈ models) (named : c.name = name)
      (taken : ∀ field ∈ c.fields, Entries.contains field.wireName members → field.skip = false)
      (present : ∀ field ∈ c.fields, ∀ value,
        Entries.get? field.wireName members = some value → Inhabits models field.type value)
      (missing : ∀ field ∈ c.fields, Entries.get? field.wireName members = none →
        field.type.isOptional = true) :
      Inhabits models (.leaf (.classRef name) o) (.obj members)
  | list {item : DataType} {o : Bool} {items : List Json}
      (each : ∀ value ∈ items, Inhabits models item value) :
      Inhabits models (.list item o) (.arr items)
  | union {types : List DataType} {o : Bool} {type : DataType} {value : Json}
      (mem : type ∈ types) (inhabits : Inhabits models type value) :
      Inhabits models (.union types o) value

namespace Inhabits

variable {models : List DataModel} {type : DataType} {value : Json}

/-- An optional type admits whatever the type does. -/
theorem withOptional (h : Inhabits models type value) (o : Bool) :
    Inhabits models (type.withOptional o) value := by
  cases h with
  | absent optional => exact .absent (by simp [optional])
  | leaf admits => exact .leaf admits
  | enumRef there named mem => exact .enumRef there named mem
  | classRef there named taken present missing => exact .classRef there named taken present missing
  | list each => exact .list each
  | union mem inhabits => exact .union mem inhabits

/-- The type of `null` has no other value. -/
theorem eq_null (h : Inhabits models type value) (isNull : type.isNull = true) :
    value = .null := by
  cases h with
  | absent => rfl
  | leaf admits =>
      rename_i l o
      cases l <;> first | exact admits | cases isNull
  | enumRef | classRef | list | union => cases isNull

end Inhabits

end SchemaLoom
