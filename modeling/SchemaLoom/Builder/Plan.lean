import SchemaLoom.Builder.FieldType

set_option autoImplicit false

/-! # Plans for a builder

A plan is the list of commands that build the types of a model list. It is made without a builder:
a reference to a class or an enum is a name, so the commands need no particular order among the
models.
-/

namespace SchemaLoom

/-- A command to a builder of types. -/
inductive BuildCommand where
  | addClass (name : String)
  | classDescription (owner text : String)
  | classAlias (owner text : String)
  | addProperty (owner name : String) (type : FieldType)
  | propertyDescription (owner property text : String)
  | propertyAlias (owner property text : String)
  | addEnum (name : String)
  | enumDescription (name text : String)
  | enumAlias (name text : String)
  | addValue (enum value : String)
  | valueDescription (enum value text : String)
  | valueAlias (enum value text : String)
  | valueSkip (enum value : String)
  deriving Repr

namespace BuildCommand

/-- A command by name with its texts. -/
def textsJson (op : String) (texts : List (String × String)) : Json :=
  .obj (("op", .str op) :: texts.map fun (key, text) => (key, .str text))

/-- The JSON form of a command. -/
def toJson : BuildCommand → Json
  | addClass name => textsJson "add_class" [("name", name)]
  | classDescription owner text =>
      textsJson "class_description" [("class", owner), ("text", text)]
  | classAlias owner text => textsJson "class_alias" [("class", owner), ("alias", text)]
  | addProperty owner name type =>
      .obj [("op", .str "add_property"), ("class", .str owner), ("name", .str name),
        ("ty", type.toJson)]
  | propertyDescription owner property text =>
      textsJson "property_description" [("class", owner), ("property", property), ("text", text)]
  | propertyAlias owner property text =>
      textsJson "property_alias" [("class", owner), ("property", property), ("alias", text)]
  | addEnum name => textsJson "add_enum" [("name", name)]
  | enumDescription name text => textsJson "enum_description" [("name", name), ("text", text)]
  | enumAlias name text => textsJson "enum_alias" [("name", name), ("alias", text)]
  | addValue enum value => textsJson "add_value" [("enum_name", enum), ("value", value)]
  | valueDescription enum value text =>
      textsJson "value_description" [("enum_name", enum), ("value", value), ("text", text)]
  | valueAlias enum value text =>
      textsJson "value_alias" [("enum_name", enum), ("value", value), ("alias", text)]
  | valueSkip enum value => textsJson "value_skip" [("enum_name", enum), ("value", value)]

end BuildCommand

/-- Commands in order, with the warnings of planning them. -/
structure Plan where
  commands : List BuildCommand := []
  warnings : List Warning := []

namespace Plan

/-- The command for an optional text, none when it is absent. -/
def forText (command : String → BuildCommand) : Option String → List BuildCommand
  | some text => [command text]
  | none => []

/-- The commands for a field that is not skipped. -/
def ofField (owner : String) (field : DataField) : Plan :=
  let (type, warnings) := FieldType.ofDataType s!"{owner}.{field.name}" field.type
  ⟨.addProperty owner field.name type
      :: forText (.propertyDescription owner field.name) field.description?
      ++ forText (.propertyAlias owner field.name) field.alias?, warnings⟩

/-- The commands for fields; a skipped field gives a warning instead. -/
def ofFields (owner : String) : List DataField → Plan
  | [] => {}
  | field :: rest =>
      let plan :=
        if field.skip then ⟨[], [.skippedField owner field.name]⟩ else ofField owner field
      let more := ofFields owner rest
      ⟨plan.commands ++ more.commands, plan.warnings ++ more.warnings⟩

/-- The commands for an enum value. -/
def ofValue (enum : String) (value : EnumMember) : List BuildCommand :=
  .addValue enum value.name
    :: (if value.skip then [.valueSkip enum value.name] else [])
    ++ forText (.valueDescription enum value.name) value.description?
    ++ forText (.valueAlias enum value.name) value.alias?

/-- The commands for a model: the type itself, its texts, and its parts. -/
def ofModel : DataModel → Plan
  | .ofClass c =>
      let fields := ofFields c.name c.fields
      ⟨.addClass c.name :: forText (.classDescription c.name) c.description?
          ++ forText (.classAlias c.name) c.alias? ++ fields.commands, fields.warnings⟩
  | .ofEnum e =>
      ⟨.addEnum e.name :: forText (.enumDescription e.name) e.description?
          ++ forText (.enumAlias e.name) e.alias? ++ e.values.flatMap (ofValue e.name), []⟩

/-- The commands for models in order. -/
def ofModels : List DataModel → Plan
  | [] => {}
  | m :: rest =>
      let plan := ofModel m
      let more := ofModels rest
      ⟨plan.commands ++ more.commands, plan.warnings ++ more.warnings⟩

end Plan

end SchemaLoom
