import SchemaLoom.Identifier
import SchemaLoom.Json.Reading

set_option autoImplicit false

/-! # Tools and how they become classes

A tool has a name, maybe a description, and maybe a schema of its arguments. An adapter says how a
tool is written as an object: under which keys its name and its arguments stand, and what the
object, the arguments and the tool itself are called.
-/

namespace SchemaLoom

/-- A tool of a tool list. -/
structure Tool where
  name : String
  description? : Option String := none
  inputSchema? : Option Json := none

/-- The JSON form of a tool. -/
def Tool.toJson (tool : Tool) : Json :=
  .obj ([("name", .str tool.name)] ++ Json.textMember "description" tool.description?
    ++ match tool.inputSchema? with
      | some schema => [("inputSchema", schema)]
      | none => [])

/-- How tools are written as objects. -/
structure ToolAdapter where
  /-- The key of the tool's name. -/
  nameField : String := "name"
  /-- The key of the tool's arguments. -/
  argsField : String := "arguments"
  /-- The value under the key of the name. -/
  toolName : Tool → String := fun tool => tool.name
  /-- The name of the object's class. -/
  toolClass : Tool → String := fun tool => Identifier.pascal tool.name ++ "Tool"
  /-- The title of the arguments. -/
  argsClass : Tool → String := fun tool => Identifier.pascal tool.name ++ "Arguments"

/-- The keys of an adapter, on one line. -/
def ToolAdapter.summary (adapter : ToolAdapter) : String :=
  "ToolAdapterConfig \x7b tool_name_field: " ++ Text.shown adapter.nameField
    ++ ", tool_args_field: " ++ Text.shown adapter.argsField ++ ", .. \x7d"

/-- The class that lets one or several tools be picked. -/
structure ToolSelection where
  /-- The key of what is picked. -/
  toolsField : String := "intents"
  canSelectMany : Bool := true
  className : String := "NextSteps"
  deriving DecidableEq, Repr

/-- The JSON form of a selection. -/
def ToolSelection.toJson (s : ToolSelection) : Json :=
  .obj [("tools_field", .str s.toolsField), ("can_select_many", .bool s.canSelectMany),
    ("class_name", .str s.className)]

/-- The settings that a file may hold. -/
structure ToolSettings where
  nameField : String := "name"
  argsField : String := "arguments"
  selection : ToolSelection := {}
  deriving DecidableEq, Repr

/-- The JSON form of settings. -/
def ToolSettings.toJson (s : ToolSettings) : Json :=
  .obj [("tool_name_field", .str s.nameField), ("tool_args_field", .str s.argsField),
    ("selection", s.selection.toJson)]

/-- The adapter with the keys of settings. -/
def ToolSettings.adapter (s : ToolSettings) : ToolAdapter :=
  { nameField := s.nameField, argsField := s.argsField }

end SchemaLoom
