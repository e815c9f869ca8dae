import SchemaLoom.Schema.Convert
import SchemaLoom.Tool.Reading
import SchemaLoom.Tool.Wrapper

set_option autoImplicit false

/-! # From tools to data models

Every tool is converted through the schema that wraps it. The models of a list of tools are those
of the tools one after the other; the list also yields the type of each tool.
-/

namespace SchemaLoom

/-- What a list of tools yields: the models, the type of each tool, and the warnings. -/
structure ToolSet where
  models : List DataModel := []
  tools : List DataType := []
  warnings : List Warning := []

namespace ToolAdapter

/-- Converts a tool. -/
def convertTool (adapter : ToolAdapter) (tool : Tool) : Except SchemaError Conversion := do
  convert (← adapter.wrapper tool) (adapter.toolClass tool)

/-- Converts tools one after the other. -/
def convertTools (adapter : ToolAdapter) : List Tool → Except SchemaError ToolSet
  | [] => .ok {}
  | tool :: rest => do
      let conversion ← adapter.convertTool tool
      let set ← adapter.convertTools rest
      return ⟨conversion.models ++ set.models, conversion.root :: set.tools,
        conversion.warnings ++ set.warnings⟩

/-- The tools of a document, which stand under the key `tools`. -/
def toolsOf (document : Json) : Except SchemaError (List Tool) :=
  match document.get? "tools" with
  | none => .error (.configuration .missingTools)
  | some value =>
      match Tool.listReader.ofValue value with
      | .ok tools => .ok tools
      | .error e => .error (.invalidToolList e)

/-- Converts the tools of a document. -/
def convertDocument (adapter : ToolAdapter) (document : Json) : Except SchemaError ToolSet := do
  adapter.convertTools (← toolsOf document)

end ToolAdapter

namespace ToolSelection

/-- The type of a choice: the union of the tools, or a list of it when several may be picked. -/
def choiceType (s : ToolSelection) (tools : List DataType) : Except SchemaError DataType :=
  let wrapped := fun (choice : DataType) =>
    if s.canSelectMany then DataType.listOf choice else choice
  match tools with
  | [] => .error (.configuration .noTools)
  | [only] => .ok (wrapped only)
  | several => .ok (wrapped (.unionOf several))

/-- The class of a choice. -/
def choiceClass (s : ToolSelection) (tools : List DataType) : Except SchemaError DataClass := do
  let field := Identifier.resolve .camel s.toolsField
  if field.identifier = "" then throw (.configuration (.unusableToolsField s.toolsField))
  let name := Identifier.resolve .pascal s.className
  let type ← s.choiceType tools
  return {
    name := name.identifier, alias? := name.alias?,
    fields := [{ name := field.identifier, type := type, alias? := field.alias? }] }

/-- The question that stands in front of the description of the answer. -/
def question (s : ToolSelection) (idField : String) : String :=
  let howMany := if s.canSelectMany then "one or multiple" else "one"
  "What are the next steps?\n\n"
    ++ s!"Answer in JSON format with {howMany} of the following {idField}s\n\n"

end ToolSelection

end SchemaLoom
