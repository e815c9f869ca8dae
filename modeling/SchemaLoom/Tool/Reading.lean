import SchemaLoom.Tool.Basic

set_option autoImplicit false

/-! # Reading tools and settings

A tool may carry further keys, which are passed over; the schema of its arguments goes by two
names. Settings know their keys: any other is refused, an absent one keeps its default.
-/

namespace SchemaLoom

/-- How a tool is read. -/
def Tool.layout : Layout Tool where
  name := "ToolDescriptor"
  skipsUnknown := true
  initial := ⟨"", none, none⟩
  fields :=
    [ { name := "name", required := true
        read := fun place draft => do
          let text ← Reader.string place draft
          return fun tool => { tool with name := text } },
      { name := "description"
        read := fun place draft => do
          let text? ← Reader.optional Reader.string place draft
          return fun tool => { tool with description? := text? } },
      { name := "inputSchema", aliases := ["input_schema"]
        read := fun place draft => do
          let schema? ← Reader.optional Reader.json place draft
          return fun tool => { tool with inputSchema? := schema? } } ]

/-- Reads a tool. -/
def Tool.reader : Reader Tool := Tool.layout.reader

/-- Reads a list of tools. -/
def Tool.listReader : Reader (List Tool) := Reader.list Tool.reader

/-- How a selection is read. -/
def ToolSelection.layout : Layout ToolSelection where
  name := "ToolSelection"
  skipsUnknown := false
  initial := {}
  fields :=
    [ { name := "tools_field"
        read := fun place draft => do
          let text ← Reader.string place draft
          return fun s => { s with toolsField := text } },
      { name := "can_select_many"
        read := fun place draft => do
          let flag ← Reader.bool place draft
          return fun s => { s with canSelectMany := flag } },
      { name := "class_name"
        read := fun place draft => do
          let text ← Reader.string place draft
          return fun s => { s with className := text } } ]

/-- Reads a selection. -/
def ToolSelection.reader : Reader ToolSelection := ToolSelection.layout.reader

/-- How settings are read. -/
def ToolSettings.layout : Layout ToolSettings where
  name := "ToolAdapterSettings"
  skipsUnknown := false
  initial := {}
  fields :=
    [ { name := "tool_name_field"
        read := fun place draft => do
          let text ← Reader.string place draft
          return fun s => { s with nameField := text } },
      { name := "tool_args_field"
        read := fun place draft => do
          let text ← Reader.string place draft
          return fun s => { s with argsField := text } },
      { name := "selection"
        read := fun place draft => do
          let selection ← ToolSelection.reader place draft
          return fun s => { s with selection := selection } } ]

/-- Reads settings. -/
def ToolSettings.reader : Reader ToolSettings := ToolSettings.layout.reader

end SchemaLoom
