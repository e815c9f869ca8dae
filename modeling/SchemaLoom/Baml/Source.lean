import SchemaLoom.Baml.RawString
import SchemaLoom.Json.Printer
import SchemaLoom.Model.Basic
import SchemaLoom.Schema.Diagnostic

set_option autoImplicit false

/-! # BAML source

A class becomes a block with a line for each field, an enum one with a line for each value; blocks
are separated by a blank line. Descriptions are raw strings, aliases and literals are quoted like
JSON strings. Skipped fields are left out, skipped values are marked.

The type `any` has no spelling and is written as a string. Both losses are warned about, in the
order of the source.
-/

namespace SchemaLoom.Baml

/-! ## Types -/

/-- A leaf as it is written. -/
def leafSource : Leaf → List Char
  | .string | .any => "str".toList
  | .int => "int".toList
  | .float => "float".toList
  | .bool => "bool".toList
  | .null => "null".toList
  | .literalString text => Json.quotedChars text.toList
  | .literalInt value => JsonNumber.intText value
  | .literalBool true => "true".toList
  | .literalBool false => "false".toList
  | .classRef name | .enumRef name => name.toList

/-- The text in parentheses. -/
def parenthesized (text : List Char) : List Char := '(' :: text ++ [')']

/-- The text of an optional type: marked, `null` excepted, which may be absent anyway. -/
def marked (type : DataType) (text : List Char) : List Char :=
  if type.isOptional && !type.isNull then
    (if type.isUnion then parenthesized text else text) ++ ['?']
  else text

/-- The text of an item type in front of brackets: a union and an optional type are set in
parentheses. -/
def grouped (item : DataType) (text : List Char) : List Char :=
  if (item.isUnion && !item.isOptional) || (item.isOptional && !item.isNull) then
    parenthesized text
  else text

/-- The alternatives of a union. -/
def alternatives (texts : List (List Char)) : List Char := " | ".toList.intercalate texts

mutual

/-- A type as it is written, with the warnings that writing it gives. -/
def typeSource (context : String) : DataType → List Char × List Warning
  | .leaf l o =>
      (marked (.leaf l o) (leafSource l), if l = .any then [.anyType context] else [])
  | .list item o =>
      let (text, warnings) := typeSource context item
      (marked (.list item o) (grouped item text ++ ['[', ']']), warnings)
  | .union members o =>
      let (texts, warnings) := typeSources context members
      (marked (.union members o) (alternatives texts), warnings)

/-- The types as they are written, with the warnings that writing them gives. -/
def typeSources (context : String) : List DataType → List (List Char) × List Warning
  | [] => ([], [])
  | type :: rest =>
      let (text, warnings) := typeSource context type
      let (texts, more) := typeSources context rest
      (text :: texts, warnings ++ more)

end

/-! ## Blocks -/

/-- An attribute with a description, none when it is absent. -/
def descriptionSource (lead : List Char) : Option String → List Char
  | some text => lead ++ "description(".toList ++ Baml.rawString text.toList ++ [')']
  | none => []

/-- An attribute with an alias, none when it is absent. -/
def aliasSource (lead : List Char) : Option String → List Char
  | some text => lead ++ "alias(".toList ++ Json.quotedChars text.toList ++ [')']
  | none => []

/-- A line of a block. -/
def line (text : List Char) : List Char := ' ' :: ' ' :: text ++ ['\n']

/-- An attribute of a block on a line of its own, none when it is absent. -/
def attributeLine (text : List Char) : List Char := if text.isEmpty then [] else line text

/-- The attributes at the end of a block. -/
def blockAttributes (description? alias? : Option String) : List Char :=
  attributeLine (descriptionSource ['@', '@'] description?)
    ++ attributeLine (aliasSource ['@', '@'] alias?)

/-- A block of a kind with a name. -/
def block (kind : String) (name : String) (body : List Char) : List Char :=
  kind.toList ++ ' ' :: name.toList ++ ' ' :: '\x7b' :: '\n' :: body ++ ['\x7d', '\n']

/-- The line of a field that is not skipped. -/
def fieldLine (className : String) (field : DataField) : List Char × List Warning :=
  let (type, warnings) := typeSource s!"{className}.{field.name}" field.type
  (line (field.name.toList ++ ' ' :: type ++ descriptionSource [' ', '@'] field.description?
    ++ aliasSource [' ', '@'] field.alias?), warnings)

/-- The lines of fields. -/
def fieldLines (className : String) : List DataField → List Char × List Warning
  | [] => ([], [])
  | field :: rest =>
      let (text, warnings) :=
        if field.skip then ([], [.skippedField className field.name])
        else fieldLine className field
      let (texts, more) := fieldLines className rest
      (text ++ texts, warnings ++ more)

/-- The line of an enum value. -/
def valueLine (value : EnumMember) : List Char :=
  line (value.name.toList ++ aliasSource [' ', '@'] value.alias?
    ++ descriptionSource [' ', '@'] value.description?
    ++ if value.skip then " @skip".toList else [])

/-- The block of a model. -/
def modelSource : DataModel → List Char × List Warning
  | .ofClass c =>
      let (lines, warnings) := fieldLines c.name c.fields
      (block "class" c.name (lines ++ blockAttributes c.description? c.alias?), warnings)
  | .ofEnum e =>
      (block "enum" e.name
        (e.values.flatMap valueLine ++ blockAttributes e.description? e.alias?), [])

/-! ## Pages -/

/-- Blocks written one after the other, with the warnings so far. -/
structure Page where
  blocks : List (List Char) := []
  warnings : List Warning := []

namespace Page

/-- Adds the block of a model. -/
def add (page : Page) (model : DataModel) : Page :=
  let (text, warnings) := modelSource model
  ⟨page.blocks ++ [text], page.warnings ++ warnings⟩

/-- Adds the blocks of models. -/
def addAll (page : Page) (models : List DataModel) : Page := models.foldl add page

/-- Writes a type; the page keeps the warnings. -/
def writeType (page : Page) (context : String) (type : DataType) : String × Page :=
  let (text, warnings) := typeSource context type
  (String.ofList text, { page with warnings := page.warnings ++ warnings })

/-- The blocks, separated by blank lines. -/
def text (page : Page) : String := String.ofList (['\n'].intercalate page.blocks)

end Page

/-- The page of models. -/
def render (models : List DataModel) : Page := Page.addAll {} models

end SchemaLoom.Baml
