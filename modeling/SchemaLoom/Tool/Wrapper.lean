import SchemaLoom.Json.Pointer
import SchemaLoom.Schema.Diagnostic
import SchemaLoom.Tool.Basic

set_option autoImplicit false

/-! # The schema that wraps a tool

A tool becomes the schema of an object with one or two required properties: its name as a
constant and, when it has a schema of arguments, that schema. The definitions of the arguments
move to the root of the wrapper, so references into them stay as they are; every other local
reference is moved to where the arguments now stand.
-/

namespace SchemaLoom

/-! ## Moving references -/

/-- Whether a pointer leads to or into a container of definitions. -/
def Pointer.isIntoDefinitions (pointer : List Char) : Bool :=
  match Text.pieces (· = '/') pointer with
  | [] :: container :: _ => Pointer.containers.contains (String.ofList container)
  | _ => false

/-- A local reference moved below a new home; references into definitions and references to other
documents stay as they are. -/
def Pointer.rebase (home : String) (reference : String) : String :=
  match reference.toList with
  | '#' :: pointer =>
      if Pointer.isIntoDefinitions pointer then reference else home ++ String.ofList pointer
  | _ => reference

mutual

/-- The schema with every reference in it moved below a new home. -/
def Json.rebase (home : String) : Json → Json
  | .arr items => .arr (rebaseItems home items)
  | .obj members => .obj (rebaseMembers home members)
  | other => other

/-- The items with every reference in them moved. -/
def Json.rebaseItems (home : String) : List Json → List Json
  | [] => []
  | item :: rest => item.rebase home :: rebaseItems home rest

/-- The members with every reference in them moved. -/
def Json.rebaseMembers (home : String) : List (String × Json) → List (String × Json)
  | [] => []
  | (key, value) :: rest =>
      (key, match key, value.string? with
        | "$ref", some reference => .str (Pointer.rebase home reference)
        | _, _ => value.rebase home) :: rebaseMembers home rest

end

/-! ## Hoisting definitions -/

/-- Moves the containers of definitions out of a schema, one after the other; what was moved comes
with the rest of the schema. -/
def hoistDefinitions : List String → Entries Json → Entries Json × Entries Json
  | [], schema => ([], schema)
  | container :: more, schema =>
      match Entries.swapErase? container schema with
      | some (definitions, rest) =>
          let (hoisted, rest) := hoistDefinitions more rest
          ((container, definitions) :: hoisted, rest)
      | none => hoistDefinitions more schema

namespace ToolAdapter

/-! ## The wrapper -/

/-- What is wrong with the keys of an adapter: both must be usable as field names, and they must
differ as such. -/
def fault? (adapter : ToolAdapter) : Option ConfigurationFault :=
  if Identifier.camel adapter.nameField = "" || Identifier.camel adapter.argsField = "" then
    some .unusableToolFields
  else if Identifier.camel adapter.nameField = Identifier.camel adapter.argsField then
    some (.sameToolFields adapter.nameField adapter.argsField)
  else none

/-- The schema of the property that tells the tool. -/
def discriminator (adapter : ToolAdapter) (tool : Tool) : Json :=
  .obj ([("type", .str "string"), ("const", .str (adapter.toolName tool))]
    ++ Json.textMember "description" tool.description?)

/-- The reference to the property of the arguments. -/
def argsHome (adapter : ToolAdapter) : String :=
  s!"{Pointer.root}/properties/{Pointer.escape adapter.argsField}"

/-- The definitions that are hoisted out of a schema of arguments, and the schema of the property
of the arguments. -/
def hoistedArgs (adapter : ToolAdapter) (tool : Tool) (input : Json) : Entries Json × Json :=
  -- The definitions are rebased with the rest, before they move.
  match input.rebase adapter.argsHome with
  | .obj schema =>
      let (hoisted, rest) := hoistDefinitions Pointer.containers schema
      (hoisted, .obj (Entries.insert "title" (.str (adapter.argsClass tool)) rest))
  | other => ([], other)

/-- The schema of an object with the given properties, all of them required. -/
def wrapperObject (hoisted : Entries Json) (properties : Entries Json) : Json :=
  .obj (hoisted ++
    [("type", .str "object"), ("properties", .obj properties),
      ("required", .arr (properties.map fun (key, _) => .str key))])

/-- The schema that wraps a tool. -/
def wrapper (adapter : ToolAdapter) (tool : Tool) : Except SchemaError Json :=
  match adapter.fault? with
  | some fault => .error (.configuration fault)
  | none =>
      let first := (adapter.nameField, adapter.discriminator tool)
      match tool.inputSchema? with
      | none => .ok (wrapperObject [] [first])
      | some input =>
          let (hoisted, args) := adapter.hoistedArgs tool input
          .ok (wrapperObject hoisted [first, (adapter.argsField, args)])

end ToolAdapter

end SchemaLoom
