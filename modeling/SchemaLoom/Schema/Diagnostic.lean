import SchemaLoom.Json.Reading
import SchemaLoom.Schema.Shape

set_option autoImplicit false

/-! # Warnings and errors

A warning never stops a conversion: it says where the data model is weaker than the schema. An
error does: there is no data model then.
-/

namespace SchemaLoom

/-- Where a data model tells less than its source. -/
inductive Warning where
  /-- A model without a usable name got one. -/
  | anonymousName (name : String)
  /-- Further properties that the schema allows are not part of the class. -/
  | additionalProperties (path : String)
  /-- A reference into an object that is still being converted was answered by its name. -/
  | unresolvedCycle (name reference : String)
  | skippedField (owner field : String)
  | anyType (context : String)
  | nonIntegerConst (path value : String)
  /-- Two different models have one name. -/
  | nameReused (name : String)
  deriving DecidableEq, Repr

/-- The wording of a warning. -/
def Warning.message : Warning → String
  | anonymousName name => s!"Assigning anonymous name '{name}'"
  | additionalProperties path => s!"Schema at '{path}' uses 'additionalProperties: true'"
  | unresolvedCycle name reference =>
      s!"Could not find BamlClassModel '{name}' to cache for $ref '{reference}'"
  | skippedField owner field =>
      s!"Property '{field}' in class '{owner}' was marked as skip and is omitted"
  | anyType context =>
      s!"Type 'any' at '{context}' has no direct equivalent; mapping to string"
  | nonIntegerConst path value =>
      s!"Const {value} at '{path}' has no literal form; mapping to float"
  | nameReused name => s!"Name '{name}' is used by more than one distinct model"

/-- What in a schema has no data model. -/
inductive SchemaFault where
  | shape (fault : ShapeFault)
  | propertiesNotObject
  | propertyUnnamed (key : String)
  | enumLiteralNotScalar (found : Json)
  | enumLiteralUnnamed (text : String)
  | constNotScalar (found : Json)
  /-- A circle of references that no object interrupts. -/
  | endlessCycle

/-- The wording of a fault. -/
def SchemaFault.message : SchemaFault → String
  | shape fault => fault.message
  | propertiesNotObject => "'properties' must be an object"
  | propertyUnnamed key => s!"property '{key}' has no identifier characters"
  | enumLiteralNotScalar found => s!"enum literal `{found.compact}` is not a scalar"
  | enumLiteralUnnamed text => s!"enum literal '{text}' has no identifier characters"
  | constNotScalar found => s!"const `{found.compact}` is not a scalar"
  | endlessCycle => "$ref cycle through a schema that is not an object"

/-- What is wrong with the settings of a conversion. -/
inductive ConfigurationFault where
  | unusableToolFields
  | sameToolFields (nameField argsField : String)
  | missingTools
  | noTools
  | unusableToolsField (field : String)
  deriving DecidableEq, Repr

/-- The wording of a fault. -/
def ConfigurationFault.message : ConfigurationFault → String
  | unusableToolFields => "tool field names must contain identifier characters"
  | sameToolFields nameField argsField =>
      s!"tool_name_field '{nameField}' and tool_args_field '{argsField}' name the same field"
  | missingTools => "tool list document has no 'tools' key"
  | noTools => "tool selection needs at least one tool"
  | unusableToolsField field => s!"tools_field '{field}' is not a usable name"

/-- Why a conversion has no result. -/
inductive SchemaError where
  /-- A reference points at nothing. -/
  | unresolvedReference (reference path : String)
  /-- Two names become one identifier. -/
  | namingCollision (owner identifier first second : String)
  | unsupported (path : String) (fault : SchemaFault)
  | configuration (fault : ConfigurationFault)
  | invalidToolList (fault : ReadError)
  /-- The conversion was cut off. Its bound is never reached. -/
  | unfinished

/-- Where in the tool list something is wrong. -/
def toolListPlace (place : Place) : String :=
  match place with
  | [] => "tools"
  | step :: _ => "tools" ++ (if step.takesPoint then "." else "") ++ place.text

/-- The wording of an error. -/
def SchemaError.message : SchemaError → String
  | unresolvedReference reference path => s!"unresolved $ref '{reference}' at '{path}'"
  | namingCollision owner identifier first second =>
      s!"naming collision in '{owner}': '{first}' and '{second}' both map to '{identifier}'"
  | unsupported path fault => s!"unsupported schema at '{path}': {fault.message}"
  | configuration fault => s!"configuration error: {fault.message}"
  | invalidToolList fault =>
      s!"invalid tool list: {toolListPlace fault.place}: {fault.cause.message}"
  | unfinished => "conversion did not finish"

end SchemaLoom
