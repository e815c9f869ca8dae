import SchemaLoom.Identifier
import SchemaLoom.Json.Pointer
import SchemaLoom.Model.Basic
import SchemaLoom.Schema.Diagnostic

set_option autoImplicit false

/-! # From a schema to data models

A schema document is walked once: first every definition, then the document itself. Each node
gives a type; objects and enumerations give a model besides, and their type is a reference to it.

* A model takes the place in the list that it had when its node was first reached, so a class
  stands before the models of its fields.
* A reference is expanded at its first occurrence and remembered; the pass over the definitions
  remembers nothing, so a definition that is also referenced gives its model twice.
* A reference into an object that is still being converted is answered by the name of its class.
  Any other reference to a node that is still being converted is an error.

The walk is bounded: between two expansions it descends in the document, and a reference is never
expanded inside its own expansion. The steps of the walk take the walk of a part as an argument
(`visit`) and do not recurse themselves; `walk` ties the knot.
-/

namespace SchemaLoom

/-- What a conversion yields: the models in order, repetitions included, the type of the document
itself, and the warnings in order. -/
structure Conversion where
  models : List DataModel
  root : DataType
  warnings : List Warning

/-! ## The state of the walk -/

/-- A node's place: the reference to it, a name to fall back on, and whether it is the document
itself. -/
structure Site where
  path : String
  hint : Option String
  isRoot : Bool

namespace Site

/-- The document itself. -/
def root : Site := ⟨Pointer.root, none, true⟩

/-- The node that a reference points at, named after its last segment. -/
def ofReference (reference : String) : Site :=
  ⟨reference, Pointer.lastSegment? reference, false⟩

/-- A node below this one. -/
def child (site : Site) (segment : String) (hint : Option String) : Site :=
  ⟨s!"{site.path}/{segment}", hint, false⟩

end Site

/-- How far a walk has come. -/
structure Progress where
  models : List DataModel := []
  /-- The types of the references that have been expanded. -/
  known : Entries DataType := []
  /-- The references whose nodes are being converted. -/
  resolving : List String := []
  /-- The objects that are being converted, by path, with the names of their classes. -/
  building : Entries String := []
  /-- How many names have been made up. -/
  anonymous : Nat := 0
  warnings : List Warning := []

namespace Progress

/-- Adds a warning. -/
def warn (p : Progress) (warning : Warning) : Progress :=
  { p with warnings := p.warnings ++ [warning] }

/-- Marks a reference as being expanded. -/
def startResolving (p : Progress) (reference : String) : Progress :=
  { p with
    resolving := if reference ∈ p.resolving then p.resolving else reference :: p.resolving }

/-- Takes the mark of a reference off. -/
def stopResolving (p : Progress) (reference : String) : Progress :=
  { p with resolving := p.resolving.filter (· ≠ reference) }

/-- Marks an object as being converted into a class. -/
def startBuilding (p : Progress) (path name : String) : Progress :=
  { p with building := Entries.insert path name p.building }

/-- Takes the mark of an object off. -/
def stopBuilding (p : Progress) (path : String) : Progress :=
  { p with building := Entries.erase path p.building }

/-- Remembers the type of an expanded reference. -/
def remember (p : Progress) (reference : String) (type : DataType) : Progress :=
  { p with known := Entries.insert reference type p.known }

/-- Whether a model of the same kind and name differs from the given one. -/
def clashes (p : Progress) (model : DataModel) : Bool :=
  p.models.any fun m => m.key = model.key && m ≠ model

/-- Puts a model into a place of the list. -/
def place (p : Progress) (slot : Nat) (model : DataModel) : Progress :=
  let warned := if p.clashes model then p.warn (.nameReused model.name) else p
  { warned with models := warned.models.insertIdx slot model }

/-- A new name, made from a stem and a number. -/
def freshName (p : Progress) (stem : String) : String := s!"{stem}{p.anonymous + 1}"

/-- The progress after a new name has been given. -/
def countName (p : Progress) (stem : String) : Progress :=
  { p with anonymous := p.anonymous + 1 }.warn (.anonymousName (p.freshName stem))

end Progress

/-- A step of the walk. -/
abbrev Walk := StateT Progress (Except SchemaError)

/-- The walk of a node at its site. -/
abbrev Visit := Json → Site → Walk DataType

namespace Walk

/-- Adds a warning. -/
def warn (warning : Warning) : Walk Unit := modify fun p => p.warn warning

/-- Gives a new name. -/
def freshName (stem : String) : Walk String := do
  let p ← get
  set (p.countName stem)
  return p.freshName stem

/-- Puts a model into a place of the list. -/
def place (slot : Nat) (model : DataModel) : Walk Unit := modify fun p => p.place slot model

/-- The place of the next model. -/
def nextSlot : Walk Nat := return (← get).models.length

/-! ## Names -/

/-- The identifier of a title, if the title has one. -/
def titled? (title : Option String) : Option Identifier.Resolved :=
  match title with
  | some text =>
      let resolved := Identifier.resolve .pascal text
      if resolved.identifier = "" then none else some resolved
  | none => none

/-- The text under a key of a schema. -/
def textAt (key : String) (schema : Json) : Option String := (schema.get? key).bind Json.string?

/-- The stem of made-up names for classes. -/
def anonymousClass : String := "AnonymousClass"

/-- The stem of made-up names for enums. -/
def anonymousEnum : String := "AnonymousEnum"

/-- The name of the class of the document itself: the given one, with the title as its alias. -/
def rootClassName (rootName : String) (title : Option String) : Identifier.Resolved :=
  ⟨rootName, title.filter (· ≠ rootName)⟩

/-- The identifier of a hint, if the hint has one. -/
def hinted? (hint : Option String) : Option String :=
  (hint.map Identifier.pascal).filter (· ≠ "")

/-- The name that a class is given: the one for the document itself, else the title, else the
hint. -/
def givenClassName? (rootName : String) (title : Option String) (site : Site) :
    Option Identifier.Resolved :=
  if site.isRoot && rootName ≠ "" then some (rootClassName rootName title)
  else match titled? title with
    | some resolved => some resolved
    | none => (hinted? site.hint).map fun name => ⟨name, none⟩

/-- The name that is given, else a new one. -/
def nameOr (stem : String) : Option Identifier.Resolved → Walk Identifier.Resolved
  | some name => return name
  | none => return ⟨← freshName stem, none⟩

/-! ## References -/

/-- The type of a reference. -/
def ofReference (document : Json) (visit : Visit) (reference : String) (site : Site) :
    Walk DataType := do
  let p ← get
  match Entries.get? reference p.known with
  | some type => return type
  | none =>
      match Pointer.resolve? document reference with
      | none => throw (.unresolvedReference reference site.path)
      | some target =>
          -- An object is named as soon as it is reached, so its name answers before it is done.
          match Entries.get? reference p.building with
          | some name =>
              warn (.unresolvedCycle name reference)
              return .classRef name
          | none =>
              if reference ∈ p.resolving then throw (.unsupported reference .endlessCycle)
              else
                modify fun p => p.startResolving reference
                let type ← visit target (.ofReference reference)
                modify fun p => (p.stopResolving reference).remember reference type
                return type

/-! ## Unions -/

/-- The types of the alternatives, the first of which has the given index. -/
def members (visit : Visit) (keyword : UnionKeyword) (site : Site) :
    Nat → List Json → Walk (List DataType)
  | _, [] => return []
  | i, member :: rest => do
      let type ← visit member (site.child s!"{keyword.text}/{i}" none)
      let types ← members visit keyword site (i + 1) rest
      return type :: types

/-- The type of alternatives: `null` among them makes it optional, and a single other one stands
for itself. -/
def unionOf (types : List DataType) : DataType :=
  let core : DataType := match types.filter fun t => !t.isNull with
    | [] => .of .null
    | [only] => only
    | several => .unionOf several
  core.withOptional (types.any DataType.isNull)

/-! ## Constants and enumerations -/

/-- The type of a constant. Numbers that are not small integers are widened. -/
def ofConst (value : Json) (site : Site) : Walk DataType :=
  match value with
  | .str text => return .of (.literalString text)
  | .bool b => return .of (.literalBool b)
  | .null => return .of .null
  | .num n =>
      match n.toInt64? with
      | some i => return .of (.literalInt i)
      | none => do
          warn (.nonIntegerConst site.path (String.ofList n.text))
          return .of .float
  | .arr _ | .obj _ => throw (.unsupported site.path (.constNotScalar value))

/-- The values of an enumeration and whether `null` is one of them. `seen` holds the identifiers
with the texts they stand for; a repeated text counts once. -/
def enumMembers (owner path : String) :
    Entries String → List Json → Except SchemaError (List EnumMember × Bool)
  | _, [] => .ok ([], false)
  | seen, literal :: rest =>
      match literal.literalText? with
      | none =>
          if literal.isNull then do
            let (values, _) ← enumMembers owner path seen rest
            return (values, true)
          else .error (.unsupported path (.enumLiteralNotScalar literal))
      | some text =>
          let resolved := Identifier.resolve .pascal text
          if resolved.identifier = "" then
            .error (.unsupported path (.enumLiteralUnnamed text))
          else
            match Entries.get? resolved.identifier seen with
            | some first =>
                if first = text then enumMembers owner path seen rest
                else .error (.namingCollision owner resolved.identifier first text)
            | none => do
                let (values, hasNull) ←
                  enumMembers owner path ((resolved.identifier, text) :: seen) rest
                return ({ name := resolved.identifier, alias? := resolved.alias? } :: values,
                  hasNull)

/-- The enum of an enumeration. -/
def enumOf (schema : Json) (name : Identifier.Resolved) (values : List EnumMember) : DataEnum :=
  { name := name.identifier, values := values,
    description? := textAt "description" schema, alias? := name.alias? }

/-- The type of an enumeration. -/
def ofEnum (schema : Json) (literals : List Json) (site : Site) : Walk DataType := do
  let name ← nameOr anonymousEnum (titled? (textAt "title" schema))
  let (values, hasNull) ← enumMembers name.identifier site.path [] literals
  place (← nextSlot) (.ofEnum (enumOf schema name values))
  return (DataType.enumRef name.identifier).withOptional hasNull

/-! ## Objects -/

/-- The keys that an object must have. -/
def requiredKeys (schema : Entries Json) : List String :=
  match Entries.get? "required" schema with
  | some (.arr keys) => keys.filterMap Json.string?
  | _ => []

/-- The site of a property. -/
def propertySite (site : Site) (key : String) : Site :=
  site.child s!"properties/{Pointer.escape key}" (some key)

/-- The field of a property of a given type. It is optional unless it is required, and skipped when
the property's schema allows no value. -/
def fieldOf (name : Identifier.Resolved) (isRequired : Bool) (schema : Json) (type : DataType) :
    DataField :=
  { name := name.identifier, type := type.withOptional (!isRequired),
    description? := textAt "description" schema, alias? := name.alias?, skip := schema.isFalse }

/-- The fields of properties. `seen` holds the identifiers of the properties before with their
keys. -/
def fields (visit : Visit) (owner : String) (required : List String) (site : Site) :
    Entries String → List (String × Json) → Walk (List DataField)
  | _, [] => return []
  | seen, (key, schema) :: rest => do
      let child := propertySite site key
      let resolved := Identifier.resolve .camel key
      if resolved.identifier = "" then
        throw (.unsupported child.path (.propertyUnnamed key))
      else
        match Entries.get? resolved.identifier seen with
        | some first => throw (.namingCollision owner resolved.identifier first key)
        | none =>
            let type ← visit schema child
            let more ← fields visit owner required site ((resolved.identifier, key) :: seen) rest
            return fieldOf resolved (required.contains key) schema type :: more

/-- The fields of an object. -/
def objectFields (visit : Visit) (owner : String) (schema : Entries Json) (site : Site) :
    Walk (List DataField) :=
  match Entries.get? "properties" schema with
  | none => return []
  | some (.obj properties) => fields visit owner (requiredKeys schema) site [] properties
  | some _ => throw (.unsupported site.path .propertiesNotObject)

/-- Whether an object openly allows further properties. -/
def allowsMore (schema : Entries Json) : Bool :=
  match Entries.get? "additionalProperties" schema with
  | some value => value.isTrue
  | none => false

/-- Opens a class: names it, takes its slot and marks it as being converted. -/
def openClass (rootName : String) (schema : Entries Json) (site : Site) :
    Walk (Identifier.Resolved × Nat) := do
  let name ← nameOr anonymousClass
    (givenClassName? rootName (textAt "title" (.obj schema)) site)
  if allowsMore schema then warn (.additionalProperties site.path)
  -- The slot is taken before the fields, whose models follow the class.
  let slot ← nextSlot
  modify fun p => p.startBuilding site.path name.identifier
  return (name, slot)

/-- The class of an object. -/
def classOf (schema : Entries Json) (name : Identifier.Resolved) (fields : List DataField) :
    DataClass :=
  { name := name.identifier, fields := fields,
    description? := textAt "description" (.obj schema), alias? := name.alias? }

/-- Closes a class: takes its mark off and puts it into its slot. -/
def closeClass (schema : Entries Json) (site : Site) (name : Identifier.Resolved) (slot : Nat)
    (fields : List DataField) : Walk DataType := do
  modify fun p => p.stopBuilding site.path
  place slot (.ofClass (classOf schema name fields))
  return .classRef name.identifier

/-- The type of an object. -/
def ofObject (rootName : String) (visit : Visit) (schema : Entries Json) (site : Site) :
    Walk DataType := do
  let (name, slot) ← openClass rootName schema site
  let fields ← objectFields visit name.identifier schema site
  closeClass schema site name slot fields

/-! ## Nodes -/

/-- The type of a node of a given shape. -/
def ofShape (document : Json) (rootName : String) (visit : Visit) (schema : Json) (site : Site) :
    Shape → Walk DataType
  | .never | .any => return .of .any
  | .null => return .of .null
  | .ref reference => ofReference document visit reference site
  | .single member => visit member site
  | .union keyword alternatives => return unionOf (← members visit keyword site 0 alternatives)
  | .const value => ofConst value site
  | .enum values => ofEnum schema values site
  | .object object => ofObject rootName visit object site
  | .array none => return .listOf (.of .any)
  | .array (some items) => return .listOf (← visit items (site.child "items" site.hint))
  | .scalar scalar => return scalar.dataType
  | .scalarUnion scalars => return .unionOf (scalars.map Scalar.dataType)

/-- The type of a node. -/
def ofNode (document : Json) (rootName : String) (visit : Visit) : Visit := fun schema site =>
  match classify schema with
  | .error fault => throw (.unsupported site.path (.shape fault))
  | .ok classified =>
      return (← ofShape document rootName visit schema site classified.shape).withOptional
        classified.nullable

end Walk

/-- The walk of a node that nests at most as many steps as the first number says. -/
def walk (document : Json) (rootName : String) : Nat → Visit
  | 0, _, _ => throw .unfinished
  | steps + 1, schema, site =>
      Walk.ofNode document rootName (walk document rootName steps) schema site

/-! ## Documents -/

mutual

/-- The texts under the key `$ref` anywhere in a document. -/
def Json.references : Json → List String
  | .arr items => referencesOfItems items
  | .obj members => referencesOfMembers members
  | _ => []

/-- The texts under the key `$ref` anywhere in items. -/
def Json.referencesOfItems : List Json → List String
  | [] => []
  | item :: rest => item.references ++ referencesOfItems rest

/-- The texts under the key `$ref` anywhere in members. -/
def Json.referencesOfMembers : List (String × Json) → List String
  | [] => []
  | (key, value) :: rest =>
      (match key, value with
        | "$ref", .str reference => [reference]
        | _, _ => []) ++ value.references ++ referencesOfMembers rest

end

/-- How deep a walk nests at most: every reference may be expanded inside another one, and each
expansion descends through the document once. -/
def walkBound (document : Json) : Nat := (document.references.length + 1) * document.depth

/-- Walks definitions one after the other. Each is being resolved while it is walked. -/
def walkDefinitions (visit : Visit) : List (String × Json) → Walk Unit
  | [] => return ()
  | (path, schema) :: rest => do
      modify fun p => p.startResolving path
      let _ ← visit schema (.ofReference path)
      modify fun p => p.stopResolving path
      walkDefinitions visit rest

/-- Walks a document: its definitions, then itself. -/
def walkDocument (document : Json) (visit : Visit) : Walk DataType := do
  modify fun p => p.startResolving Pointer.root
  walkDefinitions visit (Pointer.definitions document)
  visit document .root

/-- Converts a schema document. The class of the document itself is named after `rootName`. -/
def convert (document : Json) (rootName : String) : Except SchemaError Conversion := do
  -- The bound is never reached: see `walkBound`.
  let visit := walk document (Identifier.pascal rootName) (walkBound document)
  let (root, progress) ← (walkDocument document visit).run {}
  return ⟨progress.models, root, progress.warnings⟩

end SchemaLoom
