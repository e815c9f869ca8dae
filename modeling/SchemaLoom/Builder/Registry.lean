import SchemaLoom.Builder.Plan
import SchemaLoom.Entries

set_option autoImplicit false

/-! # A registry of types

The registry is the builder that keeps types by name. Adding a type, a property or a value that
exists starts it over in its old place. A command whose target is missing fails and changes
nothing. References are not looked up while types are added; `finish` looks them all up.
-/

namespace SchemaLoom

/-- A property of a registered class. -/
structure PropertyEntry where
  type? : Option FieldType := none
  description? : Option String := none
  alias? : Option String := none

/-- A registered class. -/
structure ClassEntry where
  description? : Option String := none
  alias? : Option String := none
  properties : Entries PropertyEntry := []

/-- A value of a registered enum. -/
structure ValueEntry where
  description? : Option String := none
  alias? : Option String := none
  skip : Bool := false

/-- A registered enum. -/
structure EnumEntry where
  description? : Option String := none
  alias? : Option String := none
  values : Entries ValueEntry := []

/-- The registered types in order of their first registration. -/
structure Registry where
  classes : Entries ClassEntry := []
  enums : Entries EnumEntry := []

/-- Why a command fails, or what is missing at the end. -/
inductive BuildError where
  | unknownClass (name : String)
  | unknownEnum (name : String)
  | unknownProperty (owner property : String)
  | unknownValue (enum value : String)
  | danglingReference (owner target : String)
  deriving DecidableEq, Repr

/-- The wording of an error. -/
def BuildError.message : BuildError → String
  | unknownClass name => s!"no class named '{name}'"
  | unknownEnum name => s!"no enum named '{name}'"
  | unknownProperty owner property => s!"class '{owner}' has no property '{property}'"
  | unknownValue enum value => s!"enum '{enum}' has no value '{value}'"
  | danglingReference owner target => s!"'{owner}' refers to undefined type '{target}'"

namespace Registry

/-! ## Changes -/

/-- Changes a class. -/
def changeClass (r : Registry) (name : String)
    (change : ClassEntry → Except BuildError ClassEntry) : Except BuildError Registry :=
  match Entries.get? name r.classes with
  | some entry => return { r with classes := Entries.insert name (← change entry) r.classes }
  | none => .error (.unknownClass name)

/-- Changes a property of a class. -/
def changeProperty (r : Registry) (owner property : String)
    (change : PropertyEntry → PropertyEntry) : Except BuildError Registry :=
  r.changeClass owner fun entry =>
    match Entries.get? property entry.properties with
    | some p => .ok { entry with properties := Entries.insert property (change p) entry.properties }
    | none => .error (.unknownProperty owner property)

/-- Changes an enum. -/
def changeEnum (r : Registry) (name : String)
    (change : EnumEntry → Except BuildError EnumEntry) : Except BuildError Registry :=
  match Entries.get? name r.enums with
  | some entry => return { r with enums := Entries.insert name (← change entry) r.enums }
  | none => .error (.unknownEnum name)

/-- Changes a value of an enum. -/
def changeValue (r : Registry) (enum value : String) (change : ValueEntry → ValueEntry) :
    Except BuildError Registry :=
  r.changeEnum enum fun entry =>
    match Entries.get? value entry.values with
    | some v => .ok { entry with values := Entries.insert value (change v) entry.values }
    | none => .error (.unknownValue enum value)

/-- Carries out a command. -/
def perform (r : Registry) : BuildCommand → Except BuildError Registry
  | .addClass name => .ok { r with classes := Entries.insert name {} r.classes }
  | .classDescription owner text =>
      r.changeClass owner fun entry => .ok { entry with description? := some text }
  | .classAlias owner text =>
      r.changeClass owner fun entry => .ok { entry with alias? := some text }
  | .addProperty owner name type =>
      r.changeClass owner fun entry => .ok
        { entry with properties := Entries.insert name { type? := some type } entry.properties }
  | .propertyDescription owner property text =>
      r.changeProperty owner property fun p => { p with description? := some text }
  | .propertyAlias owner property text =>
      r.changeProperty owner property fun p => { p with alias? := some text }
  | .addEnum name => .ok { r with enums := Entries.insert name {} r.enums }
  | .enumDescription name text =>
      r.changeEnum name fun entry => .ok { entry with description? := some text }
  | .enumAlias name text =>
      r.changeEnum name fun entry => .ok { entry with alias? := some text }
  | .addValue enum value =>
      r.changeEnum enum fun entry => .ok
        { entry with values := Entries.insert value {} entry.values }
  | .valueDescription enum value text =>
      r.changeValue enum value fun v => { v with description? := some text }
  | .valueAlias enum value text =>
      r.changeValue enum value fun v => { v with alias? := some text }
  | .valueSkip enum value => r.changeValue enum value fun v => { v with skip := true }

/-- Carries out commands up to the first that fails; what was done before it stays. -/
def apply (r : Registry) : List BuildCommand → Registry × Except BuildError Unit
  | [] => (r, .ok ())
  | command :: rest =>
      match r.perform command with
      | .ok changed => changed.apply rest
      | .error e => (r, .error e)

/-- Registers models; the warnings are those of planning. -/
def configure (r : Registry) (models : List DataModel) :
    Registry × Except BuildError (List Warning) :=
  let plan := Plan.ofModels models
  let (changed, result) := r.apply plan.commands
  (changed, match result with
    | .ok () => .ok plan.warnings
    | .error e => .error e)

/-! ## Completeness -/

/-- Whether a class or an enum has a name. -/
def defines (r : Registry) (name : String) : Bool :=
  Entries.contains name r.classes || Entries.contains name r.enums

/-- The first name a property refers to that nothing has. -/
def danglingOf? (r : Registry) (property : PropertyEntry) : Option String :=
  match property.type? with
  | some type => type.targets.find? fun target => !r.defines target
  | none => none

/-- The first dangling reference among the properties of a class. -/
def danglingIn? (r : Registry) (owner : String) : Entries PropertyEntry → Option BuildError
  | [] => none
  | (name, property) :: rest =>
      match r.danglingOf? property with
      | some target => some (.danglingReference s!"{owner}.{name}" target)
      | none => r.danglingIn? owner rest

/-- The first dangling reference among classes. -/
def firstDangling? (r : Registry) : Entries ClassEntry → Option BuildError
  | [] => none
  | (name, entry) :: rest =>
      match r.danglingIn? name entry.properties with
      | some e => some e
      | none => r.firstDangling? rest

/-- Looks up every reference. -/
def finish (r : Registry) : Except BuildError Unit :=
  match r.firstDangling? r.classes with
  | some e => .error e
  | none => .ok ()

/-! ## JSON form -/

/-- A text or `null`. -/
def textJson : Option String → Json
  | some text => .str text
  | none => .null

/-- The JSON form of a property. -/
def propertyJson (p : PropertyEntry) : Json :=
  .obj [("ty", match p.type? with
      | some type => type.toJson
      | none => .null),
    ("description", textJson p.description?), ("alias", textJson p.alias?)]

/-- The JSON form of a class. -/
def classJson (c : ClassEntry) : Json :=
  .obj [("description", textJson c.description?), ("alias", textJson c.alias?),
    ("properties", .obj (c.properties.map fun (name, p) => (name, propertyJson p)))]

/-- The JSON form of an enum value. -/
def valueJson (v : ValueEntry) : Json :=
  .obj [("description", textJson v.description?), ("alias", textJson v.alias?),
    ("skip", .bool v.skip)]

/-- The JSON form of an enum. -/
def enumJson (e : EnumEntry) : Json :=
  .obj [("description", textJson e.description?), ("alias", textJson e.alias?),
    ("values", .obj (e.values.map fun (name, v) => (name, valueJson v)))]

/-- The JSON form of a registry. -/
def toJson (r : Registry) : Json :=
  .obj [("classes", .obj (r.classes.map fun (name, c) => (name, classJson c))),
    ("enums", .obj (r.enums.map fun (name, e) => (name, enumJson e)))]

end Registry

end SchemaLoom
