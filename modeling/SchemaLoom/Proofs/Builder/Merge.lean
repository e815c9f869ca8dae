import SchemaLoom.Builder.Registry
import SchemaLoom.Proofs.Entries.LastWins

set_option autoImplicit false

/-! # Registering models

A registry takes the models of a list one after the other, each by a run of commands. The first
command of a run adds the class or the enum afresh; from then on the registry is one to which an
entry has been given (`Registry.withClass`, `Registry.withEnum`), and every further command of the
run only changes that entry. So no command of a plan misses its target, and what a run leaves is the
entry of its model alone, whatever the registry held under the name.

For a whole list this is a merge in which the last model of a kind and name wins.
-/

namespace SchemaLoom

/-! ## The entry of a model -/

/-- The entry of a field of a class. -/
def PropertyEntry.ofField (owner : String) (field : DataField) : PropertyEntry where
  type? := some (FieldType.ofDataType s!"{owner}.{field.name}" field.type).1
  description? := field.description?
  alias? := field.alias?

/-- The entries of the fields that are not skipped, each with the name of its field. -/
def PropertyEntry.ofFields (owner : String) (fields : List DataField) :
    List (String × PropertyEntry) :=
  (fields.filter fun field => !field.skip).map fun field => (field.name, ofField owner field)

/-- The entry of a class: its texts, and one property for each name among the fields that are not
skipped. -/
def ClassEntry.ofClass (c : DataClass) : ClassEntry where
  description? := c.description?
  alias? := c.alias?
  properties := Entries.lastWins (PropertyEntry.ofFields c.name c.fields)

/-- The entry of a value of an enum. -/
def ValueEntry.ofMember (value : EnumMember) : ValueEntry where
  description? := value.description?
  alias? := value.alias?
  skip := value.skip

/-- The entries of values, each with the name of its value. -/
def ValueEntry.ofMembers (values : List EnumMember) : List (String × ValueEntry) :=
  values.map fun value => (value.name, ofMember value)

/-- The entry of an enum: its texts, and one entry for each name among the values. -/
def EnumEntry.ofEnum (e : DataEnum) : EnumEntry where
  description? := e.description?
  alias? := e.alias?
  values := Entries.lastWins (ValueEntry.ofMembers e.values)

namespace DataModel

/-- The enum of a model. -/
def enum? : DataModel → Option DataEnum
  | .ofClass _ => none
  | .ofEnum e => some e

/-- The classes of a list in order. -/
def classes (models : List DataModel) : List DataClass := models.filterMap class?

/-- The enums of a list in order. -/
def enums (models : List DataModel) : List DataEnum := models.filterMap enum?

/-- The last class of a name. -/
def lastClass? (name : String) (models : List DataModel) : Option DataClass :=
  (classes models).reverse.find? fun c => c.name = name

/-- The last enum of a name. -/
def lastEnum? (name : String) (models : List DataModel) : Option DataEnum :=
  (enums models).reverse.find? fun e => e.name = name

end DataModel

/-- The class with a property, which is started over in its old place if it is there. -/
def ClassEntry.withProperty (entry : ClassEntry) (name : String) (p : PropertyEntry) :
    ClassEntry :=
  { entry with properties := Entries.insert name p entry.properties }

@[simp] theorem ClassEntry.withProperty_withProperty (entry : ClassEntry) (name : String)
    (first second : PropertyEntry) :
    (entry.withProperty name first).withProperty name second = entry.withProperty name second := by
  simp [withProperty]

/-- The enum with a value, which is started over in its old place if it is there. -/
def EnumEntry.withValue (entry : EnumEntry) (name : String) (v : ValueEntry) : EnumEntry :=
  { entry with values := Entries.insert name v entry.values }

@[simp] theorem EnumEntry.withValue_withValue (entry : EnumEntry) (name : String)
    (first second : ValueEntry) :
    (entry.withValue name first).withValue name second = entry.withValue name second := by
  simp [withValue]

namespace Registry

/-! ## Runs of commands -/

/-- Commands that succeed one after the other succeed as one list. -/
theorem apply_append {r s t : Registry} {first second : List BuildCommand}
    (one : r.apply first = (s, .ok ())) (two : s.apply second = (t, .ok ())) :
    r.apply (first ++ second) = (t, .ok ()) := by
  induction first generalizing r with
  | nil =>
      cases one
      exact two
  | cons command rest ih =>
      rw [List.cons_append, apply]
      rw [apply] at one
      cases done : r.perform command with
      | ok changed =>
          rw [done] at one
          exact ih one
      | error e =>
          rw [done] at one
          cases one

theorem apply_cons {r s t : Registry} {command : BuildCommand} {rest : List BuildCommand}
    (one : r.perform command = .ok s) (more : s.apply rest = (t, .ok ())) :
    r.apply (command :: rest) = (t, .ok ()) := by
  rw [apply, one]
  exact more

/-- The command for an optional text leads to the registry `after` the text: the same one if there
is no text, and the one that the command makes otherwise. -/
theorem apply_forText {r : Registry} {command : String → BuildCommand} {text? : Option String}
    (after : Option String → Registry) (same : after none = r)
    (made : ∀ text, r.perform (command text) = .ok (after (some text))) :
    r.apply (Plan.forText command text?) = (after text?, .ok ()) := by
  cases text? with
  | none => rw [same]; rfl
  | some text => exact apply_cons (made text) rfl

/-! ## The run of a class -/

/-- The registry with the entry of a class. -/
def withClass (r : Registry) (name : String) (entry : ClassEntry) : Registry :=
  { r with classes := Entries.insert name entry r.classes }

section Class

variable (r : Registry) (name : String)

@[simp] theorem withClass_withClass (first second : ClassEntry) :
    (r.withClass name first).withClass name second = r.withClass name second := by
  simp [withClass]

/-- A change of the class that was given changes its entry and nothing else. -/
theorem changeClass_withClass (entry : ClassEntry)
    (change : ClassEntry → Except BuildError ClassEntry) :
    (r.withClass name entry).changeClass name change
      = (change entry).map (r.withClass name) := by
  have found : Entries.get? name (r.withClass name entry).classes = some entry :=
    Entries.get?_insert_self ..
  unfold changeClass
  rw [found]
  show (do
    let changed ← change entry
    return (r.withClass name entry).withClass name changed) = _
  simp only [withClass_withClass]
  cases change entry <;> rfl

/-- A change of the property that was given changes its entry and nothing else. -/
theorem changeProperty_withProperty (entry : ClassEntry) (property : String) (p : PropertyEntry)
    (change : PropertyEntry → PropertyEntry) :
    (r.withClass name (entry.withProperty property p)).changeProperty name property change
      = .ok (r.withClass name (entry.withProperty property (change p))) := by
  have found : Entries.get? property (entry.withProperty property p).properties = some p :=
    Entries.get?_insert_self ..
  unfold changeProperty
  rw [changeClass_withClass]
  simp only [found]
  show Except.ok (r.withClass name
    ((entry.withProperty property p).withProperty property (change p))) = _
  rw [ClassEntry.withProperty_withProperty]

/-- The run of a field gives its class the entry of the field. -/
theorem apply_ofField (entry : ClassEntry) (field : DataField) :
    (r.withClass name entry).apply (Plan.ofField name field).commands
      = (r.withClass name (entry.withProperty field.name (.ofField name field)), .ok ()) := by
  have added : (r.withClass name entry).perform
        (.addProperty name field.name (FieldType.ofDataType s!"{name}.{field.name}" field.type).1)
      = .ok (r.withClass name (entry.withProperty field.name
          { PropertyEntry.ofField name field with description? := none, alias? := none })) :=
    changeClass_withClass ..
  apply apply_cons added
  apply apply_append
  · apply apply_forText fun text? => r.withClass name (entry.withProperty field.name
      { PropertyEntry.ofField name field with description? := text?, alias? := none })
    · rfl
    · exact fun text => changeProperty_withProperty ..
  · apply apply_forText fun text? => r.withClass name (entry.withProperty field.name
      { PropertyEntry.ofField name field with alias? := text? })
    · rfl
    · exact fun text => changeProperty_withProperty ..

/-- The runs of fields give their class the entries of those that are not skipped. -/
theorem apply_ofFields (entry : ClassEntry) (fields : List DataField) :
    (r.withClass name entry).apply (Plan.ofFields name fields).commands
      = (r.withClass name { entry with
            properties := Entries.insertAll entry.properties (PropertyEntry.ofFields name fields) },
          .ok ()) := by
  induction fields generalizing entry with
  | nil => rfl
  | cons field rest ih =>
      cases skipped : field.skip with
      | true =>
          have others : PropertyEntry.ofFields name (field :: rest)
              = PropertyEntry.ofFields name rest := by
            simp [PropertyEntry.ofFields, skipped]
          rw [others, Plan.ofFields, skipped]
          exact ih entry
      | false =>
          have others : PropertyEntry.ofFields name (field :: rest)
              = (field.name, .ofField name field) :: PropertyEntry.ofFields name rest := by
            simp [PropertyEntry.ofFields, skipped]
          rw [others, Plan.ofFields, skipped]
          exact apply_append (apply_ofField r name entry field) (ih _)

/-- The run of a class leaves its entry in the registry, whatever was there before. -/
theorem apply_ofClass (c : DataClass) :
    r.apply (Plan.ofModel (.ofClass c)).commands
      = (r.withClass c.name (.ofClass c), .ok ()) := by
  have added : r.perform (.addClass c.name) = .ok (r.withClass c.name {}) := rfl
  have described : (r.withClass c.name {}).apply
        (Plan.forText (.classDescription c.name) c.description?)
      = (r.withClass c.name { description? := c.description? }, .ok ()) := by
    apply apply_forText fun text? => r.withClass c.name { description? := text? }
    · rfl
    · exact fun text => changeClass_withClass ..
  have renamed : (r.withClass c.name { description? := c.description? }).apply
        (Plan.forText (.classAlias c.name) c.alias?)
      = (r.withClass c.name { description? := c.description?, alias? := c.alias? }, .ok ()) := by
    apply apply_forText fun text? => r.withClass c.name
      { description? := c.description?, alias? := text? }
    · rfl
    · exact fun text => changeClass_withClass ..
  have filled := r.apply_ofFields c.name { description? := c.description?, alias? := c.alias? }
    c.fields
  rw [Entries.insertAll_nil_eq_lastWins] at filled
  exact apply_cons added (apply_append (apply_append described renamed) filled)

end Class

/-! ## The run of an enum -/

/-- The registry with the entry of an enum. -/
def withEnum (r : Registry) (name : String) (entry : EnumEntry) : Registry :=
  { r with enums := Entries.insert name entry r.enums }

section Enum

variable (r : Registry) (name : String)

@[simp] theorem withEnum_withEnum (first second : EnumEntry) :
    (r.withEnum name first).withEnum name second = r.withEnum name second := by
  simp [withEnum]

/-- A change of the enum that was given changes its entry and nothing else. -/
theorem changeEnum_withEnum (entry : EnumEntry)
    (change : EnumEntry → Except BuildError EnumEntry) :
    (r.withEnum name entry).changeEnum name change = (change entry).map (r.withEnum name) := by
  have found : Entries.get? name (r.withEnum name entry).enums = some entry :=
    Entries.get?_insert_self ..
  unfold changeEnum
  rw [found]
  show (do
    let changed ← change entry
    return (r.withEnum name entry).withEnum name changed) = _
  simp only [withEnum_withEnum]
  cases change entry <;> rfl

/-- A change of the value that was given changes its entry and nothing else. -/
theorem changeValue_withValue (entry : EnumEntry) (value : String) (v : ValueEntry)
    (change : ValueEntry → ValueEntry) :
    (r.withEnum name (entry.withValue value v)).changeValue name value change
      = .ok (r.withEnum name (entry.withValue value (change v))) := by
  have found : Entries.get? value (entry.withValue value v).values = some v :=
    Entries.get?_insert_self ..
  unfold changeValue
  rw [changeEnum_withEnum]
  simp only [found]
  show Except.ok (r.withEnum name ((entry.withValue value v).withValue value (change v))) = _
  rw [EnumEntry.withValue_withValue]

/-- The run of a value gives its enum the entry of the value. -/
theorem apply_ofValue (entry : EnumEntry) (value : EnumMember) :
    (r.withEnum name entry).apply (Plan.ofValue name value)
      = (r.withEnum name (entry.withValue value.name (.ofMember value)), .ok ()) := by
  have added : (r.withEnum name entry).perform (.addValue name value.name)
      = .ok (r.withEnum name (entry.withValue value.name {})) :=
    changeEnum_withEnum ..
  have skipped : (r.withEnum name (entry.withValue value.name {})).apply
        (if value.skip then [.valueSkip name value.name] else [])
      = (r.withEnum name (entry.withValue value.name { skip := value.skip }), .ok ()) := by
    cases value.skip with
    | false => rfl
    | true =>
        apply apply_cons
        · exact changeValue_withValue ..
        · rfl
  apply apply_cons added
  apply apply_append
  · apply apply_append skipped
    apply apply_forText fun text? => r.withEnum name (entry.withValue value.name
      { skip := value.skip, description? := text? })
    · rfl
    · exact fun text => changeValue_withValue ..
  · apply apply_forText fun text? => r.withEnum name (entry.withValue value.name
      { ValueEntry.ofMember value with alias? := text? })
    · rfl
    · exact fun text => changeValue_withValue ..

/-- The runs of values give their enum the entries of the values. -/
theorem apply_ofValues (entry : EnumEntry) (values : List EnumMember) :
    (r.withEnum name entry).apply (values.flatMap (Plan.ofValue name))
      = (r.withEnum name { entry with
            values := Entries.insertAll entry.values (ValueEntry.ofMembers values) },
          .ok ()) := by
  induction values generalizing entry with
  | nil => rfl
  | cons value rest ih =>
      rw [List.flatMap_cons]
      exact apply_append (apply_ofValue r name entry value) (ih _)

/-- The run of an enum leaves its entry in the registry, whatever was there before. -/
theorem apply_ofEnum (e : DataEnum) :
    r.apply (Plan.ofModel (.ofEnum e)).commands = (r.withEnum e.name (.ofEnum e), .ok ()) := by
  have added : r.perform (.addEnum e.name) = .ok (r.withEnum e.name {}) := rfl
  have described : (r.withEnum e.name {}).apply
        (Plan.forText (.enumDescription e.name) e.description?)
      = (r.withEnum e.name { description? := e.description? }, .ok ()) := by
    apply apply_forText fun text? => r.withEnum e.name { description? := text? }
    · rfl
    · exact fun text => changeEnum_withEnum ..
  have renamed : (r.withEnum e.name { description? := e.description? }).apply
        (Plan.forText (.enumAlias e.name) e.alias?)
      = (r.withEnum e.name { description? := e.description?, alias? := e.alias? }, .ok ()) := by
    apply apply_forText fun text? => r.withEnum e.name
      { description? := e.description?, alias? := text? }
    · rfl
    · exact fun text => changeEnum_withEnum ..
  have filled := r.apply_ofValues e.name { description? := e.description?, alias? := e.alias? }
    e.values
  rw [Entries.insertAll_nil_eq_lastWins] at filled
  exact apply_cons added (apply_append (apply_append described renamed) filled)

end Enum

/-! ## Lists of models -/

/-- The registry with the entries of the models of a list. -/
def merge (r : Registry) (models : List DataModel) : Registry where
  classes := Entries.insertAll r.classes
    ((DataModel.classes models).map fun c => (c.name, ClassEntry.ofClass c))
  enums := Entries.insertAll r.enums
    ((DataModel.enums models).map fun e => (e.name, EnumEntry.ofEnum e))

/-- No command of a plan fails, and the plan as a whole merges the models into the registry. -/
theorem apply_ofModels (r : Registry) (models : List DataModel) :
    r.apply (Plan.ofModels models).commands = (r.merge models, .ok ()) := by
  induction models generalizing r with
  | nil => rfl
  | cons m rest ih =>
      cases m with
      | ofClass c => exact apply_append (apply_ofClass r c) (ih (r.withClass c.name (.ofClass c)))
      | ofEnum e => exact apply_append (apply_ofEnum r e) (ih (r.withEnum e.name (.ofEnum e)))

theorem configure_eq (r : Registry) (models : List DataModel) :
    r.configure models = (r.merge models, .ok (Plan.ofModels models).warnings) := by
  simp only [configure, apply_ofModels]

/-- **Registering models is a merge in which the last model of a kind and name wins.** It never
fails. A name has the entry of the last class or enum of the list that has it, and keeps its own
entry if there is none; the names that were there come first, in their order, and the new ones in
the order of their first occurrence. -/
theorem configure_lastWins (r : Registry) (models : List DataModel) :
    ∃ merged, r.configure models = (merged, .ok (Plan.ofModels models).warnings) ∧
      (∀ name, Entries.get? name merged.classes
        = ((DataModel.lastClass? name models).map ClassEntry.ofClass).or
          (Entries.get? name r.classes)) ∧
      (∀ name, Entries.get? name merged.enums
        = ((DataModel.lastEnum? name models).map EnumEntry.ofEnum).or
          (Entries.get? name r.enums)) ∧
      Entries.names merged.classes = Entries.names r.classes
        ++ (((DataModel.classes models).map DataClass.name).filter
          (· ∉ Entries.names r.classes)).eraseDups ∧
      Entries.names merged.enums = Entries.names r.enums
        ++ (((DataModel.enums models).map DataEnum.name).filter
          (· ∉ Entries.names r.enums)).eraseDups := by
  refine ⟨r.merge models, configure_eq r models, ?_, ?_, ?_, ?_⟩
  · intro name
    rw [merge, Entries.get?_insertAll, Entries.last?_map]
    rfl
  · intro name
    rw [merge, Entries.get?_insertAll, Entries.last?_map]
    rfl
  · rw [merge, Entries.names_insertAll, Entries.names_map]
  · rw [merge, Entries.names_insertAll, Entries.names_map]

end Registry

end SchemaLoom
