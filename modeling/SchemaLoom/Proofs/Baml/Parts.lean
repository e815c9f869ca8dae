import Mathlib.Data.List.Basic
import SchemaLoom.Baml.Source

set_option autoImplicit false

/-! # What the source is made of

The source of a model list is one block for each model, in order, with a blank line in between. A
block has one line for each part of its model: for a class the fields that are not skipped, for an
enum all values. A line is the name of the part, for a field the text of its type, and the
attributes; after the lines come the attributes of the model itself.
-/

namespace SchemaLoom

namespace DataModel

/-- A part of a model: a field of the class `owner`, or a value of the enum `owner`. -/
inductive Part where
  | field (owner : String) (f : DataField)
  | value (owner : String) (v : EnumMember)

/-- The parts of a model: the fields that are not skipped, or the values. -/
def parts : DataModel → List Part
  | .ofClass c => (c.fields.filter fun field => !field.skip).map (.field c.name)
  | .ofEnum e => e.values.map (.value e.name)

/-- The word that a block of the kind starts with. -/
def Kind.keyword : Kind → String
  | .classes => "class"
  | .enums => "enum"

/-- The description of a model. -/
def description? : DataModel → Option String
  | .ofClass c => c.description?
  | .ofEnum e => e.description?

/-- The alias of a model. -/
def alias? : DataModel → Option String
  | .ofClass c => c.alias?
  | .ofEnum e => e.alias?

namespace Part

/-- The name of a part. -/
def name : Part → String
  | .field _ f => f.name
  | .value _ v => v.name

/-- The text of the type of a field, led by a blank. -/
def typeText : Part → List Char
  | .field owner f => ' ' :: (Baml.typeSource s!"{owner}.{f.name}" f.type).1
  | .value _ _ => []

/-- The attributes of a part. -/
def attributes : Part → List Char
  | .field _ f =>
      Baml.descriptionSource [' ', '@'] f.description? ++ Baml.aliasSource [' ', '@'] f.alias?
  | .value _ v =>
      Baml.aliasSource [' ', '@'] v.alias? ++ Baml.descriptionSource [' ', '@'] v.description?
        ++ if v.skip then " @skip".toList else []

/-- The line of a part. -/
def line (part : Part) : List Char :=
  Baml.line (part.name.toList ++ part.typeText ++ part.attributes)

end Part

/-- The block of a model. -/
def block (m : DataModel) : List Char :=
  Baml.block m.kind.keyword m.name
    (m.parts.flatMap Part.line ++ Baml.blockAttributes m.description? m.alias?)

end DataModel

namespace Baml

open DataModel (Part)

theorem fieldLine_eq (owner : String) (field : DataField) :
    (fieldLine owner field).1 = (Part.field owner field).line := by
  simp only [fieldLine, Part.line, Part.name, Part.typeText, Part.attributes, List.append_assoc,
    List.cons_append]

theorem valueLine_eq (owner : String) (value : EnumMember) :
    valueLine value = (Part.value owner value).line := by
  simp only [valueLine, Part.line, Part.name, Part.typeText, Part.attributes, List.append_assoc,
    List.nil_append]

/-- The lines of fields are those of the fields that are not skipped. -/
theorem fieldLines_eq (owner : String) (fields : List DataField) :
    (fieldLines owner fields).1
      = ((fields.filter fun field => !field.skip).map (Part.field owner)).flatMap Part.line := by
  induction fields with
  | nil => rfl
  | cons field rest ih =>
      cases skipped : field.skip with
      | true =>
          simp only [fieldLines, skipped, if_true, List.nil_append, ih]
          rw [List.filter_cons_of_neg (by simp [skipped])]
      | false =>
          simp only [fieldLines, skipped, Bool.false_eq_true, if_false, ih, fieldLine_eq]
          rw [List.filter_cons_of_pos (by simp [skipped]), List.map_cons, List.flatMap_cons]

theorem modelSource_eq (m : DataModel) : (modelSource m).1 = m.block := by
  cases m with
  | ofClass c =>
      show block "class" c.name ((fieldLines c.name c.fields).1
        ++ blockAttributes c.description? c.alias?) = _
      rw [fieldLines_eq]
      rfl
  | ofEnum e =>
      have lines : e.values.flatMap valueLine = (DataModel.ofEnum e).parts.flatMap Part.line := by
        rw [DataModel.parts, List.flatMap_map]
        exact List.flatMap_congr fun value _ => valueLine_eq e.name value
      show block "enum" e.name (e.values.flatMap valueLine
        ++ blockAttributes e.description? e.alias?) = _
      rw [lines]
      rfl

/-- A page is made of the blocks of the models and keeps the warnings of all of them. -/
theorem render_eq (models : List DataModel) :
    render models = ⟨models.map DataModel.block, models.flatMap fun m => (modelSource m).2⟩ := by
  have more (page : Page) : page.addAll models
      = ⟨page.blocks ++ models.map DataModel.block,
          page.warnings ++ models.flatMap fun m => (modelSource m).2⟩ := by
    induction models generalizing page with
    | nil => simp [Page.addAll]
    | cons m rest ih =>
        have next : page.addAll (m :: rest) = (page.add m).addAll rest := rfl
        rw [next, ih]
        simp [Page.add, modelSource_eq]
  exact more {}

theorem render_text (models : List DataModel) :
    (render models).text = String.ofList (['\n'].intercalate (models.map DataModel.block)) := by
  rw [render_eq]
  rfl

end Baml

end SchemaLoom
