import SchemaLoom.Builder.Plan
import SchemaLoom.Proofs.Baml.Parts

set_option autoImplicit false

/-! # The source and the plan agree

A model list is turned into source text and into commands for a builder by two traversals that know
nothing of each other. They warn of the same things in the same order, and to each line of the
source belongs the command that adds the same field or value.

The two have different types to write: a type marks itself as optional, a field type is wrapped. A
field type is spelled here by rules of its own, in which an optional type and an item are set in
parentheses by what stands inside. Away from `null`, which has no field type of its own, the
spelling of the field type is the text of the type.
-/

namespace SchemaLoom

/-! ## Spelling field types -/

namespace FieldType

/-- A field type without parts as it is spelled. -/
def leafSpelling : FieldLeaf → List Char
  | .string => "str".toList
  | .int => "int".toList
  | .float => "float".toList
  | .bool => "bool".toList
  | .literalString text => Json.quotedChars text.toList
  | .literalInt value => JsonNumber.intText value
  | .literalBool value => (toString value).toList
  | .named name => name.toList

/-- Whether the type is a union. -/
def isUnion : FieldType → Bool
  | .union _ => true
  | _ => false

/-- Whether the type is an optional one. -/
def isOptional : FieldType → Bool
  | .optional _ => true
  | _ => false

mutual

/-- A field type as it is spelled: an optional union and an item that is a union or optional are
set in parentheses. -/
def spelling : FieldType → List Char
  | .leaf l => leafSpelling l
  | .list item =>
      (if item.isUnion || item.isOptional then '(' :: item.spelling ++ [')'] else item.spelling)
        ++ ['[', ']']
  | .union members => " | ".toList.intercalate (spellings members)
  | .optional inner =>
      (if inner.isUnion then '(' :: inner.spelling ++ [')'] else inner.spelling) ++ ['?']

/-- The spellings of field types. -/
def spellings : List FieldType → List (List Char)
  | [] => []
  | type :: rest => type.spelling :: spellings rest

end

end FieldType

namespace DataType

mutual

/-- Whether the type of `null` occurs nowhere in the type. -/
def nullFree : DataType → Bool
  | .leaf l _ => l ≠ .null
  | .list item _ => item.nullFree
  | .union members _ => nullFreeAll members

/-- Whether the type of `null` occurs nowhere in the types. -/
def nullFreeAll : List DataType → Bool
  | [] => true
  | t :: rest => t.nullFree && nullFreeAll rest

end

theorem isNull_of_nullFree {t : DataType} (h : t.nullFree = true) : t.isNull = false := by
  cases t with
  | leaf l o => cases l <;> simp_all [nullFree, isNull]
  | list item o => rfl
  | union members o => rfl

end DataType

/-! ## Types -/

namespace FieldType

theorem isOptional_ofDataType (context : String) {t : DataType} (h : t.nullFree = true) :
    (ofDataType context t).1.isOptional = t.isOptional := by
  cases t with
  | leaf l o =>
      cases l with
      | null => simp [DataType.nullFree] at h
      | _ => cases o <;> rfl
  | list item o => cases o <;> rfl
  | union members o => cases o <;> rfl

theorem isUnion_ofDataType (context : String) (t : DataType) :
    (ofDataType context t).1.isUnion = (t.isUnion && !t.isOptional) := by
  cases t with
  | leaf l o => cases l <;> cases o <;> rfl
  | list item o => cases o <;> rfl
  | union members o => cases o <;> rfl

end FieldType

namespace Baml

open FieldType (ofDataType ofDataTypes spelling spellings)

/-- The text of an item and the spelling of its field type are set in parentheses together. -/
theorem grouped_eq (context : String) {item : DataType} (h : item.nullFree = true)
    (text : List Char) :
    grouped item text
      = if (ofDataType context item).1.isUnion || (ofDataType context item).1.isOptional
          then '(' :: text ++ [')'] else text := by
  rw [FieldType.isUnion_ofDataType, FieldType.isOptional_ofDataType context h]
  simp [grouped, DataType.isNull_of_nullFree h, parenthesized]

/-- A mark is what the wrapper of an optional type is spelled as. -/
theorem marked_eq {t : DataType} (type : FieldType) (plain : type.isOptional = false)
    (notNull : t.isNull = false) (union : type.isUnion = t.isUnion) :
    marked t type.spelling = (type.withOptional t.isOptional).spelling := by
  cases optional : t.isOptional with
  | false => simp [marked, optional, FieldType.withOptional]
  | true =>
      have wrapped : type.withOptional true = .optional type := by
        cases type with
        | optional inner => cases plain
        | _ => rfl
      rw [wrapped]
      simp [marked, optional, notNull, union, parenthesized, spelling]

theorem leafSource_eq {l : Leaf} (h : l ≠ .null) :
    leafSource l = (FieldType.ofLeaf l).spelling := by
  cases l with
  | null => exact absurd rfl h
  | literalBool value => cases value <;> rfl
  | _ => rfl

mutual

/-- **Where `null` does not occur, the text of a type is the spelling of its field type.** -/
theorem typeSource_eq_spelling (context : String) :
    ∀ t : DataType, t.nullFree = true →
      (typeSource context t).1 = (ofDataType context t).1.spelling
  | .leaf l o, h => by
      have notNull : l ≠ .null := by simpa [DataType.nullFree] using h
      show marked (.leaf l o) (leafSource l) = ((FieldType.ofLeaf l).withOptional o).spelling
      rw [leafSource_eq notNull]
      apply marked_eq
      · cases l with
        | null => exact absurd rfl notNull
        | _ => rfl
      · exact DataType.isNull_of_nullFree h
      · cases l <;> rfl
  | .list item o, h => by
      show marked (.list item o) (grouped item (typeSource context item).1 ++ ['[', ']'])
        = ((FieldType.list (ofDataType context item).1).withOptional o).spelling
      have inner : item.nullFree = true := h
      rw [grouped_eq context inner, typeSource_eq_spelling context item inner]
      exact marked_eq (t := .list item o) (.list (ofDataType context item).1) rfl rfl rfl
  | .union members o, h => by
      show marked (.union members o) (alternatives (typeSources context members).1)
        = ((FieldType.union (ofDataTypes context members).1).withOptional o).spelling
      have inner : DataType.nullFreeAll members = true := h
      rw [typeSources_eq_spellings context members inner]
      exact marked_eq (t := .union members o) (.union (ofDataTypes context members).1) rfl rfl rfl

theorem typeSources_eq_spellings (context : String) :
    ∀ types : List DataType, DataType.nullFreeAll types = true →
      (typeSources context types).1 = spellings (ofDataTypes context types).1
  | [], _ => rfl
  | t :: rest, h => by
      have both : t.nullFree = true ∧ DataType.nullFreeAll rest = true := by
        simpa [DataType.nullFreeAll] using h
      simp only [typeSources, ofDataTypes, spellings]
      rw [typeSource_eq_spelling context t both.1, typeSources_eq_spellings context rest both.2]

end

mutual

theorem typeSource_warnings (context : String) :
    ∀ t : DataType, (typeSource context t).2 = (ofDataType context t).2
  | .leaf l o => by cases l <;> rfl
  | .list item o => by
      simp only [typeSource, ofDataType]
      exact typeSource_warnings context item
  | .union members o => by
      simp only [typeSource, ofDataType]
      exact typeSources_warnings context members

theorem typeSources_warnings (context : String) :
    ∀ types : List DataType, (typeSources context types).2 = (ofDataTypes context types).2
  | [] => rfl
  | t :: rest => by
      simp only [typeSources, ofDataTypes]
      rw [typeSource_warnings context t, typeSources_warnings context rest]

end

/-! ## Parts -/

end Baml

namespace DataModel

open Baml

/-- The command that adds a part to its model. -/
def Part.addition : Part → BuildCommand
  | .field owner f =>
      .addProperty owner f.name (FieldType.ofDataType s!"{owner}.{f.name}" f.type).1
  | .value owner v => .addValue owner v.name

end DataModel

/-- Whether a command adds a property or a value. -/
def BuildCommand.addsPart : BuildCommand → Bool
  | .addProperty .. | .addValue .. => true
  | _ => false

namespace Plan

open DataModel (Part)

/-- The commands for a text add nothing. -/
theorem filter_forText (command : String → BuildCommand) (text? : Option String)
    (h : ∀ text, (command text).addsPart = false) :
    (forText command text?).filter BuildCommand.addsPart = [] := by
  cases text? with
  | none => rfl
  | some text => simp [forText, h]

theorem filter_ofField (owner : String) (f : DataField) :
    (ofField owner f).commands.filter BuildCommand.addsPart = [(Part.field owner f).addition] := by
  show (Part.field owner f).addition :: List.filter BuildCommand.addsPart
    (forText (.propertyDescription owner f.name) f.description?
      ++ forText (.propertyAlias owner f.name) f.alias?) = _
  rw [List.filter_append, filter_forText _ _ fun _ => rfl, filter_forText _ _ fun _ => rfl]
  rfl

theorem filter_ofFields (owner : String) (fields : List DataField) :
    (ofFields owner fields).commands.filter BuildCommand.addsPart
      = (fields.filter fun f => !f.skip).map fun f => (Part.field owner f).addition := by
  induction fields with
  | nil => rfl
  | cons f rest ih =>
      simp only [ofFields, List.filter_append, ih]
      cases skipped : f.skip with
      | true =>
          rw [List.filter_cons_of_neg (by simp [skipped])]
          rfl
      | false =>
          rw [List.filter_cons_of_pos (by simp [skipped])]
          simp only [Bool.false_eq_true, if_false, filter_ofField]
          rfl

theorem filter_ofValue (owner : String) (v : EnumMember) :
    (ofValue owner v).filter BuildCommand.addsPart = [(Part.value owner v).addition] := by
  have skips : (if v.skip then [BuildCommand.valueSkip owner v.name] else []).filter
      BuildCommand.addsPart = [] := by
    cases v.skip <;> rfl
  show (Part.value owner v).addition :: List.filter BuildCommand.addsPart
    ((if v.skip then [.valueSkip owner v.name] else [])
      ++ forText (.valueDescription owner v.name) v.description?
      ++ forText (.valueAlias owner v.name) v.alias?) = _
  rw [List.filter_append, List.filter_append, skips, filter_forText _ _ fun _ => rfl,
    filter_forText _ _ fun _ => rfl]
  rfl

/-- A model adds its parts in order. -/
theorem filter_ofModel (m : DataModel) :
    (ofModel m).commands.filter BuildCommand.addsPart = m.parts.map Part.addition := by
  cases m with
  | ofClass c =>
      show List.filter BuildCommand.addsPart (forText (.classDescription c.name) c.description?
        ++ forText (.classAlias c.name) c.alias? ++ (ofFields c.name c.fields).commands) = _
      rw [List.filter_append, List.filter_append, filter_forText _ _ fun _ => rfl,
        filter_forText _ _ fun _ => rfl, filter_ofFields, DataModel.parts, List.map_map]
      rfl
  | ofEnum e =>
      show List.filter BuildCommand.addsPart (forText (.enumDescription e.name) e.description?
        ++ forText (.enumAlias e.name) e.alias? ++ e.values.flatMap (ofValue e.name)) = _
      rw [List.filter_append, List.filter_append, filter_forText _ _ fun _ => rfl,
        filter_forText _ _ fun _ => rfl, List.filter_flatMap, DataModel.parts, List.map_map]
      simp only [filter_ofValue]
      exact List.map_eq_flatMap.symm

theorem warnings_ofFields (owner : String) (fields : List DataField) :
    (ofFields owner fields).warnings = (Baml.fieldLines owner fields).2 := by
  induction fields with
  | nil => rfl
  | cons f rest ih =>
      simp only [ofFields, Baml.fieldLines, ih]
      cases f.skip with
      | true => rfl
      | false =>
          simp only [Bool.false_eq_true, if_false, ofField, Baml.fieldLine,
            Baml.typeSource_warnings]

/-- A model is planned with the warnings that writing it gives. -/
theorem warnings_ofModel (m : DataModel) : (ofModel m).warnings = (Baml.modelSource m).2 := by
  cases m with
  | ofClass c => exact warnings_ofFields c.name c.fields
  | ofEnum e => rfl

theorem ofModels_eq (models : List DataModel) :
    ofModels models = ⟨models.flatMap fun m => (ofModel m).commands,
      models.flatMap fun m => (ofModel m).warnings⟩ := by
  induction models with
  | nil => rfl
  | cons m rest ih => simp only [ofModels, ih, List.flatMap_cons]

end Plan

/-- A field whose items are optional unions. -/
def tagsField : DataField where
  name := "tags"
  type := .list (.union [.of .any, .list (.leaf (.enumRef "Mode") true) false] true) true

/-- Both are set in parentheses where the other is. -/
example : (DataModel.Part.field "Note" tagsField).typeText
    = " ((str | (Mode?)[])?)[]?".toList := by
  decide

end SchemaLoom
