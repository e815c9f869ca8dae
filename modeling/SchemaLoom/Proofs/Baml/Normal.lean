import SchemaLoom.Proofs.Baml.Parts
import SchemaLoom.Proofs.Identifier.Names

set_option autoImplicit false

/-! # What the source tells of models

The source does not tell everything of the models that it is written from. The type `any` is
written as a string, a reference does not tell a class from an enum, `null` is never marked, a union
that stands bare in a union is written as its members, and skipped fields are left out. The normal
form of a model forgets just that, and it is written like the model.
-/

namespace SchemaLoom

/-- Whether the name of a reference is one of a class or an enum. -/
def Leaf.wellFormed : Leaf → Bool
  | .classRef name | .enumRef name => isTypeName name
  | _ => true

/-- The leaf that a text tells: `any` is written as a string, an enum like a class. -/
def Leaf.normal : Leaf → Leaf
  | .any => .string
  | .enumRef name => .classRef name
  | l => l

namespace DataType

mutual

/-- Whether all references are named like classes and all unions have at least two members. -/
def wellFormed : DataType → Bool
  | .leaf l _ => l.wellFormed
  | .list item _ => item.wellFormed
  | .union members _ => 2 ≤ members.length && wellFormedAll members

/-- Whether all types are well formed. -/
def wellFormedAll : List DataType → Bool
  | [] => true
  | t :: rest => t.wellFormed && wellFormedAll rest

end

/-- What a type contributes to a union that it is a member of. -/
def alternatives : DataType → List DataType
  | .union members false => members
  | t => [t]

mutual

/-- The type that a text tells. -/
def normal : DataType → DataType
  | .leaf l o => .leaf l.normal (o && l ≠ .null)
  | .list item o => .list item.normal o
  | .union members o => .union (normalMembers members) o

/-- The members of a union that a text tells. -/
def normalMembers : List DataType → List DataType
  | [] => []
  | t :: rest => t.normal.alternatives ++ normalMembers rest

end

/-! ## What becomes of members -/

theorem wellFormed_union {members : List DataType} {o : Bool}
    (h : (DataType.union members o).wellFormed = true) :
    2 ≤ members.length ∧ wellFormedAll members = true := by
  obtain ⟨two, all⟩ := Bool.and_eq_true_iff.1 h
  exact ⟨of_decide_eq_true two, all⟩

mutual

theorem length_alternatives_normal : ∀ {t : DataType}, t.wellFormed = true →
    1 ≤ t.normal.alternatives.length
  | .leaf _ _, _ | .list _ _, _ | .union _ true, _ => Nat.le_refl 1
  | .union members false, h => by
      obtain ⟨two, all⟩ := wellFormed_union h
      have long := length_normalMembers all
      show 1 ≤ (normalMembers members).length
      omega

/-- No member is lost, so a union keeps at least two. -/
theorem length_normalMembers : ∀ {ts : List DataType}, wellFormedAll ts = true →
    ts.length ≤ (normalMembers ts).length
  | [], _ => Nat.zero_le _
  | t :: rest, h => by
      have both := Bool.and_eq_true_iff.1 h
      have first := length_alternatives_normal both.1
      have more := length_normalMembers both.2
      rw [normalMembers, List.length_append, List.length_cons]
      omega

end

end DataType

namespace DataField

/-- Whether the name is a word and the type is well formed. -/
def wellFormed (f : DataField) : Bool := isIdentifier f.name && f.type.wellFormed

/-- The field that its line tells. -/
def normal (f : DataField) : DataField := { f with type := f.type.normal }

end DataField

namespace DataModel

/-- Whether the names are words, those of models and references start with an upper-case letter, and
all unions have at least two members. -/
def wellFormed : DataModel → Bool
  | .ofClass c => isTypeName c.name && c.fields.all DataField.wellFormed
  | .ofEnum e => isTypeName e.name && e.values.all fun value => isIdentifier value.name

/-- The model that its block tells. -/
def normal : DataModel → DataModel
  | .ofClass c =>
      .ofClass { c with fields := (c.fields.filter fun f => !f.skip).map DataField.normal }
  | .ofEnum e => .ofEnum e

end DataModel

namespace Baml

open DataModel (Part)

/-! ## Types -/

/-- Separated texts with a separator in front are texts with a separator in front of each. -/
theorem append_intercalate {α : Type} (separator : List α) {texts : List (List α)}
    (some : texts ≠ []) :
    separator ++ separator.intercalate texts = texts.flatMap (separator ++ ·) := by
  induction texts with
  | nil => exact absurd rfl some
  | cons text more ih =>
      cases more with
      | nil => simp
      | cons next more =>
          calc separator ++ separator.intercalate (text :: next :: more)
              = (separator ++ text) ++ (separator ++ separator.intercalate (next :: more)) := by
                rw [List.intercalate_cons_cons]
                simp only [List.append_assoc]
            _ = (text :: next :: more).flatMap (separator ++ ·) := by
                rw [ih (List.cons_ne_nil _ _)]
                rfl

theorem typeSources_append (context : String) (ts us : List DataType) :
    (typeSources context (ts ++ us)).1
      = (typeSources context ts).1 ++ (typeSources context us).1 := by
  induction ts with
  | nil => rfl
  | cons t rest ih => exact congrArg ((typeSource context t).1 :: ·) ih

theorem typeSources_ne_nil (context : String) {ts : List DataType} (some : 1 ≤ ts.length) :
    (typeSources context ts).1 ≠ [] := by
  cases ts with
  | nil => cases some
  | cons t rest => exact List.cons_ne_nil _ _

/-- A type is written like the union of what it contributes to one. -/
theorem alternatives_alternatives (context : String) (t : DataType) :
    alternatives (typeSources context t.alternatives).1 = (typeSource context t).1 := by
  match t with
  | .leaf _ _ | .list _ _ | .union _ true => exact List.intercalate_singleton
  | .union _ false => rfl

theorem grouped_normal (item : DataType) (text : List Char) :
    grouped item.normal text = grouped item text := by
  cases item with
  | leaf l o => cases l <;> cases o <;> rfl
  | list inner o => rfl
  | union members o => rfl

/-- Types with a bar in front of each. -/
def barred (texts : List (List Char)) : List Char := texts.flatMap (" | ".toList ++ ·)

mutual

/-- **The normal form of a type is written like the type.** -/
theorem typeSource_normal (context : String) : ∀ {t : DataType}, t.wellFormed = true →
    (typeSource context t.normal).1 = (typeSource context t).1
  | .leaf l o, _ => by cases l <;> cases o <;> rfl
  | .list item o, formed => by
      have inner := typeSource_normal context (t := item) formed
      show marked (.list item.normal o)
        (grouped item.normal (typeSource context item.normal).1 ++ ['[', ']']) = _
      rw [inner, grouped_normal]
      rfl
  | .union members o, formed => by
      obtain ⟨two, all⟩ := DataType.wellFormed_union formed
      have long := DataType.length_normalMembers all
      have same : alternatives (typeSources context (DataType.normalMembers members)).1
          = alternatives (typeSources context members).1 := by
        -- The bar in front of the first member is the same on both sides.
        have led := barred_normalMembers context all
        rw [barred, barred, ← append_intercalate _ (typeSources_ne_nil context (by omega)),
          ← append_intercalate _ (typeSources_ne_nil context (by omega))] at led
        exact List.append_cancel_left led
      show marked (.union (DataType.normalMembers members) o)
        (alternatives (typeSources context (DataType.normalMembers members)).1) = _
      rw [same]
      rfl

/-- The bars in front of all members are the ones between the members and one more, so that they
stay where members of a member become members. -/
theorem barred_normalMembers (context : String) : ∀ {ts : List DataType},
    DataType.wellFormedAll ts = true →
    barred (typeSources context (DataType.normalMembers ts)).1 = barred (typeSources context ts).1
  | [], _ => rfl
  | t :: rest, formed => by
      obtain ⟨first, more⟩ := Bool.and_eq_true_iff.1 formed
      have one : barred (typeSources context t.normal.alternatives).1
          = " | ".toList ++ (typeSource context t).1 := by
        have filled := typeSources_ne_nil context (DataType.length_alternatives_normal first)
        rw [barred, ← append_intercalate _ filled, ← typeSource_normal context first,
          ← alternatives_alternatives]
        rfl
      rw [DataType.normalMembers, typeSources_append, barred, List.flatMap_append]
      exact congrArg₂ (· ++ ·) one (barred_normalMembers context more)

end

/-! ## Models -/

theorem block_normal {m : DataModel} (formed : m.wellFormed = true) : m.normal.block = m.block := by
  cases m with
  | ofEnum e => rfl
  | ofClass c =>
      have fields := (Bool.and_eq_true_iff.1 formed).2
      have line (f : DataField) (hf : f ∈ c.fields) :
          (Part.field c.name f.normal).line = (Part.field c.name f).line := by
        have formed : f.wellFormed = true := List.all_eq_true.1 fields f hf
        have type := typeSource_normal s!"{c.name}.{f.name}" (Bool.and_eq_true_iff.1 formed).2
        show Baml.line (f.name.toList ++ ' ' :: (typeSource s!"{c.name}.{f.name}" f.type.normal).1
          ++ (Part.field c.name f).attributes) = _
        rw [type]
        rfl
      have lines : (DataModel.ofClass c).normal.parts.flatMap Part.line
          = (DataModel.ofClass c).parts.flatMap Part.line := by
        have kept : ((c.fields.filter fun f => !f.skip).map DataField.normal).filter
              (fun f => !f.skip)
            = (c.fields.filter fun f => !f.skip).map DataField.normal := by
          refine List.filter_eq_self.2 fun g hg => ?_
          obtain ⟨f, hf, rfl⟩ := List.mem_map.1 hg
          exact (List.mem_filter.1 hf).2
        simp only [DataModel.normal, DataModel.parts, kept, List.flatMap_map]
        exact List.flatMap_congr fun f hf => line f (List.mem_filter.1 hf).1
      show Baml.block "class" c.name ((DataModel.ofClass c).normal.parts.flatMap Part.line
        ++ blockAttributes c.description? c.alias?) = _
      rw [lines]
      rfl

/-- **The normal forms of models are written like the models.** -/
theorem render_normal {models : List DataModel} (formed : ∀ m ∈ models, m.wellFormed = true) :
    (render (models.map DataModel.normal)).text = (render models).text := by
  have blocks : (models.map DataModel.normal).map DataModel.block = models.map DataModel.block := by
    rw [List.map_map]
    exact List.map_congr_left fun m hm => block_normal (formed m hm)
  rw [render_text, render_text, blocks]

end Baml

end SchemaLoom
