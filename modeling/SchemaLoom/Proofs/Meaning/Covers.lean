import Mathlib.Data.List.Forall2
import SchemaLoom.Proofs.Identifier.Names
import SchemaLoom.Proofs.Model.Inhabits
import SchemaLoom.Proofs.Walk.Parts
import SchemaLoom.Proofs.Walk.Rules

set_option autoImplicit false

/-! # Types that cover their schemas

A relation between schemas and types is closed under `Covers` if each pair in it has its reason: the
type is made of types that the relation gives to the parts of the schema, or names a model that was
made of them. Where a relation is closed, every value that is valid at a schema inhabits the types
that the relation gives to it (`inhabits_of_covers`), by induction on validity alone. A class may
refer to itself because its name is in the relation for the schema, whatever the fields are.
-/

namespace SchemaLoom

/-! ## Names of keys and texts -/

namespace Walk

@[simp] theorem wireName_fieldFor (required : List String) (property : String × Json)
    (type : DataType) : (fieldFor required property type).wireName = property.1 :=
  Identifier.getD_alias?_resolve .camel property.1

theorem isOptional_fieldFor (required : List String) (property : String × Json)
    (type : DataType) : (fieldFor required property type).type.isOptional
      = (type.isOptional || !required.contains property.1) :=
  DataType.isOptional_withOptional ..

/-- The value of an enum that stands for a text. -/
def enumMemberOf (text : String) : EnumMember :=
  { name := (Identifier.resolve .pascal text).identifier,
    alias? := (Identifier.resolve .pascal text).alias? }

@[simp] theorem wireName_enumMemberOf (text : String) : (enumMemberOf text).wireName = text :=
  Identifier.getD_alias?_resolve .pascal text

/-- How an enumeration is read: a `null` is told, a text that was seen is passed over, and any other
text gives a value. -/
theorem enumMembers_cons_eq_ok {owner path : String} {seen : Entries String} {literal : Json}
    {rest : List Json} {values : List EnumMember} {hasNull : Bool}
    (read : enumMembers owner path seen (literal :: rest) = .ok (values, hasNull)) :
    (literal = .null ∧ hasNull = true ∧
        ∃ others, enumMembers owner path seen rest = .ok (values, others)) ∨
      ∃ text, literal.literalText? = some text ∧
        ((Entries.get? (Identifier.resolve .pascal text).identifier seen = some text ∧
            enumMembers owner path seen rest = .ok (values, hasNull)) ∨
          ∃ others, Entries.get? (Identifier.resolve .pascal text).identifier seen = none ∧
            values = enumMemberOf text :: others ∧
            enumMembers owner path
              (((Identifier.resolve .pascal text).identifier, text) :: seen) rest
                = .ok (others, hasNull)) := by
  unfold enumMembers at read
  cases literalText : literal.literalText? with
  | none =>
      simp only [literalText] at read
      split at read
      · next isNull =>
          have null : literal = .null := by
            cases literal with
            | null => rfl
            | _ => cases isNull
          cases inner : enumMembers owner path seen rest with
          | error e =>
              rw [inner] at read
              cases read
          | ok out =>
              rw [inner] at read
              cases read
              exact Or.inl ⟨null, rfl, out.2, rfl⟩
      · cases read
  | some text =>
      simp only [literalText] at read
      refine Or.inr ⟨text, rfl, ?_⟩
      split at read
      · cases read
      · split at read
        · next first found =>
            split at read
            · next same =>
                rw [same] at found
                exact Or.inl ⟨found, read⟩
            · cases read
        · next absent =>
            cases inner : enumMembers owner path
                (((Identifier.resolve .pascal text).identifier, text) :: seen) rest with
            | error e =>
                rw [inner] at read
                cases read
            | ok out =>
                rw [inner] at read
                cases read
                exact Or.inr ⟨out.1, absent, rfl, rfl⟩

/-- Every text that is listed is the text of a value, or was seen before. -/
theorem mem_enumMembers {owner path : String} {seen : Entries String} {literals : List Json}
    {values : List EnumMember} {hasNull : Bool}
    (read : enumMembers owner path seen literals = .ok (values, hasNull)) {text : String}
    (mem : .str text ∈ literals) :
    (∃ member ∈ values, member.wireName = text) ∨
      Entries.get? (Identifier.resolve .pascal text).identifier seen = some text := by
  induction literals generalizing seen values hasNull with
  | nil => cases mem
  | cons literal rest ih =>
      rcases enumMembers_cons_eq_ok read with ⟨rfl, -, others, more⟩ |
        ⟨found, literalText, ⟨before, more⟩ | ⟨others, -, rfl, more⟩⟩
      · rcases List.mem_cons.mp mem with same | mem
        · cases same
        · exact ih more mem
      · rcases List.mem_cons.mp mem with rfl | mem
        · cases literalText
          exact Or.inr before
        · exact ih more mem
      · rcases List.mem_cons.mp mem with rfl | mem
        · cases literalText
          exact Or.inl ⟨_, List.mem_cons_self, wireName_enumMemberOf text⟩
        · rcases ih more mem with ⟨member, there, named⟩ | seen
          · exact Or.inl ⟨member, List.mem_cons_of_mem _ there, named⟩
          · -- The identifier may be the one that was just added; then the text is its text.
            by_cases same : (Identifier.resolve .pascal found).identifier
                = (Identifier.resolve .pascal text).identifier
            · rw [same, Entries.get?_cons_self] at seen
              cases seen
              exact Or.inl ⟨_, List.mem_cons_self, wireName_enumMemberOf text⟩
            · rw [Entries.get?_cons_of_ne same] at seen
              exact Or.inr seen

/-- A listed `null` is told. -/
theorem null_enumMembers {owner path : String} {seen : Entries String} {literals : List Json}
    {values : List EnumMember} {hasNull : Bool}
    (read : enumMembers owner path seen literals = .ok (values, hasNull))
    (mem : .null ∈ literals) : hasNull = true := by
  induction literals generalizing seen values hasNull with
  | nil => cases mem
  | cons literal rest ih =>
      rcases enumMembers_cons_eq_ok read with ⟨-, told, -⟩ |
        ⟨found, literalText, ⟨-, more⟩ | ⟨others, -, -, more⟩⟩
      · exact told
      · rcases List.mem_cons.mp mem with rfl | mem
        · cases literalText
        · exact ih more mem
      · rcases List.mem_cons.mp mem with rfl | mem
        · cases literalText
        · exact ih more mem

end Walk

/-! ## Types of parts -/

namespace Inhabits

variable {models : List DataModel} {type : DataType} {value : Json}

theorem any : Inhabits models (.of .any) value := .leaf trivial

theorem null : Inhabits models (.of .null) .null := .leaf rfl

theorem of_scalar {kind : Scalar} (admits : kind.Admits value) :
    Inhabits models kind.dataType value := by
  cases kind with
  | string => exact .leaf admits
  | int => exact .leaf admits
  | float => exact .leaf admits
  | bool => exact .leaf admits

/-- What is the same as a constant inhabits the type of the constant. -/
theorem of_const {constant : Json} (typed : Walk.constType? constant = some type)
    (same : constant.Same value) : Inhabits models type value := by
  cases same with
  | null =>
      cases typed
      exact .leaf rfl
  | bool b =>
      cases typed
      exact .leaf rfl
  | str text =>
      cases typed
      exact .leaf rfl
  | @num n m same =>
      cases typed
      cases n with
      | double bits => exact .leaf ⟨m, rfl⟩
      | int i =>
          cases m with
          | double bits => exact same.elim
          | int k =>
              have eq : i = k := same
              subst eq
              by_cases small : i < 0x8000000000000000
              · simp only [JsonNumber.toInt64?, if_pos small]
                exact .leaf rfl
              · simp only [JsonNumber.toInt64?, if_neg small]
                exact .leaf ⟨_, rfl⟩
  | arr | obj => cases typed

/-- A union admits what one of its alternatives admits. -/
theorem of_unionOf {types : List DataType} (mem : type ∈ types)
    (h : Inhabits models type value) : Inhabits models (Walk.unionOf types) value := by
  unfold Walk.unionOf
  by_cases isNull : type.isNull = true
  · -- The alternative `null` is taken out, but it makes the union optional.
    have any : types.any DataType.isNull = true := List.any_eq_true.mpr ⟨type, mem, isNull⟩
    rw [h.eq_null isNull, any]
    exact .absent (by simp)
  · have kept : type ∈ types.filter fun t => !t.isNull :=
      List.mem_filter.mpr ⟨mem, by simpa using isNull⟩
    refine Inhabits.withOptional ?_ _
    split
    · next none =>
        rw [none] at kept
        cases kept
    · next only one =>
        rw [one] at kept
        rwa [← List.mem_singleton.mp kept]
    · exact .union kept h

end Inhabits

/-! ## The relation and its reasons -/

section Covers

variable (document : Json) (models : List DataModel) (R : Json → DataType → Prop)

/-- Why a type is given to a shape: the types of the parts are given by the relation, and the model
that the type names has been made of them. -/
def Shape.CoveredBy : Shape → DataType → Prop
  | .ref reference, type => ∃ target, Pointer.resolve? document reference = some target ∧
      R target type
  | .single member, type => R member type
  | .union _ alternatives, type => ∃ types, List.Forall₂ R alternatives types ∧
      type = Walk.unionOf types
  | .const value, type => Walk.constType? value = some type
  | .enum literals, type => ∃ e owner path hasNull, .ofEnum e ∈ models ∧
      Walk.enumMembers owner path [] literals = .ok (e.values, hasNull) ∧
      type = (DataType.enumRef e.name).withOptional hasNull
  | .object own, type => ∃ c types, .ofClass c ∈ models ∧
      (Entries.names (declared own)).Nodup ∧
      List.Forall₂ (fun property type => R property.2 type) (declared own) types ∧
      c.fields = List.zipWith (Walk.fieldFor (Walk.requiredKeys own)) (declared own) types ∧
      type = .classRef c.name
  | .array (some item), type => ∃ inner, R item inner ∧ type = .listOf inner
  | shape, type => shape.plainType? = some type

/-- Why a type is given to a schema. -/
def Covers (schema : Json) (type : DataType) : Prop :=
  ∃ shape nullable core, classify schema = .ok ⟨shape, nullable⟩ ∧
    shape.CoveredBy document models R core ∧ type = core.withOptional nullable

end Covers

variable {document : Json} {models more : List DataModel} {R S : Json → DataType → Prop}

/-- A reason stays one when there are more models and more types of parts. -/
theorem Covers.mono {schema : Json} {type : DataType} (h : Covers document models R schema type)
    (models_le : models ⊆ more) (le : ∀ schema type, R schema type → S schema type) :
    Covers document more S schema type := by
  obtain ⟨shape, nullable, core, shaped, covered, rfl⟩ := h
  refine ⟨shape, nullable, core, shaped, ?_, rfl⟩
  cases shape with
  | ref reference =>
      obtain ⟨target, resolved, given⟩ := covered
      exact ⟨target, resolved, le _ _ given⟩
  | single member => exact le _ _ covered
  | union keyword alternatives =>
      obtain ⟨types, given, eq⟩ := covered
      exact ⟨types, given.imp le, eq⟩
  | enum literals =>
      obtain ⟨e, owner, path, hasNull, there, read, eq⟩ := covered
      exact ⟨e, owner, path, hasNull, models_le there, read, eq⟩
  | object object =>
      obtain ⟨c, types, there, distinct, given, fields, eq⟩ := covered
      exact ⟨c, types, models_le there, distinct, given.imp fun _ _ => le _ _, fields, eq⟩
  | array items? =>
      cases items? with
      | none => exact covered
      | some item =>
          obtain ⟨inner, given, eq⟩ := covered
          exact ⟨inner, le _ _ given, eq⟩
  | never | any | null | const | scalar | scalarUnion => exact covered

/-! ## Soundness -/

theorem exists_of_forall₂ {schemas : List Json} {types : List DataType}
    (h : List.Forall₂ R schemas types) {schema : Json} (mem : schema ∈ schemas) :
    ∃ type ∈ types, R schema type := by
  induction h with
  | nil => cases mem
  | cons related _ ih =>
      rcases List.mem_cons.mp mem with rfl | mem
      · exact ⟨_, List.mem_cons_self, related⟩
      · obtain ⟨type, among, given⟩ := ih mem
        exact ⟨type, List.mem_cons_of_mem _ among, given⟩

/-- The reason for a type, looked up by the shape of the schema. -/
theorem Covers.of_shape {schema : Json} {type : DataType} {shape : Shape} {nullable : Bool}
    (h : Covers document models R schema type) (shaped : classify schema = .ok ⟨shape, nullable⟩) :
    ∃ core, shape.CoveredBy document models R core ∧ type = core.withOptional nullable := by
  obtain ⟨shape', nullable', core, shaped', covered, rfl⟩ := h
  rw [shaped] at shaped'
  cases shaped'
  exact ⟨core, covered, rfl⟩

/-- An object whose declared members inhabit the types of their properties inhabits the class. -/
theorem Inhabits.of_object {object members : Entries Json} {c : DataClass} {types : List DataType}
    (there : .ofClass c ∈ models) (distinct : (Entries.names (declared object)).Nodup)
    (given : List.Forall₂ (fun property type => R property.2 type) (declared object) types)
    (fields : c.fields
      = List.zipWith (Walk.fieldFor (Walk.requiredKeys object)) (declared object) types)
    (required : ∀ key ∈ Walk.requiredKeys object, Entries.contains key (declared object) →
      Entries.contains key members)
    (allowed : ∀ key property value, Entries.get? key (declared object) = some property →
      Entries.get? key members = some value → property.isFalse = false)
    (valid : ∀ key property value type, Entries.get? key (declared object) = some property →
      Entries.get? key members = some value → R property type → Inhabits models type value) :
    Inhabits models (.classRef c.name) (.obj members) := by
  have origin : ∀ field ∈ c.fields, ∃ property type, R property.2 type ∧
      Entries.get? property.1 (declared object) = some property.2 ∧
      field = Walk.fieldFor (Walk.requiredKeys object) property type := by
    intro field hf
    rw [fields] at hf
    obtain ⟨property, type, mem, rfl⟩ := Walk.mem_fields hf
    have related := (List.forall₂_iff_zip.mp given).2 mem
    exact ⟨property, type, related, Entries.get?_of_mem distinct (List.of_mem_zip mem).1, rfl⟩
  refine .classRef there rfl ?_ ?_ ?_
  · intro field hf present
    obtain ⟨property, type, -, declares, rfl⟩ := origin field hf
    rw [Walk.wireName_fieldFor] at present
    obtain ⟨value, found⟩ := Option.isSome_iff_exists.mp present
    exact allowed property.1 property.2 value declares found
  · intro field hf value found
    obtain ⟨property, type, related, declares, rfl⟩ := origin field hf
    rw [Walk.wireName_fieldFor] at found
    exact (valid property.1 property.2 value type declares found related).withOptional _
  · intro field hf missing
    obtain ⟨property, type, -, declares, rfl⟩ := origin field hf
    rw [Walk.wireName_fieldFor] at missing
    have optional : (Walk.requiredKeys object).contains property.1 = false := by
      cases listed : (Walk.requiredKeys object).contains property.1 with
      | false => rfl
      | true =>
          have present := required property.1 (List.contains_iff_mem.mp listed)
            (by simp [Entries.contains, declares])
          simp [Entries.contains, missing] at present
    rw [Walk.isOptional_fieldFor, optional]
    simp

/-- **Where every type has its reason, valid values inhabit their types.** -/
theorem inhabits_of_covers
    (covers : ∀ schema type, R schema type → Covers document models R schema type)
    {schema value : Json} (valid : Valid document schema value) :
    ∀ type, R schema type → Inhabits models type value := by
  induction valid with
  | nullable shaped =>
      intro type given
      obtain ⟨core, -, rfl⟩ := (covers _ _ given).of_shape shaped
      exact .absent (by simp)
  | any shaped =>
      intro type given
      obtain ⟨core, covered, rfl⟩ := (covers _ _ given).of_shape shaped
      cases covered
      exact Inhabits.any.withOptional _
  | null shaped =>
      intro type given
      obtain ⟨core, covered, rfl⟩ := (covers _ _ given).of_shape shaped
      cases covered
      exact Inhabits.null.withOptional _
  | ref shaped resolved _ ih =>
      intro type given
      obtain ⟨core, ⟨target, found, related⟩, rfl⟩ := (covers _ _ given).of_shape shaped
      rw [resolved] at found
      cases found
      exact (ih core related).withOptional _
  | single shaped _ ih =>
      intro type given
      obtain ⟨core, related, rfl⟩ := (covers _ _ given).of_shape shaped
      exact (ih core related).withOptional _
  | union shaped mem _ ih =>
      intro type given
      obtain ⟨core, ⟨types, related, rfl⟩, rfl⟩ := (covers _ _ given).of_shape shaped
      obtain ⟨alternative, among, given⟩ := exists_of_forall₂ related mem
      exact (Inhabits.of_unionOf among (ih alternative given)).withOptional _
  | const shaped same =>
      intro type given
      obtain ⟨core, covered, rfl⟩ := (covers _ _ given).of_shape shaped
      exact (Inhabits.of_const covered same).withOptional _
  | listed shaped mem =>
      intro type given
      obtain ⟨core, ⟨e, owner, path, hasNull, there, read, rfl⟩, rfl⟩ :=
        (covers _ _ given).of_shape shaped
      obtain ⟨member, among, rfl⟩ := (Walk.mem_enumMembers read mem).resolve_right nofun
      exact ((Inhabits.enumRef there rfl among).withOptional _).withOptional _
  | listedNull shaped mem =>
      intro type given
      obtain ⟨core, ⟨e, owner, path, hasNull, there, read, rfl⟩, rfl⟩ :=
        (covers _ _ given).of_shape shaped
      rw [Walk.null_enumMembers read mem]
      exact .absent (by simp)
  | @object schema object members nullable shaped required inner ih =>
      intro type given
      obtain ⟨core, ⟨c, types, there, distinct, related, fields, rfl⟩, rfl⟩ :=
        (covers _ _ given).of_shape shaped
      refine Inhabits.withOptional (.of_object there distinct related fields required ?_ ?_) _
      · intro key property value declares found
        have valid := inner key property value declares found
        cases property with
        | bool b =>
            cases b with
            | false => exact absurd valid (not_valid_never rfl)
            | true => rfl
        | _ => rfl
      · intro key property value type declares found related
        exact ih key property value declares found type related
  | array shaped =>
      intro type given
      obtain ⟨core, covered, rfl⟩ := (covers _ _ given).of_shape shaped
      cases covered
      exact Inhabits.withOptional (.list fun _ _ => .any) _
  | items shaped _ ih =>
      intro type given
      obtain ⟨core, ⟨inner, related, rfl⟩, rfl⟩ := (covers _ _ given).of_shape shaped
      exact Inhabits.withOptional (.list fun value mem => ih value mem inner related) _
  | scalar shaped admits =>
      intro type given
      obtain ⟨core, covered, rfl⟩ := (covers _ _ given).of_shape shaped
      cases covered
      exact (Inhabits.of_scalar admits).withOptional _
  | scalarUnion shaped mem admits =>
      intro type given
      obtain ⟨core, covered, rfl⟩ := (covers _ _ given).of_shape shaped
      cases covered
      exact Inhabits.withOptional (.union (List.mem_map_of_mem mem) (.of_scalar admits)) _

end SchemaLoom
