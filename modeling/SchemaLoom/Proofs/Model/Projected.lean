import SchemaLoom.Proofs.Meaning.Covers
import SchemaLoom.Proofs.Walk.Keeps

set_option autoImplicit false

/-! # Every model is read off a schema

However a walk reached them, the models of a conversion come from the document: each class from an
object, with a field for every property and nothing else, and each enum from an enumeration, with a
value for every text. What a field keeps of its property is `DataField.Projects`; that identifiers
lose characters does no harm, for the alias keeps the key.

The models of a walk are those before and those that it makes (`Walked.projected`), so the step
lemma has to look at enumerations and objects alone.
-/

namespace SchemaLoom

/-! ## What a model keeps of its schema -/

/-- What a field keeps of the property that it was made of. -/
structure DataField.Projects (required : List String) (property : String × Json)
    (field : DataField) : Prop where
  name : field.name = Identifier.camel property.1
  wireName : field.wireName = property.1
  description : field.description? = Walk.textAt "description" property.2
  skip : field.skip = true ↔ property.2 = .bool false
  isOptional : property.1 ∉ required → field.type.isOptional = true

/-- What a class keeps of the object that it was made of: its properties in order. -/
structure DataClass.Projects (object : Entries Json) (c : DataClass) : Prop where
  fields : List.Forall₂ (DataField.Projects (Walk.requiredKeys object)) (declared object) c.fields
  description : c.description? = Walk.textAt "description" (.obj object)

/-- What an enum keeps of the enumeration that it was made of: the texts of its literals, each where
it stands first. -/
structure DataEnum.Projects (schema : Json) (literals : List Json) (e : DataEnum) : Prop where
  legible : ∀ literal ∈ literals, literal ≠ .null → literal.literalText?.isSome
  wireNames : e.values.map EnumMember.wireName
    = ((literals.filter (!·.isNull)).filterMap Json.literalText?).eraseDups
  description : e.description? = Walk.textAt "description" schema

/-- A model is made of a schema that stands in the document. -/
def DataModel.ProjectedFrom (document : Json) : DataModel → Prop
  | .ofClass c => ∃ object nullable, (Json.obj object).Within document ∧
      classify (.obj object) = .ok ⟨.object object, nullable⟩ ∧ c.Projects object
  | .ofEnum e => ∃ schema literals nullable, schema.Within document ∧
      classify schema = .ok ⟨.enum literals, nullable⟩ ∧ e.Projects schema literals

/-! ## Classes -/

namespace Walk

theorem fieldFor_projects (required : List String) (property : String × Json) (type : DataType) :
    DataField.Projects required property (fieldFor required property type) where
  name := rfl
  wireName := wireName_fieldFor required property type
  description := rfl
  skip := by
    obtain ⟨key, schema⟩ := property
    show schema.isFalse = true ↔ schema = .bool false
    cases schema with
    | bool b => cases b <;> simp [Json.isFalse]
    | _ => simp [Json.isFalse]
  isOptional := by
    intro absent
    rw [isOptional_fieldFor]
    simp [absent]

/-- Types for all properties give a field for each of them. -/
theorem fields_project (required : List String) {properties : List (String × Json)}
    {types : List DataType} (all : types.length = properties.length) :
    List.Forall₂ (DataField.Projects required) properties
      (List.zipWith (fieldFor required) properties types) := by
  induction properties generalizing types with
  | nil => exact .nil
  | cons property rest ih =>
      cases types with
      | nil => cases all
      | cons type types =>
          exact .cons (fieldFor_projects required property type) (ih (Nat.succ.inj all))

theorem classOf_projects {object : Entries Json} {name : Identifier.Resolved}
    {types : List DataType} (all : types.length = (declared object).length) :
    (classOf object name
      (List.zipWith (fieldFor (requiredKeys object)) (declared object) types)).Projects object where
  fields := fields_project _ all
  description := rfl

/-! ## Enums -/

/-- The texts that are not in the table of those seen. -/
def unseen (seen : Entries String) (texts : List String) : List String :=
  texts.filter fun text =>
    Entries.get? (Identifier.resolve .pascal text).identifier seen ≠ some text

theorem unseen_cons_of_seen {seen : Entries String} {text : String} (texts : List String)
    (h : Entries.get? (Identifier.resolve .pascal text).identifier seen = some text) :
    unseen seen (text :: texts) = unseen seen texts := by
  simp [unseen, h]

/-- A new text is listed, and nowhere again: its identifier was free, so that no other text is
taken for it. -/
theorem unseen_cons_of_new {seen : Entries String} {text : String} (texts : List String)
    (free : Entries.get? (Identifier.resolve .pascal text).identifier seen = none) :
    (unseen seen (text :: texts)).eraseDups = text ::
      (unseen (((Identifier.resolve .pascal text).identifier, text) :: seen) texts).eraseDups := by
  have kept : unseen seen (text :: texts) = text :: unseen seen texts := by simp [unseen, free]
  have others : (unseen seen texts).filter (fun other => !other == text)
      = unseen (((Identifier.resolve .pascal text).identifier, text) :: seen) texts := by
    unfold unseen
    rw [List.filter_filter]
    refine List.filter_congr fun other _ => ?_
    by_cases same : (Identifier.resolve .pascal text).identifier
        = (Identifier.resolve .pascal other).identifier
    · rw [← same, free, Entries.get?_cons_self]
      by_cases eq : other = text
      · simp [eq]
      · simp [eq, Ne.symm eq]
    · rw [Entries.get?_cons_of_ne same]
      have ne : other ≠ text := by
        rintro rfl
        exact same rfl
      simp [ne]
  rw [kept, List.eraseDups_cons, others]

/-- The values of an enumeration stand for the texts that were not seen before, each once. -/
theorem wireNames_enumMembers {owner path : String} {seen : Entries String}
    {literals : List Json} {values : List EnumMember} {hasNull : Bool}
    (read : enumMembers owner path seen literals = .ok (values, hasNull)) :
    values.map EnumMember.wireName
      = (unseen seen ((literals.filter (!·.isNull)).filterMap Json.literalText?)).eraseDups := by
  induction literals generalizing seen values hasNull with
  | nil =>
      cases read
      rfl
  | cons literal rest ih =>
      rcases enumMembers_cons_eq_ok read with ⟨rfl, -, others, more⟩ |
        ⟨text, literalText, split⟩
      · exact ih more
      · have notNull : literal.isNull = false := by
          cases literal with
          | null => cases literalText
          | _ => rfl
        have texts : ((literal :: rest).filter (!·.isNull)).filterMap Json.literalText?
            = text :: (rest.filter (!·.isNull)).filterMap Json.literalText? := by
          simp [notNull, literalText]
        rw [texts]
        rcases split with ⟨before, more⟩ | ⟨others, free, rfl, more⟩
        · rw [unseen_cons_of_seen _ before]
          exact ih more
        · rw [unseen_cons_of_new _ free, List.map_cons, wireName_enumMemberOf, ih more]

theorem legible_enumMembers {owner path : String} {seen : Entries String} {literals : List Json}
    {values : List EnumMember} {hasNull : Bool}
    (read : enumMembers owner path seen literals = .ok (values, hasNull)) :
    ∀ literal ∈ literals, literal ≠ .null → literal.literalText?.isSome := by
  induction literals generalizing seen values hasNull with
  | nil =>
      intro literal mem
      cases mem
  | cons first rest ih =>
      intro literal mem notNull
      rcases enumMembers_cons_eq_ok read with ⟨rfl, -, others, more⟩ |
        ⟨text, literalText, split⟩
      · exact ih more literal ((List.mem_cons.mp mem).resolve_left notNull) notNull
      · rcases List.mem_cons.mp mem with rfl | mem
        · rw [literalText]
          rfl
        · rcases split with ⟨-, more⟩ | ⟨others, -, -, more⟩
          · exact ih more literal mem notNull
          · exact ih more literal mem notNull

theorem enumOf_projects {schema : Json} {literals : List Json} {name : Identifier.Resolved}
    {owner path : String} {values : List EnumMember} {hasNull : Bool}
    (read : enumMembers owner path [] literals = .ok (values, hasNull)) :
    (enumOf schema name values).Projects schema literals where
  legible := legible_enumMembers read
  wireNames := by
    refine (wireNames_enumMembers read).trans ?_
    simp [unseen]
  description := rfl

end Walk

/-! ## The walk -/

/-- All models come from the document. -/
def Progress.Projected (document : Json) (p : Progress) : Prop :=
  ∀ m ∈ p.models, m.ProjectedFrom document

section Walks

variable {document : Json} {rootName : String} {p q : Progress}

theorem Progress.Projected.congr (h : p.Projected document) (models : q.models = p.models) :
    q.Projected document := by
  unfold Progress.Projected
  rwa [models]

/-- One more model that comes from the document, wherever it is put. -/
theorem Progress.Projected.insert {slot : Nat} {m : DataModel} (h : p.Projected document)
    (models : q.models = p.models.insertIdx slot m) (new : m.ProjectedFrom document) :
    q.Projected document := by
  intro other mem
  rw [models] at mem
  rcases List.eq_or_mem_of_mem_insertIdx mem with rfl | mem
  · exact new
  · exact h other mem

/-- **A walk within the document makes models that come from the document.** -/
theorem Walked.projected {schema : Json} {site : Site} {type : DataType}
    (h : Walked document rootName schema site p type q) (within : schema.Within document)
    (before : p.Projected document) : q.Projected document := by
  revert within before
  refine Walked.induct (motive := fun schema _ p _ q => schema.Within document →
    p.Projected document → q.Projected document) ?_ h
  intro schema site p type q rule within before
  cases rule with
  | plain | known => exact before
  | const => exact before.congr (Walk.models_afterConst ..)
  | enum shaped named read =>
      exact before.insert (Walk.models_afterEnum ..)
        ⟨schema, _, _, within, shaped, Walk.enumOf_projects read⟩
  | forward => exact before.congr (Progress.models_warn ..)
  | expand shaped miss resolved building fresh part =>
      exact part.2 (Pointer.resolve?_within resolved) before
  | single shaped part => exact part.2 ((within_of_single shaped).trans within) before
  | union shaped parts =>
      refine parts.with_mem.invariant (Progress.Projected document) ?_ before
      rintro member _ _ _ _ ⟨⟨-, keeps⟩, mem⟩
      have among := List.mem_map_of_mem (f := Prod.fst) mem
      rw [Walk.map_fst_memberParts] at among
      exact keeps ((within_of_union shaped among).trans within)
  | @object object nullable name properties types r shaped named split parts =>
      obtain ⟨_, rfl, rfl⟩ := classify_obj shaped nofun nofun
      have inner := (Walk.objectSplit_parts name.identifier object site).within
      rw [split] at inner
      have filled : r.Projected document := by
        refine parts.with_mem.invariant (Progress.Projected document) ?_
          (before.congr (Progress.models_opened ..))
        rintro field _ _ _ _ ⟨⟨-, keeps⟩, mem⟩
        obtain ⟨property, own, same⟩ := List.mem_map.mp mem
        cases same
        exact keeps ((inner _ (List.mem_map_of_mem own)).trans within)
      have all : types.length = properties.length := by
        rw [parts.length_eq, List.length_map]
      -- A walk that ends has made a field of every declared property.
      have own := Walk.objectSplit_eq_declared split
      subst own
      exact filled.insert (Progress.models_closed ..)
        ⟨object, nullable, within, shaped, Walk.classOf_projects all⟩
  | items shaped part => exact part.2 ((within_of_items shaped).trans within) before

theorem DefinitionsWalked.projected {definitions : List (String × Json)}
    (h : DefinitionsWalked document rootName definitions p q)
    (within : ∀ definition ∈ definitions, definition.2.Within document)
    (before : p.Projected document) : q.Projected document := by
  induction h with
  | nil => exact before
  | cons head _ ih =>
      have walked := head.projected (within _ List.mem_cons_self) before
      exact ih (fun definition mem => within definition (List.mem_cons_of_mem _ mem)) walked

end Walks

/-- **Every model is read off a schema of the document**: the fields of a class are the properties
of an object one by one, and the values of an enum the texts of an enumeration, each once. -/
theorem convert_models_projected {document : Json} {rootName : String} {c : Conversion}
    (h : convert document rootName = .ok c) : ∀ m ∈ c.models, m.ProjectedFrom document := by
  obtain ⟨p, q, definitions, walked, models, -⟩ := convert_ok h
  have start : Progress.initial.Projected document := by
    intro m mem
    cases mem
  have between := definitions.projected (fun _ => Pointer.definitions_within) start
  rw [models]
  exact walked.projected .refl between

/-- A catalogue of parts that refer to one another, with keys that are no identifiers and literals
that repeat. -/
def partCatalogue : Json :=
  .obj [("$defs", .obj [("part", .obj [
      ("description", .str "One part"),
      ("properties", .obj [
        ("part-no", .obj [("type", .str "string"), ("description", .str "As printed")]),
        ("spare of", .obj [("$ref", .str "#/$defs/part")]),
        ("legacy", .bool false)]),
      ("required", .arr [.str "part-no"])])]),
    ("anyOf", .arr [.obj [("allOf", .arr [.obj [("$ref", .str "#/$defs/part")]])],
      .obj [("enum", .arr [.str "sold out", .null, .str "sold out", .str "gone"])]])]

theorem convert_models_projected_partCatalogue : ∃ c,
    convert partCatalogue "Catalogue" = .ok c ∧ c.models.length = 3 ∧
      ∀ m ∈ c.models, m.ProjectedFrom partCatalogue := by
  have made : (convert partCatalogue "Catalogue").toOption.map (·.models.length) = some 3 := by
    decide +kernel
  obtain ⟨c, converted, three⟩ := exists_of_toOption made
  exact ⟨c, converted, three, convert_models_projected converted⟩

end SchemaLoom
