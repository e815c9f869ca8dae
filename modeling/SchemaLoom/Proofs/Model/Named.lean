import SchemaLoom.Proofs.Model.Projected
import SchemaLoom.Proofs.References.Closed
import SchemaLoom.Proofs.Schema.Legible
import SchemaLoom.Proofs.Tool.Names

set_option autoImplicit false

/-! # Names of models

Every model of a conversion is well named: its own name and the names of its values are those of
types, the names of its fields are those of fields, and no two fields or values share one. Names are
made at two steps of a walk alone, where a class is opened and where an enumeration is read, so the
walk needs no more than `Walked.models_forall`. What types refer to has a model, and so its name is
the one of a model (`TargetsPresent`).
-/

namespace SchemaLoom

/-! ## Well-named models -/

/-- The names of a class and of its fields are what they should be, and the fields are told apart. -/
structure DataClass.WellNamed (c : DataClass) : Prop where
  name : isTypeName c.name = true
  fields : ∀ field ∈ c.fields, isFieldName field.name = true
  distinct : (c.fields.map DataField.name).Nodup

/-- The names of an enum and of its values are what they should be, and the values are told
apart. -/
structure DataEnum.WellNamed (e : DataEnum) : Prop where
  name : isTypeName e.name = true
  values : ∀ value ∈ e.values, isTypeName value.name = true
  distinct : (e.values.map EnumMember.name).Nodup

/-- The names in a model are what they should be. -/
def DataModel.WellNamed : DataModel → Prop
  | .ofClass c => c.WellNamed
  | .ofEnum e => e.WellNamed

/-- Every class and every enum that a type refers to is called by the name of a type. -/
def DataType.RefersByTypeNames (t : DataType) : Prop :=
  t.TargetsIn fun key => isTypeName key.2 = true

/-- The names in models are what they should be, and so are those that the types of fields and some
other types refer to. -/
structure WellNamed (types : List DataType) (models : List DataModel) : Prop where
  each : ∀ m ∈ models, m.WellNamed
  fields : ∀ c, .ofClass c ∈ models → ∀ field ∈ c.fields, field.type.RefersByTypeNames
  others : ∀ t ∈ types, t.RefersByTypeNames

theorem DataModel.WellNamed.isTypeName_name {m : DataModel} (h : m.WellNamed) :
    isTypeName m.name = true := by
  cases m with
  | ofClass c => exact DataClass.WellNamed.name h
  | ofEnum e => exact DataEnum.WellNamed.name h

/-- Types that refer to well-named models refer to them by the names of types. -/
theorem DataType.TargetsIn.refersByTypeNames {t : DataType} {models : List DataModel}
    (h : t.TargetsIn (· ∈ models.map DataModel.key)) (named : ∀ m ∈ models, m.WellNamed) :
    t.RefersByTypeNames := by
  refine h.mono ?_
  rintro _ there
  obtain ⟨m, mem, rfl⟩ := List.mem_map.mp there
  exact (named m mem).isTypeName_name

/-! ## Names of types -/

theorem isTypeName_append {stem : String} (named : isTypeName stem = true) {more : String}
    (plain : ∀ c ∈ more.toList, c.isAlphanum = true) : isTypeName (stem ++ more) = true := by
  simp only [isTypeName, isIdentifier, Bool.and_eq_true, String.toList_append, List.all_append,
    List.all_eq_true] at named ⊢
  obtain ⟨⟨some, letters⟩, capital⟩ := named
  cases chars : stem.toList with
  | nil =>
      rw [chars] at capital
      cases capital
  | cons first rest =>
      rw [chars] at letters capital
      exact ⟨⟨rfl, letters, plain⟩, capital⟩

theorem isTypeName_pascal {raw : String} (named : Identifier.pascal raw ≠ "") :
    isTypeName (Identifier.pascal raw) = true := Identifier.isNamed_of named

theorem isAlphanum_of_mem_toString (n : Nat) : ∀ c ∈ (toString n).toList, c.isAlphanum = true := by
  intro c hc
  have digits : (toString n).toList = Nat.toDigits 10 n := by simp [toString, Nat.repr]
  rw [digits] at hc
  have digit := Nat.isDigit_of_mem_toDigits (by decide) (by decide) hc
  simp [Char.isAlphanum, digit]

namespace Progress

variable (p : Progress)

/-- A name that is made up is the name of a type if its stem is. -/
theorem isTypeName_freshName {stem : String} (named : isTypeName stem = true) :
    isTypeName (p.freshName stem) = true := by
  have text : p.freshName stem = stem ++ toString (p.anonymous + 1) := by
    simp [freshName, toString]
  rw [text]
  exact isTypeName_append named (isAlphanum_of_mem_toString _)

theorem isTypeName_nameOr {stem : String} (named : isTypeName stem = true)
    {given : Option Identifier.Resolved}
    (each : ∀ name, given = some name → isTypeName name.identifier = true) :
    isTypeName (p.nameOr stem given).identifier = true := by
  cases given with
  | some name => exact each name rfl
  | none => exact p.isTypeName_freshName named

end Progress

namespace Walk

theorem isTypeName_titled? {title : Option String} {name : Identifier.Resolved}
    (h : titled? title = some name) : isTypeName name.identifier = true := by
  unfold titled? at h
  split at h
  · next text =>
      simp only at h
      split at h
      · cases h
      · next some =>
          cases h
          exact isTypeName_pascal some
  · cases h

theorem isTypeName_hinted? {hint : Option String} {name : String} (h : hinted? hint = some name) :
    isTypeName name = true := by
  obtain ⟨made, some⟩ := Option.filter_eq_some_iff.mp h
  obtain ⟨raw, -, rfl⟩ := Option.map_eq_some_iff.mp made
  exact isTypeName_pascal (by simpa using some)

theorem isTypeName_givenClassName? {rootName : String} {title : Option String} {site : Site}
    {name : Identifier.Resolved} (h : givenClassName? (Identifier.pascal rootName) title site
      = some name) : isTypeName name.identifier = true := by
  unfold givenClassName? at h
  split at h
  · next given =>
      cases h
      have some : Identifier.pascal rootName ≠ "" := by
        simp only [Bool.and_eq_true, decide_eq_true_eq] at given
        exact given.2
      exact isTypeName_pascal some
  · split at h
    · next found =>
        cases h
        exact isTypeName_titled? found
    · obtain ⟨hint, found, rfl⟩ := Option.map_eq_some_iff.mp h
      exact isTypeName_hinted? found

/-! ## Values -/

/-- Values have the names of their texts. -/
theorem name_enumMembers {owner path : String} {seen : Entries String} {literals : List Json}
    {values : List EnumMember} {hasNull : Bool}
    (read : enumMembers owner path seen literals = .ok (values, hasNull)) :
    (∀ value ∈ values, (∃ text ∈ literalTexts literals, value.name = Identifier.pascal text) ∧
        Entries.get? value.name seen = none) ∧
      (values.map EnumMember.name).Nodup := by
  induction literals generalizing seen values hasNull with
  | nil =>
      cases read
      exact ⟨nofun, List.nodup_nil⟩
  | cons literal rest ih =>
      rcases enumMembers_cons_eq_ok read with ⟨rfl, -, others, more⟩ |
        ⟨text, literalText, ⟨-, more⟩ | ⟨others, free, rfl, more⟩⟩
      · exact ih more
      · rw [literalTexts_cons_of_some literalText rest]
        obtain ⟨each, distinct⟩ := ih more
        refine ⟨fun value mem => ?_, distinct⟩
        obtain ⟨⟨other, there, named⟩, unseen⟩ := each value mem
        exact ⟨⟨other, List.mem_cons_of_mem _ there, named⟩, unseen⟩
      · rw [literalTexts_cons_of_some literalText rest]
        obtain ⟨each, distinct⟩ := ih more
        -- A later value was free when the name of the text had been taken.
        have apart (value : EnumMember) (mem : value ∈ others) :
            (enumMemberOf text).name ≠ value.name ∧ Entries.get? value.name seen = none := by
          have unseen := (each value mem).2
          by_cases same : (enumMemberOf text).name = value.name
          · rw [← same] at unseen
            exact absurd ((Entries.get?_cons_self ..).symm.trans unseen) nofun
          · exact ⟨same, (Entries.get?_cons_of_ne same ..).symm.trans unseen⟩
        refine ⟨fun value mem => ?_, ?_⟩
        · rcases List.mem_cons.mp mem with rfl | mem
          · exact ⟨⟨text, List.mem_cons_self, rfl⟩, free⟩
          · obtain ⟨⟨other, there, named⟩, -⟩ := each value mem
            exact ⟨⟨other, List.mem_cons_of_mem _ there, named⟩, (apart value mem).2⟩
        · refine List.nodup_cons.mpr ⟨fun again => ?_, distinct⟩
          obtain ⟨value, mem, same⟩ := List.mem_map.mp again
          exact (apart value mem).1 same.symm

theorem wellNamed_enumOf {p : Progress} {schema : Json} {path : String} {literals : List Json}
    {values : List EnumMember} {hasNull : Bool}
    (read : enumMembers (enumNameOf p schema).identifier path [] literals = .ok (values, hasNull)) :
    (enumOf schema (enumNameOf p schema) values).WellNamed where
  name := p.isTypeName_nameOr (by decide) fun _ => isTypeName_titled?
  values := by
    intro value mem
    obtain ⟨⟨text, there, named⟩, -⟩ := (name_enumMembers read).1 value mem
    have legible := ((enumMembers_eq_ok_iff ..).mp ⟨_, read⟩).1
    rw [named]
    exact Identifier.isNamed_of_isUsable .pascal (legible.usable text there)
  distinct := (name_enumMembers read).2

/-! ## Fields -/

/-- The fields of properties have the names of their keys. -/
theorem map_name_fields (required : List String) {properties : List (String × Json)}
    {types : List DataType} (all : types.length = properties.length) :
    (List.zipWith (fieldFor required) properties types).map DataField.name
      = (Entries.names properties).map Identifier.camel := by
  induction properties generalizing types with
  | nil => rfl
  | cons property rest ih =>
      cases types with
      | nil => cases all
      | cons type types => exact congrArg (_ :: ·) (ih (Nat.succ.inj all))

theorem wellNamed_classOf {rootName : String} {p : Progress} {own : Entries Json} {site : Site}
    {properties : List (String × Json)} {types : List DataType} {owner : String}
    (split : objectSplit owner own site = (properties, none))
    (all : types.length = properties.length) :
    (classOf own (p.className (Identifier.pascal rootName) own site)
      (List.zipWith (fieldFor (requiredKeys own)) properties types)).WellNamed := by
  have keys := legibleKeys_of_split split
  have names := map_name_fields (requiredKeys own) all
  refine ⟨p.isTypeName_nameOr (by decide) fun _ => isTypeName_givenClassName?, ?_, ?_⟩
  · intro field mem
    have named : field.name ∈ (Entries.names properties).map Identifier.camel := by
      rw [← names]
      exact List.mem_map_of_mem mem
    obtain ⟨key, there, named⟩ := List.mem_map.mp named
    rw [← named]
    exact Identifier.isNamed_of_isUsable .camel (keys.usable key there)
  · exact names ▸ keys.distinct

end Walk

/-! ## The walk -/

section Walks

variable {document : Json} {rootName : String} {p q : Progress}

theorem Walked.wellNamed {schema : Json} {site : Site} {type : DataType}
    (h : Walked document (Identifier.pascal rootName) schema site p type q)
    (before : ∀ m ∈ p.models, m.WellNamed) : ∀ m ∈ q.models, m.WellNamed :=
  h.models_forall Walk.wellNamed_enumOf Walk.wellNamed_classOf before

theorem DefinitionsWalked.wellNamed {definitions : List (String × Json)}
    (h : DefinitionsWalked document (Identifier.pascal rootName) definitions p q)
    (before : ∀ m ∈ p.models, m.WellNamed) : ∀ m ∈ q.models, m.WellNamed := by
  induction h with
  | nil => exact before
  | cons head _ ih => exact ih (head.wellNamed before)

end Walks

/-! ## Conversions -/

theorem WellNamed.of_convert {document : Json} {rootName : String} {c : Conversion}
    (h : convert document rootName = .ok c) : WellNamed [c.root] c.models := by
  obtain ⟨p, q, definitions, walked, models, -⟩ := convert_ok h
  have named : ∀ m ∈ c.models, m.WellNamed := by
    rw [models]
    exact walked.wellNamed (definitions.wellNamed nofun)
  have present := TargetsPresent.of_convert h
  exact
    { each := named
      fields := fun d mem field own => (present.fields d mem field own).refersByTypeNames named
      others := List.forall_mem_singleton.mpr (present.root.refersByTypeNames named) }

/-- Well-named lists are well named one after the other. -/
theorem WellNamed.append {types others : List DataType} {models more : List DataModel}
    (h : WellNamed types models) (h' : WellNamed others more) :
    WellNamed (types ++ others) (models ++ more) where
  each := List.forall_mem_append.mpr ⟨h.each, h'.each⟩
  fields := fun c mem => (List.mem_append.mp mem).elim (h.fields c) (h'.fields c)
  others := List.forall_mem_append.mpr ⟨h.others, h'.others⟩

theorem ToolAdapter.wellNamed_of_convertTools {adapter : ToolAdapter} {tools : List Tool}
    {set : ToolSet} (h : adapter.convertTools tools = .ok set) : WellNamed set.tools set.models := by
  obtain ⟨conversions, each, models, roots, -⟩ := convertTools_eq_ok h
  rw [models, roots]
  clear h models roots
  induction each with
  | nil => exact ⟨nofun, nofun, nofun⟩
  | cons one _ ih =>
      obtain ⟨schema, -, converted⟩ := convertTool_eq_ok one
      exact (WellNamed.of_convert converted).append ih

/-- **Whatever is emitted is well named**, for any document with any root name and for any tools. -/
theorem convert_wellNamed :
    (∀ document rootName c, convert document rootName = .ok c → WellNamed [c.root] c.models) ∧
      ∀ (adapter : ToolAdapter) (tools : List Tool) (set : ToolSet),
        adapter.convertTools tools = .ok set → WellNamed set.tools set.models :=
  ⟨fun _ _ _ => .of_convert, fun _ _ _ => ToolAdapter.wellNamed_of_convertTools⟩

/-- Shapes with names that start with digits, lose characters or are missing. -/
def oddShapes : Json :=
  .obj [("title", .str "…"),
    ("$defs", .obj [("2d-point", .obj [("properties", .obj [
      ("X_1", .obj [("type", .str "number")]),
      ("in", .obj [("type", .str "string"),
        ("enum", .arr [.str "m", .str "km/h", .num (.int 3), .str "m"])])])])]),
    ("anyOf", .arr [.obj [("$ref", .str "#/$defs/2d-point")],
      .obj [("properties", .obj [("from", .obj [("$ref", .str "#/$defs/2d-point")])])]])]

theorem convert_wellNamed_oddShapes :
    (∃ c, convert oddShapes "!" = .ok c ∧ WellNamed [c.root] c.models ∧
      c.models.map DataModel.name = ["V2dPoint", "AnonymousEnum1", "V2dPoint", "AnonymousEnum2",
        "AnonymousClass3"]) ∧
    ∃ set, ({} : ToolAdapter).convertTools [{ name := "…" },
        { name := "2d plot", inputSchema? := some oddShapes }] = .ok set ∧
      WellNamed set.tools set.models := by
  have document : (convert oddShapes "!").toOption.map (·.models.map DataModel.name)
      = some ["V2dPoint", "AnonymousEnum1", "V2dPoint", "AnonymousEnum2", "AnonymousClass3"] := by
    decide +kernel
  have tools : (({} : ToolAdapter).convertTools [{ name := "…" },
      { name := "2d plot", inputSchema? := some oddShapes }]).toOption.map (·.tools.length)
        = some 2 := by decide +kernel
  obtain ⟨c, converted, names⟩ := exists_of_toOption document
  obtain ⟨set, made, -⟩ := exists_of_toOption tools
  exact ⟨⟨c, converted, convert_wellNamed.1 _ _ c converted, names⟩,
    ⟨set, made, convert_wellNamed.2 _ _ set made⟩⟩

end SchemaLoom
