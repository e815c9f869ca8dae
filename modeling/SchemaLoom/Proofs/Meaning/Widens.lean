import SchemaLoom.Proofs.Meaning.Covers
import SchemaLoom.Proofs.Walk.Addressed
import SchemaLoom.Proofs.Walk.Keeps
import SchemaLoom.Proofs.Walk.Parts

set_option autoImplicit false

/-! # A conversion never narrows its schema

While a walk is under way it gives types to schemas, and it gives the name of a class to an object
before the class is there. The types given so far form a relation `R`; a walk from a progress whose
answers are in the relation (`Progress.Answers`) extends the relation, and everything it adds has
its reason in the end (`Grows`). The name of a class is added when its object is opened, for the
object and for the schemas that stand for it, and its reason is there when the object is closed.

At the end of a conversion all pairs have their reasons, so `inhabits_of_covers` applies.
-/

namespace SchemaLoom

/-- No list of types puts `null` next to `object`. -/
def ObjectsNotNullable (document : Json) : Prop :=
  ∀ entries types, (Json.obj entries).Within document →
    Entries.get? "type" entries = some (.arr types) → ¬ (.str "null" ∈ types ∧ .str "object" ∈ types)

namespace ObjectsNotNullable

/-- The test of one value: whether its list of types keeps `null` and `object` apart. -/
def passes : Json → Bool
  | .obj entries =>
      match Entries.get? "type" entries with
      | some (.arr types) =>
          let names := types.map Json.string?
          !(names.contains (some "null") && names.contains (some "object"))
      | _ => true
  | _ => true

theorem of_everywhere {document : Json} (h : document.everywhere passes = true) :
    ObjectsNotNullable document := by
  intro entries types within found
  have passed : passes (.obj entries) = true := within.passes h
  rintro ⟨null, object⟩
  have nullNamed : some "null" ∈ types.map Json.string? := List.mem_map.mpr ⟨_, null, rfl⟩
  have objectNamed : some "object" ∈ types.map Json.string? := List.mem_map.mpr ⟨_, object, rfl⟩
  simp [passes, found, nullNamed, objectNamed] at passed

end ObjectsNotNullable

theorem ObjectsNotNullable.nullable_eq {document schema : Json} {object : Entries Json}
    {nullable : Bool} (h : ObjectsNotNullable document) (within : schema.Within document)
    (shaped : classify schema = .ok ⟨.object object, nullable⟩) : nullable = false := by
  obtain ⟨entries, rfl, -⟩ := classify_obj shaped nofun nofun
  cases nullable with
  | false => rfl
  | true =>
      obtain ⟨types, found, null, object⟩ := classify_nullable_object shaped
      exact absurd ⟨null, object⟩ (h entries types within found)

theorem DistinctKeys.nodup_declared {document schema : Json} {object : Entries Json}
    {nullable : Bool} (h : DistinctKeys document) (within : schema.Within document)
    (shaped : classify schema = .ok ⟨.object object, nullable⟩) :
    (Entries.names (declared object)).Nodup := by
  obtain ⟨entries, rfl, rfl⟩ := classify_obj shaped nofun nofun
  unfold declared
  split
  · next found => exact h _ ((Json.within_of_get? found).trans within)
  · exact List.nodup_nil

/-! ## Relations that grow -/

/-- A relation extended by pairs that have their reasons over the models. -/
structure Grows (document : Json) (models : List DataModel) (R S : Json → DataType → Prop) :
    Prop where
  le : ∀ schema type, R schema type → S schema type
  covers : ∀ schema type, S schema type → R schema type ∨ Covers document models S schema type

/-- What the progress answers is in the relation. -/
structure Progress.Answers (document : Json) (R : Json → DataType → Prop) (p : Progress) : Prop where
  known : ∀ entry ∈ p.known, ∃ target, Pointer.resolve? document entry.1 = some target ∧
    R target entry.2
  building : ∀ entry ∈ p.building, ∀ target, Pointer.resolve? document entry.1 = some target →
    R target (.classRef entry.2)

section Growth

variable {document : Json} {models more : List DataModel} {R S T : Json → DataType → Prop}

theorem Grows.refl : Grows document models R R where
  le := fun _ _ h => h
  covers := fun _ _ h => Or.inl h

theorem Grows.trans (h : Grows document models R S) (h' : Grows document more S T)
    (le : models ⊆ more) : Grows document more R T where
  le := fun schema type given => h'.le _ _ (h.le _ _ given)
  covers := by
    intro schema type given
    rcases h'.covers schema type given with before | reason
    · rcases h.covers schema type before with given | reason
      · exact Or.inl given
      · exact Or.inr (reason.mono le h'.le)
    · exact Or.inr reason

/-- One more pair that has its reason. -/
theorem Grows.add {schema : Json} {type : DataType} (reason : Covers document models R schema type) :
    Grows document models R fun s t => R s t ∨ (s = schema ∧ t = type) where
  le := fun _ _ h => Or.inl h
  covers := by
    rintro s t (given | ⟨rfl, rfl⟩)
    · exact Or.inl given
    · exact Or.inr (reason.mono (List.Subset.refl _) fun _ _ h => Or.inl h)

variable {p q : Progress}

theorem Progress.Answers.mono (h : p.Answers document R)
    (le : ∀ schema type, R schema type → S schema type) : p.Answers document S where
  known := by
    intro entry he
    obtain ⟨target, resolved, given⟩ := h.known entry he
    exact ⟨target, resolved, le _ _ given⟩
  building := fun entry he target resolved => le _ _ (h.building entry he target resolved)

theorem Progress.Answers.congr (h : p.Answers document R) (known : q.known = p.known)
    (building : q.building = p.building) : q.Answers document R := by
  refine ⟨?_, ?_⟩
  · rw [known]
    exact h.known
  · rw [building]
    exact h.building

theorem Progress.Answers.initial :
    Progress.initial.Answers document fun _ _ => False where
  known := by
    intro entry he
    cases he
  building := by
    intro entry he
    cases he

end Growth

/-! ## The walk -/

section Walks

variable {document : Json} {rootName : String} {R : Json → DataType → Prop} {schema : Json}
  {site : Site} {p q : Progress} {type : DataType}

/-- A walk extends the relation by the type that it gives to its node. -/
def Progress.Extends (document : Json) (R : Json → DataType → Prop) (schema : Json)
    (type : DataType) (q : Progress) : Prop :=
  ∃ S, Grows document q.models R S ∧ q.Answers document S ∧ S schema type

/-- What a walk from a node promises. -/
def Progress.Widens (document : Json) (schema : Json) (site : Site) (p : Progress)
    (type : DataType) (q : Progress) : Prop :=
  Addressed document schema site → ∀ R, p.Answers document R →
    Progress.Extends document R schema type q

/-- The relation is extended by a pair that has its reason now. -/
theorem Progress.Extends.of_covers {S : Json → DataType → Prop}
    (grows : Grows document q.models R S) (answers : q.Answers document S)
    (reason : Covers document q.models S schema type) :
    Progress.Extends document R schema type q := by
  have added := Grows.add reason
  exact ⟨_, grows.trans added (List.Subset.refl _), answers.mono added.le, Or.inr ⟨rfl, rfl⟩⟩

theorem Chain.widens {parts : List (Json × Site)} {types : List DataType}
    (chain : Chain (fun schema site p type q => Walked document rootName schema site p type q ∧
      Progress.Widens document schema site p type q) parts p types q)
    (addressed : ∀ part ∈ parts, Addressed document part.1 part.2) (answers : p.Answers document R) :
    ∃ S, Grows document q.models R S ∧ q.Answers document S ∧
      List.Forall₂ S (parts.map Prod.fst) types := by
  induction chain generalizing R with
  | nil => exact ⟨R, .refl, answers, .nil⟩
  | @cons schema site rest p q r type types head tail ih =>
      obtain ⟨S, grows, answers, given⟩ :=
        head.2 (addressed (schema, site) List.mem_cons_self) R answers
      obtain ⟨T, grows', answers', others⟩ :=
        ih (fun part mem => addressed part (List.mem_cons_of_mem _ mem)) answers
      have later := (Progress.Keeps.of_chain tail fun part => part.1.keeps).models.subset
      exact ⟨T, grows.trans grows' later, answers', .cons (grows'.le _ _ given) others⟩

/-! ### Objects -/

/-- The relation with the name of the class of an object, given to the object and to the schemas
that stand for it. -/
def Promised (R : Json → DataType → Prop) (object : Json) (name : String) (schema : Json)
    (type : DataType) : Prop :=
  R schema type ∨ (Leads schema object ∧ type = .classRef name)

theorem Progress.Answers.opened {object : Entries Json} (h : p.Answers document R)
    (addressed : Addressed document schema site) :
    (p.opened rootName object site).Answers document
      (Promised R schema (p.className rootName object site).identifier) where
  known := by
    intro entry he
    rw [known_opened] at he
    obtain ⟨target, resolved, given⟩ := h.known entry he
    exact ⟨target, resolved, Or.inl given⟩
  building := by
    intro entry he target resolved
    rw [building_opened] at he
    rcases Entries.mem_insert he with rfl | before
    · exact Or.inr ⟨addressed.leads target resolved, rfl⟩
    · exact Or.inl (h.building entry before target resolved)

theorem Progress.Answers.closed {path : String} {slot : Nat} {c : DataClass}
    (h : p.Answers document R) : (p.closed path slot c).Answers document R where
  known := by
    rw [known_closed]
    exact h.known
  building := by
    intro entry he
    rw [building_closed] at he
    exact h.building entry ((Entries.erase_sublist _ _).subset he)

/-- Schemas that stand for an object that has its reason have the same reason. -/
theorem covers_of_leads {models : List DataModel} {object : Json} {name : String}
    {S : Json → DataType → Prop} (le : ∀ schema type, Promised R object name schema type →
      S schema type) (reason : Covers document models S object (.classRef name))
    (leads : Leads schema object) : Covers document models S schema (.classRef name) := by
  cases leads with
  | refl => exact reason
  | @single _ member _ nullable shaped rest =>
      have given : S member (.classRef name) := le _ _ (Or.inr ⟨rest, rfl⟩)
      obtain ⟨entries, rfl, -⟩ := classify_obj shaped nofun nofun
      obtain ⟨rfl, -⟩ := classify_single shaped
      exact ⟨.single member, false, .classRef name, shaped, given, by simp⟩

/-- When the class is closed the name that was promised has its reason. -/
theorem Grows.of_promised {models more : List DataModel} {object : Json} {name : String}
    {S : Json → DataType → Prop} (grows : Grows document models (Promised R object name) S)
    (le : models ⊆ more) (reason : Covers document more S object (.classRef name)) :
    Grows document more R S where
  le := fun schema type given => grows.le _ _ (Or.inl given)
  covers := by
    intro schema type given
    rcases grows.covers schema type given with (before | ⟨leads, rfl⟩) | own
    · exact Or.inl before
    · exact Or.inr (covers_of_leads grows.le reason leads)
    · exact Or.inr (own.mono le fun _ _ h => h)

/-- A class that is closed is the reason for its name. -/
theorem covers_of_closed {object : Entries Json} {name : Identifier.Resolved}
    {types : List DataType} {S : Json → DataType → Prop} {path : String} {slot : Nat}
    (shaped : classify schema = .ok ⟨.object object, false⟩)
    (names : (Entries.names (declared object)).Nodup) (inside : slot ≤ q.models.length)
    (given : List.Forall₂ (fun property type => S property.2 type) (declared object) types) :
    Covers document (q.closed path slot (Walk.classOf object name (List.zipWith
        (Walk.fieldFor (Walk.requiredKeys object)) (declared object) types))).models S schema
      (.classRef name.identifier) := by
  have there : .ofClass (Walk.classOf object name (List.zipWith
      (Walk.fieldFor (Walk.requiredKeys object)) (declared object) types)) ∈ (q.closed path slot
        (Walk.classOf object name (List.zipWith (Walk.fieldFor (Walk.requiredKeys object))
          (declared object) types))).models := Progress.mem_models_closed q inside path _
  refine ⟨_, false, .classRef name.identifier, shaped, ?_, (DataType.withOptional_false _).symm⟩
  exact ⟨_, types, there, names, given, rfl, rfl⟩

/-- An object extends the relation by the name of its class. -/
theorem Progress.Extends.of_object {object : Entries Json} {nullable : Bool}
    {properties : List (String × Json)} {types : List DataType} {r : Progress}
    (distinct : DistinctKeys document) (alone : SinglesAlone document)
    (plain : ObjectsNotNullable document) (addressed : Addressed document schema site)
    (answers : p.Answers document R) (shaped : classify schema = .ok ⟨.object object, nullable⟩)
    (split : Walk.objectSplit (p.className rootName object site).identifier object site
      = (properties, none))
    (parts : Chain (fun schema site p type q => Walked document rootName schema site p type q ∧
      Progress.Widens document schema site p type q) (properties.map (Walk.fieldPart site))
        (p.opened rootName object site) types r) :
    Progress.Extends document R schema
      ((DataType.classRef (p.className rootName object site).identifier).withOptional nullable)
      (r.closed site.path p.models.length (Walk.classOf object (p.className rootName object site)
        (List.zipWith (Walk.fieldFor (Walk.requiredKeys object)) properties types))) := by
  have all := Walk.objectSplit_eq_declared split
  subst all
  have required := plain.nullable_eq addressed.within shaped
  subst required
  have addressedParts : ∀ part ∈ (declared object).map (Walk.fieldPart site),
      Addressed document part.1 part.2 := by
    intro part mem
    obtain ⟨property, own, rfl⟩ := List.mem_map.mp mem
    exact (addressed.property alone distinct shaped (get?_properties_of_mem_declared own)
      own).addressed
  obtain ⟨S, grows, answers, given⟩ := parts.widens addressedParts (answers.opened addressed)
  have given : List.Forall₂ (fun property type => S property.2 type) (declared object) types := by
    rw [List.map_map, List.forall₂_map_left_iff] at given
    exact given
  have kept := (Progress.Keeps.of_chain parts fun part => part.1.keeps).models
  rw [Progress.models_opened] at kept
  have names := distinct.nodup_declared addressed.within shaped
  -- The fields were walked with the name of the class promised; now the class is there.
  refine ⟨S, grows.of_promised ?_ ?_, answers.closed, ?_⟩
  · exact (r.models_sublist_closed ..).subset
  · exact covers_of_closed shaped names kept.length_le given
  · exact grows.le _ _ (Or.inr ⟨.refl, DataType.withOptional_false _⟩)

/-- **Every walk extends the relation of schemas and types by pairs that have their reasons.** -/
theorem Walked.widens (distinct : DistinctKeys document) (alone : SinglesAlone document)
    (plain : ObjectsNotNullable document)
    (h : Walked document rootName schema site p type q) :
    Progress.Widens document schema site p type q := by
  refine Walked.induct (motive := Progress.Widens document) ?_ h
  intro schema site p type q rule addressed R answers
  cases rule with
  | @plain shape nullable core shaped typed =>
      refine .of_covers .refl answers ⟨shape, nullable, core, shaped, ?_, rfl⟩
      cases shape with
      | array items? =>
          cases items? with
          | none => exact typed
          | some items => cases typed
      | never | any | null | scalar | scalarUnion => exact typed
      | ref | single | union | const | enum | object => cases typed
  | @const value nullable core shaped typed =>
      refine .of_covers .refl (answers.congr ?_ ?_) ⟨_, nullable, core, shaped, typed, rfl⟩
      · exact Walk.known_afterConst ..
      · exact Walk.building_afterConst ..
  | @enum literals nullable name values hasNull shaped named read =>
      have there := p.mem_models_afterEnum schema name values
      refine .of_covers .refl (answers.congr (Walk.known_afterEnum ..) (Walk.building_afterEnum ..))
        ⟨_, nullable, _, shaped, ?_, rfl⟩
      exact ⟨Walk.enumOf schema name values, name.identifier, site.path, hasNull, there, read, rfl⟩
  | @known reference nullable core shaped hit =>
      obtain ⟨target, resolved, given⟩ := answers.known _ (Entries.mem_of_get? hit)
      exact .of_covers .refl answers ⟨_, nullable, core, shaped, ⟨target, resolved, given⟩, rfl⟩
  | @forward reference nullable target name shaped miss resolved building =>
      -- The name has been in the relation since its object was opened.
      have given := answers.building _ (Entries.mem_of_get? building) target resolved
      exact .of_covers .refl (answers.congr rfl rfl)
        ⟨_, nullable, .classRef name, shaped, ⟨target, resolved, given⟩, rfl⟩
  | @expand reference nullable target core r shaped miss resolved building resolving part =>
      obtain ⟨S, grows, answers, given⟩ :=
        part.2 (Pointed.ofReference resolved).addressed R (answers.congr rfl rfl)
      refine .of_covers grows ?_ ⟨_, nullable, core, shaped, ⟨target, resolved, given⟩, rfl⟩
      refine ⟨?_, answers.building⟩
      intro entry he
      rcases Entries.mem_insert he with rfl | before
      · exact ⟨target, resolved, given⟩
      · exact answers.known entry before
  | @single member nullable core _ shaped part =>
      obtain ⟨S, grows, answers, given⟩ := part.2 (addressed.single shaped) R answers
      exact .of_covers grows answers ⟨_, nullable, core, shaped, given, rfl⟩
  | @union keyword alternatives nullable types _ shaped parts =>
      obtain ⟨S, grows, answers, given⟩ :=
        parts.widens (fun part mem => (addressed.memberParts alone shaped mem).addressed) answers
      rw [Walk.map_fst_memberParts] at given
      exact .of_covers grows answers
        ⟨_, nullable, Walk.unionOf types, shaped, ⟨types, given, rfl⟩, rfl⟩
  | object shaped named split parts =>
      subst named
      exact .of_object distinct alone plain addressed answers shaped split parts
  | @items item nullable core _ shaped part =>
      obtain ⟨S, grows, answers, given⟩ := part.2 (addressed.items alone shaped).addressed R answers
      exact .of_covers grows answers
        ⟨_, nullable, .listOf core, shaped, ⟨core, given, rfl⟩, rfl⟩

end Walks

/-! ## Whole conversions -/

theorem DefinitionsWalked.widens {document : Json} {rootName : String}
    (distinct : DistinctKeys document) (alone : SinglesAlone document)
    (plain : ObjectsNotNullable document) {definitions : List (String × Json)} {p q : Progress}
    (h : DefinitionsWalked document rootName definitions p q)
    (among : definitions ⊆ Pointer.definitions document) {R : Json → DataType → Prop}
    (answers : p.Answers document R) :
    ∃ S, Grows document q.models R S ∧ q.Answers document S := by
  induction h generalizing R with
  | nil => exact ⟨R, .refl, answers⟩
  | @cons path schema rest p q r type head tail ih =>
      have addressed := (Pointed.definition distinct (among List.mem_cons_self)).addressed
      obtain ⟨S, grows, answers, -⟩ :=
        head.widens distinct alone plain addressed R (answers.congr rfl rfl)
      obtain ⟨T, grows', answers'⟩ := ih (fun d mem => among (List.mem_cons_of_mem _ mem))
        (answers.congr rfl rfl)
      exact ⟨T, grows.trans grows' tail.precedes.models, answers'⟩

/-- **A conversion never narrows its schema**: where no list of types puts `null` next to `object`
and no schema that stands for the only member of its `allOf` carries items or alternatives, every
value that is valid at a document inhabits the type of the document over its models. -/
theorem inhabits_of_valid {document : Json} {rootName : String} {c : Conversion}
    (distinct : DistinctKeys document) (alone : SinglesAlone document)
    (plain : ObjectsNotNullable document) (h : convert document rootName = .ok c) {value : Json}
    (valid : Valid document document value) : Inhabits c.models c.root value := by
  obtain ⟨p, q, definitions, walked, models, -⟩ := convert_ok h
  obtain ⟨R, grows, answers⟩ := definitions.widens distinct alone plain
    (List.Subset.refl _) Progress.Answers.initial
  obtain ⟨S, grows', -, given⟩ := walked.widens distinct alone plain (Pointed.root document).addressed R
    answers
  have reasons := grows.trans grows' walked.keeps.models.subset
  have covers : ∀ schema type, S schema type → Covers document c.models S schema type := by
    intro schema type given
    rw [models]
    exact (reasons.covers schema type given).resolve_left id
  exact inhabits_of_covers covers valid c.root given

/-- A tree whose class is named by its own fields before it exists. -/
def treeSchema : Json :=
  .obj [("type", .str "object"),
    ("properties", .obj [("value", .obj [("type", .str "integer")]),
      ("left", .obj [("$ref", .str "#/$defs/Tree")])]),
    ("required", .arr [.str "value"])]

/-- The document of trees. -/
def treeDocument : Json :=
  .obj [("$defs", .obj [("Tree", treeSchema)]), ("$ref", .str "#/$defs/Tree")]

/-- A tree with a left part, if there is one. -/
def treeOf (n : Int) (left : List (String × Json)) : Json := .obj (("value", .num (.int n)) :: left)

theorem valid_treeOf (n : Int) {left : List (String × Json)}
    (valid : ∀ value, Entries.get? "left" left = some value →
      Valid treeDocument treeSchema value) : Valid treeDocument treeSchema (treeOf n left) := by
  refine .of_declared rfl ?_ ?_
  · intro key required _
    have only : key = "value" := List.mem_singleton.mp required
    rw [only, Entries.contains, Entries.get?_cons_self]
    rfl
  · intro property declared value found
    have either : property = ("value", .obj [("type", .str "integer")])
        ∨ property = ("left", .obj [("$ref", .str "#/$defs/Tree")]) := by
      rcases List.mem_cons.mp declared with same | more
      · exact Or.inl same
      · exact Or.inr (List.mem_singleton.mp more)
    rcases either with rfl | rfl
    · rw [Entries.get?_cons_self] at found
      cases found
      exact .scalar rfl (show Scalar.int.Admits (.num (.int n)) from ⟨n, rfl⟩)
    · rw [Entries.get?_cons_of_ne (by decide)] at found
      exact .ref rfl rfl (valid value found)

/-- A tree of two nodes inhabits the class that its schema is converted to. -/
theorem inhabits_of_valid_tree : ∃ c, convert treeDocument "Forest" = .ok c ∧
    Inhabits c.models c.root (treeOf 1 [("left", treeOf 2 [])]) := by
  have valid : Valid treeDocument treeDocument (treeOf 1 [("left", treeOf 2 [])]) := by
    refine .ref rfl (rfl : Pointer.resolve? treeDocument "#/$defs/Tree" = some treeSchema) ?_
    refine valid_treeOf 1 ?_
    intro value found
    rw [Entries.get?_cons_self] at found
    cases found
    exact valid_treeOf 2 (by intro _ none; cases none)
  have ok : (convert treeDocument "Forest").isOk = true := by decide +kernel
  cases converted : convert treeDocument "Forest" with
  | ok c =>
      refine ⟨c, rfl, inhabits_of_valid (.of_everywhere ?_) (.of_everywhere ?_)
        (.of_everywhere ?_) converted valid⟩
      all_goals decide +kernel
  | error e =>
      rw [converted] at ok
      cases ok

end SchemaLoom
