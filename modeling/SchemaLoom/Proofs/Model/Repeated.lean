import SchemaLoom.Proofs.Walk.Addressed
import SchemaLoom.Proofs.Walk.Ends

set_option autoImplicit false

/-! # Models that are made twice

A definition that is also referred to is converted twice, and each time into a model. One expects
the two models to be the same, since they are made of the same schema at the same site; but a
conversion depends on what has been converted before. A name that is made up is a new one every
time, and a reference is answered by a type that is known, by an expansion, or by the name of a
class under construction. Of a schema that is `Steady` nothing of this is seen: it needs no name
that would have to be made up, and where one of its references is answered by the name of a class
under construction, an expansion of the reference gives that class, too. Then all conversions of
the schema give one type (`Steady.type_eq`) and one model (`SteadyModel.model_eq`).
-/

namespace SchemaLoom

/-- The model at the place that was the next one when the call began. -/
def Call.model? (document : Json) (rootName : String) (call : Call) : Option DataModel :=
  match call.run document rootName with
  | .ok (_, q) => q.models[call.start.models.length]?
  | .error _ => none

/-! ## Schemas that give one type -/

/-- The schema at the site is converted into the class of the name and is not nullable. -/
inductive NamesClass (rootName : String) : Json → Site → String → Prop where
  | object {schema : Json} {site : Site} {object : Entries Json} {name : Identifier.Resolved}
      (shaped : classify schema = .ok ⟨.object object, false⟩)
      (given : Walk.givenClassName? rootName (Walk.textAt "title" (.obj object)) site = some name) :
      NamesClass rootName schema site name.identifier
  | single {schema member : Json} {site : Site} {name : String} {nullable : Bool}
      (shaped : classify schema = .ok ⟨.single member, nullable⟩)
      (member : NamesClass rootName member site name) : NamesClass rootName schema site name

/-- If the reference is answered by the name of a class under construction, its target is converted
into this class. -/
def Faithful (document : Json) (rootName : String) (warnings : List Warning) (reference : String) :
    Prop :=
  ∀ name, .unresolvedCycle name reference ∈ warnings →
    ∃ target, Pointer.resolve? document reference = some target ∧
      NamesClass rootName target (.ofReference reference) name

/-- No name has to be made up for the node or for what stands in it, and the references in it are
faithful. -/
inductive Steady (document : Json) (rootName : String) (warnings : List Warning) :
    Json → Site → Prop where
  | plain {schema : Json} {site : Site} {shape : Shape} {nullable : Bool} {type : DataType}
      (shaped : classify schema = .ok ⟨shape, nullable⟩) (typed : shape.plainType? = some type) :
      Steady document rootName warnings schema site
  | const {schema value : Json} {site : Site} {nullable : Bool}
      (shaped : classify schema = .ok ⟨.const value, nullable⟩) :
      Steady document rootName warnings schema site
  | enum {schema : Json} {site : Site} {literals : List Json} {nullable : Bool}
      {name : Identifier.Resolved} (shaped : classify schema = .ok ⟨.enum literals, nullable⟩)
      (titled : Walk.titled? (Walk.textAt "title" schema) = some name) :
      Steady document rootName warnings schema site
  | object {schema : Json} {site : Site} {object : Entries Json} {nullable : Bool}
      {name : Identifier.Resolved} (shaped : classify schema = .ok ⟨.object object, nullable⟩)
      (given : Walk.givenClassName? rootName (Walk.textAt "title" (.obj object)) site = some name) :
      Steady document rootName warnings schema site
  | ref {schema : Json} {site : Site} {reference : String} {nullable : Bool}
      (shaped : classify schema = .ok ⟨.ref reference, nullable⟩)
      (faithful : Faithful document rootName warnings reference) :
      Steady document rootName warnings schema site
  | single {schema member : Json} {site : Site} {nullable : Bool}
      (shaped : classify schema = .ok ⟨.single member, nullable⟩)
      (member : Steady document rootName warnings member site) :
      Steady document rootName warnings schema site
  | union {schema : Json} {site : Site} {keyword : UnionKeyword} {alternatives : List Json}
      {nullable : Bool} (shaped : classify schema = .ok ⟨.union keyword alternatives, nullable⟩)
      (members : ∀ part ∈ Walk.memberParts keyword site 0 alternatives,
        Steady document rootName warnings part.1 part.2) :
      Steady document rootName warnings schema site
  | items {schema item : Json} {site : Site} {nullable : Bool}
      (shaped : classify schema = .ok ⟨.array (some item), nullable⟩)
      (item : Steady document rootName warnings item (site.child "items" site.hint)) :
      Steady document rootName warnings schema site

namespace NamesClass

variable {document : Json} {rootName : String} {schema : Json} {site : Site} {name : String}

theorem unique (h : NamesClass rootName schema site name) {other : String}
    (h' : NamesClass rootName schema site other) : name = other := by
  induction h with
  | object shaped given =>
      cases h' with
      | object again given' =>
          rw [shaped] at again
          cases again
          rw [given] at given'
          cases given'
          rfl
      | single again =>
          rw [shaped] at again
          cases again
  | single shaped _ ih =>
      cases h' with
      | object again =>
          rw [shaped] at again
          cases again
      | single again rest =>
          rw [shaped] at again
          cases again
          exact ih rest

/-- All walks of such a schema give the class. -/
theorem type_eq (h : NamesClass rootName schema site name) {p q : Progress} {type : DataType}
    (walked : Walked document rootName schema site p type q) : type = .classRef name := by
  induction h generalizing p type q with
  | object shaped given =>
      obtain ⟨core, rfl, -, -, -, -, -, rfl, -⟩ := walked.step.outcome shaped
      rw [DataType.withOptional_false, Progress.className, given]
      rfl
  | single shaped _ ih =>
      -- A node that stands for its only member is not nullable, so the member's type stays.
      obtain ⟨core, rfl, part⟩ := walked.step.outcome shaped
      obtain ⟨entries, rfl, -⟩ := classify_obj shaped nofun nofun
      rw [(classify_single shaped).1, DataType.withOptional_false]
      exact ih part

end NamesClass

/-! ## Answers to a reference -/

section Answers

variable {document : Json} {rootName : String} {z : Progress}

/-- The reference is answered by the type at some time, as one sees when all is done. -/
def Progress.Answered (z : Progress) (reference : String) (type : DataType) : Prop :=
  Entries.get? reference z.known = some type ∨
    ∃ name, type = .classRef name ∧ .unresolvedCycle name reference ∈ z.warnings

/-- A walk of a reference answers it. -/
theorem Walked.answered {schema : Json} {site : Site} {p q : Progress} {type : DataType}
    {reference : String} {nullable : Bool} (h : Walked document rootName schema site p type q)
    (shaped : classify schema = .ok ⟨.ref reference, nullable⟩) (before : q.Precedes z) :
    z.Answered reference type := by
  obtain ⟨core, rfl, made⟩ := h.step.outcome shaped
  rw [classify_ref shaped, DataType.withOptional_false]
  rcases made with ⟨known, rfl⟩ | ⟨name, -, rfl, rfl⟩ | ⟨target, r, -, -, -, rfl⟩
  · exact Or.inl (before.known _ _ known)
  · refine Or.inr ⟨name, rfl, before.warnings ?_⟩
    exact List.mem_append_right _ List.mem_cons_self
  · exact Or.inl (before.known _ _ (Entries.get?_insert_self ..))

/-- A faithful reference has one answer. -/
theorem Faithful.answer_eq {reference : String} {type other : DataType}
    (faithful : Faithful document rootName z.warnings reference)
    (justified : z.Justified document rootName) (h : z.Answered reference type)
    (h' : z.Answered reference other) : type = other := by
  -- What is known was expanded, and the expansion gave the class that the warning names.
  have mixed {name : String} {type : DataType}
      (known : Entries.get? reference z.known = some type)
      (warned : .unresolvedCycle name reference ∈ z.warnings) : type = .classRef name := by
    obtain ⟨target, q, r, resolved, walked⟩ := justified reference type known
    obtain ⟨same, again, names⟩ := faithful name warned
    rw [resolved] at again
    cases again
    exact names.type_eq walked
  rcases h with known | ⟨name, rfl, warned⟩
  · rcases h' with known' | ⟨name', rfl, warned'⟩
    · rw [known] at known'
      exact Option.some.inj known'
    · exact mixed known warned'
  · rcases h' with known' | ⟨name', rfl, warned'⟩
    · exact (mixed known' warned).symm
    · obtain ⟨target, resolved, names⟩ := faithful name warned
      obtain ⟨same, again, names'⟩ := faithful name' warned'
      rw [resolved] at again
      cases again
      rw [names.unique names']

end Answers

/-! ## Steady schemas -/

section Walks

variable {document : Json} {rootName : String} {z : Progress}

/-- Whatever walks of the schema end before the progress, they give one type. -/
def OneType (document : Json) (rootName : String) (z : Progress) (schema : Json) (site : Site) :
    Prop :=
  ∀ {p q p' q' : Progress} {type type' : DataType},
    Walked document rootName schema site p type q → q.Precedes z →
      Walked document rootName schema site p' type' q' → q'.Precedes z → type = type'

/-- Walks of the same parts give the same types. -/
theorem Chain.types_eq {parts : List (Json × Site)} {p q p' q' : Progress}
    {types types' : List DataType} (chain : Chain (Walked document rootName) parts p types q)
    (chain' : Chain (Walked document rootName) parts p' types' q') (before : q.Precedes z)
    (before' : q'.Precedes z)
    (same : ∀ part ∈ parts, OneType document rootName z part.1 part.2) : types = types' := by
  induction chain generalizing p' types' with
  | nil =>
      cases chain'
      rfl
  | cons head tail ih =>
      cases chain' with
      | cons head' tail' =>
          -- The first part ends before the others do.
          have after := (Progress.Precedes.of_chain tail fun part => part.precedes).trans before
          have after' := (Progress.Precedes.of_chain tail' fun part => part.precedes).trans before'
          have first := same _ List.mem_cons_self head after head' after'
          have rest := ih tail' before fun part mem => same part (List.mem_cons_of_mem _ mem)
          rw [first, rest]

/-- **Walks of a steady schema give one type.** -/
theorem Steady.type_eq (justified : z.Justified document rootName) {schema : Json} {site : Site}
    (steady : Steady document rootName z.warnings schema site) :
    OneType document rootName z schema site := by
  induction steady with
  | plain shaped typed =>
      intro p q p' q' type type' h _ h' _
      obtain ⟨core, rfl, made⟩ := h.step.outcome shaped
      obtain ⟨core', rfl, made'⟩ := h'.step.outcome shaped
      rw [made.of_plain typed, made'.of_plain typed]
  | const shaped =>
      intro p q p' q' type type' h _ h' _
      obtain ⟨core, rfl, typed, -⟩ := h.step.outcome shaped
      obtain ⟨core', rfl, typed', -⟩ := h'.step.outcome shaped
      rw [Option.some.inj (typed.symm.trans typed')]
  | enum shaped titled =>
      intro p q p' q' type type' h _ h' _
      obtain ⟨core, rfl, values, hasNull, read, rfl, -⟩ := h.step.outcome shaped
      obtain ⟨core', rfl, values', hasNull', read', rfl, -⟩ := h'.step.outcome shaped
      simp only [Walk.enumNameOf, titled, Progress.nameOr] at read read' ⊢
      rw [read] at read'
      cases read'
      rfl
  | object shaped given =>
      intro p q p' q' type type' h _ h' _
      obtain ⟨core, rfl, -, -, -, -, -, rfl, -⟩ := h.step.outcome shaped
      obtain ⟨core', rfl, -, -, -, -, -, rfl, -⟩ := h'.step.outcome shaped
      simp only [Progress.className, given, Progress.nameOr]
  | ref shaped faithful =>
      intro p q p' q' type type' h before h' before'
      exact faithful.answer_eq justified (h.answered shaped before) (h'.answered shaped before')
  | single shaped _ ih =>
      intro p q p' q' type type' h before h' before'
      obtain ⟨core, rfl, part⟩ := h.step.outcome shaped
      obtain ⟨core', rfl, part'⟩ := h'.step.outcome shaped
      rw [ih part before part' before']
  | union shaped _ ih =>
      intro p q p' q' type type' h before h' before'
      obtain ⟨core, rfl, types, parts, rfl⟩ := h.step.outcome shaped
      obtain ⟨core', rfl, types', parts', rfl⟩ := h'.step.outcome shaped
      rw [parts.types_eq parts' before before' ih]
  | items shaped _ ih =>
      intro p q p' q' type type' h before h' before'
      obtain ⟨core, rfl, item, part, rfl⟩ := h.step.outcome shaped
      obtain ⟨core', rfl, item', part', rfl⟩ := h'.step.outcome shaped
      rw [ih part before part' before']

/-- The schema at the site is converted into a model, for which no name has to be made up, and what
stands in it is steady. -/
inductive SteadyModel (document : Json) (rootName : String) (warnings : List Warning)
    (schema : Json) (site : Site) : Prop where
  | enum {literals : List Json} {nullable : Bool} {name : Identifier.Resolved}
      (shaped : classify schema = .ok ⟨.enum literals, nullable⟩)
      (titled : Walk.titled? (Walk.textAt "title" schema) = some name)
  | object {object : Entries Json} {nullable : Bool} {name : Identifier.Resolved}
      (shaped : classify schema = .ok ⟨.object object, nullable⟩)
      (given : Walk.givenClassName? rootName (Walk.textAt "title" (.obj object)) site = some name)
      (fields : ∀ property ∈ declared object,
        Steady document rootName warnings property.2 (Walk.propertySite site property.1))

/-- The model that an enumeration of a given title has made. -/
theorem Walked.enum_model {schema : Json} {site : Site} {p q : Progress} {type : DataType}
    {literals : List Json} {nullable : Bool} {name : Identifier.Resolved}
    (h : Walked document rootName schema site p type q)
    (shaped : classify schema = .ok ⟨.enum literals, nullable⟩)
    (titled : Walk.titled? (Walk.textAt "title" schema) = some name) :
    ∃ values hasNull, Walk.enumMembers name.identifier site.path [] literals
        = .ok (values, hasNull) ∧
      q.models[p.models.length]? = some (.ofEnum (Walk.enumOf schema name values)) := by
  obtain ⟨core, -, values, hasNull, read, -, rfl⟩ := h.step.outcome shaped
  simp only [Walk.enumNameOf, titled, Progress.nameOr] at read ⊢
  refine ⟨values, hasNull, read, ?_⟩
  rw [Walk.models_afterEnum, List.getElem?_insertIdx_self, if_pos (Nat.le_refl _)]

/-- The model that an object of a given name has made. -/
theorem Walked.class_model {schema : Json} {site : Site} {p q : Progress} {type : DataType}
    {object : Entries Json} {nullable : Bool} {name : Identifier.Resolved}
    (h : Walked document rootName schema site p type q)
    (shaped : classify schema = .ok ⟨.object object, nullable⟩)
    (given : Walk.givenClassName? rootName (Walk.textAt "title" (.obj object)) site = some name) :
    ∃ types r, Chain (Walked document rootName) ((declared object).map (Walk.fieldPart site))
        (p.opened rootName object site) types r ∧ r.Precedes q ∧
      q.models[p.models.length]? = some (.ofClass (Walk.classOf object name
        (List.zipWith (Walk.fieldFor (Walk.requiredKeys object)) (declared object) types))) := by
  obtain ⟨core, -, properties, types, r, split, parts, -, rfl⟩ := h.step.outcome shaped
  cases Walk.objectSplit_eq_declared split
  have named : p.className rootName object site = name := by
    rw [Progress.className, given]
    rfl
  rw [named]
  refine ⟨types, r, parts, Progress.precedes_closed .., ?_⟩
  have inside := (Progress.Keeps.of_chain parts fun part => part.keeps).models.length_le
  rw [Progress.models_opened] at inside
  rw [Progress.models_closed, List.getElem?_insertIdx_self, if_pos inside]

/-- **Walks of a steady model make one model.** -/
theorem SteadyModel.model_eq (justified : z.Justified document rootName) {schema : Json}
    {site : Site} (steady : SteadyModel document rootName z.warnings schema site)
    {p q p' q' : Progress} {type type' : DataType}
    (h : Walked document rootName schema site p type q) (before : q.Precedes z)
    (h' : Walked document rootName schema site p' type' q') (before' : q'.Precedes z) :
    ∃ m, q.models[p.models.length]? = some m ∧ q'.models[p'.models.length]? = some m := by
  cases steady with
  | enum shaped titled =>
      obtain ⟨values, hasNull, read, made⟩ := h.enum_model shaped titled
      obtain ⟨values', hasNull', read', made'⟩ := h'.enum_model shaped titled
      rw [read] at read'
      cases read'
      exact ⟨_, made, made'⟩
  | object shaped given fields =>
      obtain ⟨types, r, parts, after, made⟩ := h.class_model shaped given
      obtain ⟨types', r', parts', after', made'⟩ := h'.class_model shaped given
      have same : types = types' := by
        refine parts.types_eq parts' (after.trans before) (after'.trans before') ?_
        intro part mem
        obtain ⟨property, own, rfl⟩ := List.mem_map.mp mem
        exact (fields property own).type_eq justified
      subst same
      exact ⟨_, made, made'⟩

end Walks

/-! ## Quiet conversions -/

section Quiet

variable {document : Json} {rootName : String} {warnings : List Warning}

/-- No name has been made up so far. -/
def Progress.Quiet (p : Progress) : Prop := ∀ name, .anonymousName name ∉ p.warnings

theorem Progress.Quiet.before {p q : Progress} (h : q.Quiet) (before : p.Precedes q) : p.Quiet :=
  fun name mem => h name (before.warnings mem)

/-- Where no name has been made up, an enum has a title. -/
theorem Progress.Quiet.titled {p : Progress} {schema : Json} {name : Identifier.Resolved}
    {values : List EnumMember} (h : (Walk.afterEnum p schema name values).Quiet) :
    ∃ given, Walk.titled? (Walk.textAt "title" schema) = some given := by
  refine Option.ne_none_iff_exists'.mp fun none => ?_
  refine h (p.freshName Walk.anonymousEnum) ?_
  rw [Walk.warnings_afterEnum, none]
  exact List.mem_append_left _ (List.mem_append_right _ List.mem_cons_self)

/-- Where no name has been made up, an object is given one. -/
theorem Progress.Quiet.given {p : Progress} {object : Entries Json} {site : Site}
    (h : (p.opened rootName object site).Quiet) :
    ∃ given, Walk.givenClassName? rootName (Walk.textAt "title" (.obj object)) site
      = some given := by
  refine Option.ne_none_iff_exists'.mp fun none => ?_
  refine h (p.freshName Walk.anonymousClass) ?_
  rw [Progress.warnings_opened, Progress.openWarnings, none]
  exact List.mem_append_right _ (List.mem_append_left _ List.mem_cons_self)

/-- A chain of parts without names that are made up is one of parts without such names. -/
theorem Chain.steady {parts : List (Json × Site)} {p q : Progress} {types : List DataType}
    (chain : Chain (fun schema site p type q => Walked document rootName schema site p type q ∧
      (q.Quiet → Steady document rootName warnings schema site)) parts p types q)
    (quiet : q.Quiet) : ∀ part ∈ parts, Steady document rootName warnings part.1 part.2 := by
  induction chain with
  | nil => exact fun part mem => absurd mem List.not_mem_nil
  | cons head tail ih =>
      intro part mem
      rcases List.mem_cons.mp mem with rfl | mem
      · have later : Progress.Precedes .. := .of_chain tail fun part => part.1.precedes
        exact head.2 (quiet.before later)
      · exact ih quiet part mem

/-- A walk that has made up no name is of a steady schema, if references are faithful. -/
theorem Walked.steady (faithful : ∀ reference, Faithful document rootName warnings reference)
    {schema : Json} {site : Site} {p q : Progress} {type : DataType}
    (h : Walked document rootName schema site p type q) (quiet : q.Quiet) :
    Steady document rootName warnings schema site := by
  refine Walked.induct (motive := fun schema site _ _ q => q.Quiet →
    Steady document rootName warnings schema site) ?_ h quiet
  intro schema site p type q rule quiet
  cases rule with
  | plain shaped typed => exact .plain shaped typed
  | const shaped => exact .const shaped
  | enum shaped =>
      obtain ⟨name, titled⟩ := quiet.titled
      exact .enum shaped titled
  | known shaped => exact .ref shaped (faithful _)
  | forward shaped => exact .ref shaped (faithful _)
  | expand shaped => exact .ref shaped (faithful _)
  | single shaped part => exact .single shaped (part.2 quiet)
  | union shaped parts => exact .union shaped (parts.steady quiet)
  | object shaped _ _ parts =>
      -- The name is asked when the object is opened, long before the walk ends.
      have fields := Progress.Precedes.of_chain parts fun part => part.1.precedes
      obtain ⟨name, given⟩ := (quiet.before (fields.trans (Progress.precedes_closed ..))).given
      exact .object shaped given
  | items shaped part => exact .items shaped (part.2 quiet)

/-- The schema is converted into a model of its own. -/
def MakesModel (schema : Json) : Prop :=
  ∃ shape nullable, classify schema = .ok ⟨shape, nullable⟩ ∧
    ((∃ literals, shape = .enum literals) ∨ ∃ object, shape = .object object)

theorem Walked.steadyModel (faithful : ∀ reference, Faithful document rootName warnings reference)
    {schema : Json} {site : Site} {p q : Progress} {type : DataType}
    (h : Walked document rootName schema site p type q) (quiet : q.Quiet)
    (makes : MakesModel schema) : SteadyModel document rootName warnings schema site := by
  obtain ⟨shape, nullable, shaped, ⟨literals, rfl⟩ | ⟨object, rfl⟩⟩ := makes
  · obtain ⟨core, -, values, hasNull, -, -, rfl⟩ := h.step.outcome shaped
    obtain ⟨name, titled⟩ := quiet.titled
    exact .enum shaped titled
  · obtain ⟨core, -, properties, types, r, split, parts, -, rfl⟩ := h.step.outcome shaped
    cases Walk.objectSplit_eq_declared split
    have inside := quiet.before (Progress.precedes_closed ..)
    have fields := Progress.Precedes.of_chain parts fun part => part.precedes
    obtain ⟨name, given⟩ := (inside.before fields).given
    refine .object shaped given fun property own => ?_
    have steady := parts.imp fun part => (And.intro part (part.steady faithful))
    exact steady.steady inside (Walk.fieldPart site property) (List.mem_map_of_mem own)

end Quiet

/-! ## Definitions -/

theorem Call.model?_eq {document : Json} {rootName : String} {call : Call} {q : Progress}
    {type : DataType} (h : call.run document rootName = .ok (type, q)) :
    call.model? document rootName = q.models[call.start.models.length]? := by
  unfold Call.model?
  rw [h]

/-- **A definition is converted into the same model each time**, if this model is steady: on its own
and wherever a reference to it is expanded. -/
theorem definition_model_eq {document : Json} {rootName : String} {c : Conversion}
    (distinct : DistinctKeys document) (h : convert document rootName = .ok c) {path : String}
    {schema : Json} (entry : (path, schema) ∈ Pointer.definitions document)
    (steady : SteadyModel document (Identifier.pascal rootName) c.warnings schema
      (.ofReference path)) :
    ∃ m ∈ c.models,
      (∃ first, [first] ∈ calls document rootName ∧ first.schema = schema ∧
        first.site = .ofReference path ∧
        first.model? document (Identifier.pascal rootName) = some m) ∧
      ∀ second maker outer nullable, second :: maker :: outer ∈ calls document rootName →
        classify maker.schema = .ok ⟨.ref path, nullable⟩ →
          second.model? document (Identifier.pascal rootName) = some m := by
  obtain ⟨z, models, warnings, justified, ends⟩ := calls_end h
  rw [warnings] at steady
  obtain ⟨first, firstly, own, site⟩ := exists_call_of_definition h entry
  obtain ⟨type, q, run, before⟩ := ends firstly
  have walked : Walked document (Identifier.pascal rootName) schema (.ofReference path)
      first.start type q := by
    rw [← own, ← site]
    exact ⟨first.steps, run⟩
  -- The model of the first call is the one that all others are compared with.
  obtain ⟨m, made, -⟩ := steady.model_eq justified walked before walked before
  refine ⟨m, ?_, ⟨first, firstly, own, site, (Call.model?_eq run).trans made⟩, ?_⟩
  · rw [models]
    exact before.models (List.mem_of_getElem? made)
  · intro second maker outer nullable again refers
    obtain ⟨resolved, there⟩ := (calls_made h again).of_ref refers
    have same := (Pointed.definition distinct entry).exact second.schema resolved
    obtain ⟨type', q', run', before'⟩ := ends again
    have walked' : Walked document (Identifier.pascal rootName) schema (.ofReference path)
        second.start type' q' := by
      rw [← same, ← there]
      exact ⟨second.steps, run'⟩
    obtain ⟨m', made', again'⟩ := steady.model_eq justified walked before walked' before'
    rw [made] at made'
    cases made'
    exact (Call.model?_eq run').trans again'

/-- **Where a conversion has made up no name and has answered no reference by the name of a class
under construction, the models of all definitions are steady**, so that its warnings tell whether
one may rely on the models that are made twice. -/
theorem steadyModel_of_quiet {document : Json} {rootName : String} {c : Conversion}
    (h : convert document rootName = .ok c) (named : ∀ name, .anonymousName name ∉ c.warnings)
    (direct : ∀ name reference, .unresolvedCycle name reference ∉ c.warnings) {path : String}
    {schema : Json} (entry : (path, schema) ∈ Pointer.definitions document)
    (makes : MakesModel schema) :
    SteadyModel document (Identifier.pascal rootName) c.warnings schema (.ofReference path) := by
  obtain ⟨z, -, warnings, -, ends⟩ := calls_end h
  obtain ⟨first, firstly, own, site⟩ := exists_call_of_definition h entry
  obtain ⟨type, q, run, before⟩ := ends firstly
  have walked : Walked document (Identifier.pascal rootName) first.schema first.site first.start
      type q := ⟨first.steps, run⟩
  have quiet : z.Quiet := fun name mem => named name (warnings ▸ mem)
  rw [own, site] at walked
  exact walked.steadyModel (fun reference name mem => absurd mem (direct name reference))
    (quiet.before before) makes

/-- Whether the innermost call expands the reference and passes a test. -/
def expandsTo (reference : String) (test : Call → Bool) : List Call → Bool
  | call :: maker :: _ =>
      match classify maker.schema with
      | .ok ⟨.ref other, false⟩ => other = reference && test call
      | _ => false
  | _ => false

theorem exists_of_expandsTo {document : Json} {rootName reference : String} {test : Call → Bool}
    (h : (calls document rootName).any (expandsTo reference test) = true) :
    ∃ call maker outer, call :: maker :: outer ∈ calls document rootName ∧
      classify maker.schema = .ok ⟨.ref reference, false⟩ ∧ test call = true := by
  obtain ⟨stack, mem, passed⟩ := List.any_eq_true.mp h
  unfold expandsTo at passed
  split at passed
  · next call maker outer =>
      split at passed
      · next other shaped =>
          simp only [Bool.and_eq_true, decide_eq_true_eq] at passed
          exact ⟨call, maker, outer, mem, passed.1 ▸ shaped, passed.2⟩
      · cases passed
  · cases passed

/-- A comment with replies, which are comments. -/
def commentSchema : Json :=
  .obj [("properties", .obj [("text", .obj [("type", .str "string")]),
    ("replies", .obj [("items", .obj [("$ref", .str "#/$defs/Comment")])])])]

/-- A thread of comments. -/
def commentThread : Json :=
  .obj [("properties", .obj [("first", .obj [("$ref", .str "#/$defs/Comment")])]),
    ("$defs", .obj [("Comment", commentSchema)])]

theorem steadyModel_commentSchema {warnings : List Warning}
    (only : ∀ name, .unresolvedCycle name "#/$defs/Comment" ∈ warnings → name = "Comment") :
    SteadyModel commentThread (Identifier.pascal "Thread") warnings commentSchema
      (.ofReference "#/$defs/Comment") := by
  have given : Walk.givenClassName? (Identifier.pascal "Thread") none
      (.ofReference "#/$defs/Comment") = some ⟨"Comment", none⟩ := by decide +kernel
  refine .object rfl given ?_
  intro property mem
  have either : property = ("text", .obj [("type", .str "string")])
      ∨ property = ("replies", .obj [("items", .obj [("$ref", .str "#/$defs/Comment")])]) := by
    rcases List.mem_cons.mp mem with same | more
    · exact Or.inl same
    · exact Or.inr (List.mem_singleton.mp more)
  rcases either with rfl | rfl
  · exact .plain rfl rfl
  · refine .items rfl (.ref rfl ?_)
    intro name warned
    have names : NamesClass (Identifier.pascal "Thread") commentSchema
        (.ofReference "#/$defs/Comment") (⟨"Comment", none⟩ : Identifier.Resolved).identifier :=
      .object rfl given
    rw [only name warned]
    exact ⟨commentSchema, rfl, names⟩

/-- The class `Comment` is made twice, and both times it is the same. -/
theorem definition_model_eq_commentThread : ∃ m first second maker outer,
    [first] ∈ calls commentThread "Thread" ∧
    second :: maker :: outer ∈ calls commentThread "Thread" ∧
    classify maker.schema = .ok ⟨.ref "#/$defs/Comment", false⟩ ∧
    first.model? commentThread (Identifier.pascal "Thread") = some m ∧
    second.model? commentThread (Identifier.pascal "Thread") = some m := by
  have distinct : DistinctKeys commentThread := .of_everywhere (by decide +kernel)
  have warned : (convert commentThread "Thread").toOption.map Conversion.warnings
      = some (List.replicate 2 (.unresolvedCycle "Comment" "#/$defs/Comment")) := by
    decide +kernel
  have expanded : (calls commentThread "Thread").any
      (expandsTo "#/$defs/Comment" fun _ => true) = true := by decide +kernel
  obtain ⟨c, converted, warnings⟩ := exists_of_toOption warned
  have only : ∀ name, .unresolvedCycle name "#/$defs/Comment" ∈ c.warnings →
      name = "Comment" := by
    intro name mem
    rw [warnings] at mem
    cases List.eq_of_mem_replicate mem
    rfl
  obtain ⟨second, maker, outer, again, refers, -⟩ := exists_of_expandsTo expanded
  obtain ⟨m, -, ⟨first, firstly, -, -, made⟩, same⟩ :=
    definition_model_eq distinct converted List.mem_cons_self (steadyModel_commentSchema only)
  exact ⟨m, first, second, maker, outer, firstly, again, refers, made,
    same second maker outer false again refers⟩

/-- A drawing of a shape, the kind of which is one of two. -/
def drawing : Json :=
  .obj [("properties", .obj [("shape", .obj [("$ref", .str "#/$defs/Shape")])]),
    ("$defs", .obj [("Shape", .obj [("type", .str "object"),
      ("properties", .obj [("kind", .obj [("type", .str "string"),
        ("enum", .arr [.str "round", .str "square"])])])])])]

/-- The class of a shape whose kinds are an enum of the given name. -/
def shapeClass (kinds : String) : DataModel :=
  .ofClass
    { name := "Shape"
      fields := [{ name := "kind", type := (DataType.enumRef kinds).optional }] }

/-- The enum of the kinds has no title, so its name is made up, each time another one. -/
theorem definition_model_ne_drawing : ∃ first second maker outer,
    [first] ∈ calls drawing "Drawing" ∧ first.site.path = "#/$defs/Shape" ∧
    second :: maker :: outer ∈ calls drawing "Drawing" ∧
    classify maker.schema = .ok ⟨.ref "#/$defs/Shape", false⟩ ∧
    first.model? drawing (Identifier.pascal "Drawing") = some (shapeClass "AnonymousEnum1") ∧
    second.model? drawing (Identifier.pascal "Drawing") = some (shapeClass "AnonymousEnum2") ∧
    shapeClass "AnonymousEnum1" ≠ shapeClass "AnonymousEnum2" := by
  have alone : (calls drawing "Drawing").any (fun stack => stack.length = 1 &&
      stack.all fun call => call.site.path = "#/$defs/Shape" &&
        call.model? drawing (Identifier.pascal "Drawing") = some (shapeClass "AnonymousEnum1"))
      = true := by decide +kernel
  have expanded : (calls drawing "Drawing").any (expandsTo "#/$defs/Shape" fun call =>
      call.model? drawing (Identifier.pascal "Drawing") = some (shapeClass "AnonymousEnum2"))
      = true := by decide +kernel
  obtain ⟨stack, firstly, passed⟩ := List.any_eq_true.mp alone
  simp only [Bool.and_eq_true, decide_eq_true_eq, List.all_eq_true] at passed
  obtain ⟨first, rfl⟩ := List.length_eq_one_iff.mp passed.1
  obtain ⟨path, made⟩ := passed.2 first List.mem_cons_self
  obtain ⟨second, maker, outer, again, refers, remade⟩ := exists_of_expandsTo expanded
  exact ⟨first, second, maker, outer, firstly, path, again, refers, made, of_decide_eq_true remade,
    by decide⟩

end SchemaLoom
