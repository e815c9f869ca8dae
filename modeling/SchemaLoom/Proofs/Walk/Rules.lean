import SchemaLoom.Proofs.Results
import SchemaLoom.Proofs.Walk.Descent

set_option autoImplicit false

/-! # Rules for completed walks

`Walked` relates a node, its site and the progress before to the type and the progress that a walk
of some number of steps gives. A completed walk was built by one rule for each kind of node, and
`Walked.induct` is the induction over these rules. Its case for a node with parts hands out a
`Chain`: the parts were walked one after the other, each from where the one before had ended.

What is claimed of a whole conversion is proved of `Walked` by this induction, and carried over the
definitions and the document itself by `convert_ok`.
-/

namespace SchemaLoom

/-! ## Chains -/

/-- Parts related one after the other, each from where the one before ended. -/
inductive Chain (R : Json → Site → Progress → DataType → Progress → Prop) :
    List (Json × Site) → Progress → List DataType → Progress → Prop where
  | nil {p : Progress} : Chain R [] p [] p
  | cons {schema : Json} {site : Site} {rest : List (Json × Site)} {p q r : Progress}
      {type : DataType} {types : List DataType} (head : R schema site p type q)
      (tail : Chain R rest q types r) : Chain R ((schema, site) :: rest) p (type :: types) r

namespace Chain

variable {R S : Json → Site → Progress → DataType → Progress → Prop}
  {parts : List (Json × Site)} {p q : Progress} {types : List DataType}

theorem imp (h : Chain R parts p types q)
    (step : ∀ {schema site p type q}, R schema site p type q → S schema site p type q) :
    Chain S parts p types q := by
  induction h with
  | nil => exact .nil
  | cons head _ ih => exact .cons (step head) ih

theorem with_mem (h : Chain R parts p types q) :
    Chain (fun schema site p type q => R schema site p type q ∧ (schema, site) ∈ parts)
      parts p types q := by
  induction h with
  | nil => exact .nil
  | cons head _ ih =>
      exact .cons ⟨head, List.mem_cons_self⟩
        (ih.imp fun part => ⟨part.1, List.mem_cons_of_mem _ part.2⟩)

theorem length_eq (h : Chain R parts p types q) : types.length = parts.length := by
  induction h with
  | nil => rfl
  | cons _ _ ih => exact congrArg (· + 1) ih

/-- What every link keeps, the chain keeps. -/
theorem invariant (Inv : Progress → Prop) (h : Chain R parts p types q)
    (step : ∀ {schema site p type q}, R schema site p type q → Inv p → Inv q) (hp : Inv p) :
    Inv q := by
  induction h with
  | nil => exact hp
  | cons head _ ih => exact ih (step head hp)

theorem exists_of_mem (h : Chain R parts p types q) {part : Json × Site} (mem : part ∈ parts) :
    ∃ p type q, R part.1 part.2 p type q := by
  induction h with
  | nil => cases mem
  | cons head _ ih =>
      rcases List.mem_cons.mp mem with rfl | mem
      · exact ⟨_, _, _, head⟩
      · exact ih mem

end Chain

theorem Walk.each_run_eq_ok {visit : Visit} {parts : List (Json × Site)} {p q : Progress}
    {types : List DataType} :
    (each visit parts).run p = .ok (types, q) ↔
      Chain (fun schema site p type q => (visit schema site).run p = .ok (type, q))
        parts p types q := by
  constructor
  · intro h
    induction parts generalizing p types with
    | nil =>
        cases h
        exact .nil
    | cons part rest ih =>
        obtain ⟨schema, site⟩ := part
        obtain ⟨type, r, hd, h⟩ := run_bind_eq_ok.1 h
        obtain ⟨more, s, tl, h⟩ := run_bind_eq_ok.1 h
        cases h
        exact .cons hd (ih tl)
  · intro h
    induction h with
    | nil => rfl
    | cons head _ ih =>
        exact run_bind_eq_ok.2 ⟨_, _, head, run_bind_eq_ok.2 ⟨_, _, ih, rfl⟩⟩

/-- Visits fail with the first one that fails. -/
theorem Walk.each_run_eq_error {visit : Visit} {parts : List (Json × Site)} {p : Progress}
    {e : SchemaError} (h : (each visit parts).run p = .error e) :
    ∃ before part after types q, parts = before ++ part :: after ∧
      Chain (fun schema site p type q => (visit schema site).run p = .ok (type, q))
        before p types q ∧ (visit part.1 part.2).run q = .error e := by
  induction parts generalizing p with
  | nil => cases h
  | cons part rest ih =>
      obtain ⟨schema, site⟩ := part
      rcases run_bind_eq_error.mp h with head | ⟨type, r, head, h⟩
      · exact ⟨[], (schema, site), rest, [], p, rfl, .nil, head⟩
      · rcases run_bind_eq_error.mp h with tail | ⟨types, s, -, last⟩
        · obtain ⟨before, part, after, types, q, rfl, chain, failed⟩ := ih tail
          exact ⟨(schema, site) :: before, part, after, type :: types, q, rfl,
            .cons head chain, failed⟩
        · cases last

/-! ## Steps that succeed -/

namespace Descent

variable {d : Descent} {visit : Visit} {type : DataType} {q : Progress}

theorem run_eq_ok :
    d.run visit = .ok (type, q) ↔ ∃ types r,
      Chain (fun schema site p type q => (visit schema site).run p = .ok (type, q))
        d.parts d.start types r ∧ (d.finish types).run r = .ok (type, q) := by
  simp only [run, Walk.run_bind_eq_ok, Walk.each_run_eq_ok]

theorem run_withOptional_eq_ok {nullable : Bool} :
    (d.withOptional nullable).run visit = .ok (type, q) ↔
      ∃ core, d.run visit = .ok (core, q) ∧ type = core.withOptional nullable := by
  constructor
  · intro h
    obtain ⟨types, r, chain, h⟩ := run_eq_ok.1 h
    obtain ⟨core, s, hcore, h⟩ := Walk.run_bind_eq_ok.1 h
    cases h
    exact ⟨core, run_eq_ok.2 ⟨types, r, chain, hcore⟩, rfl⟩
  · rintro ⟨core, h, rfl⟩
    obtain ⟨types, r, chain, h⟩ := run_eq_ok.1 h
    exact run_eq_ok.2 ⟨types, r, chain, Walk.run_bind_eq_ok.2 ⟨core, q, h, rfl⟩⟩

theorem run_withOptional_eq_error {nullable : Bool} {e : SchemaError}
    (h : (d.withOptional nullable).run visit = .error e) : d.run visit = .error e := by
  rcases Walk.run_bind_eq_error.mp h with parts | ⟨types, r, visited, last⟩
  · exact Walk.run_bind_eq_error.mpr (Or.inl parts)
  · rcases Walk.run_bind_eq_error.mp last with finish | ⟨_, _, -, none⟩
    · exact Walk.run_bind_eq_error.mpr (Or.inr ⟨types, r, visited, finish⟩)
    · cases none

end Descent

/-- The type of a node that has neither parts nor a model. -/
def Shape.plainType? : Shape → Option DataType
  | .never | .any => some (.of .any)
  | .null => some (.of .null)
  | .array none => some (.listOf (.of .any))
  | .scalar kind => some kind.dataType
  | .scalarUnion kinds => some (.unionOf (kinds.map Scalar.dataType))
  | _ => none

open Walk in
/-- One step of a completed walk, by the kind of the node; `R` relates the parts of the node. -/
inductive WalkStep (document : Json) (rootName : String)
    (R : Json → Site → Progress → DataType → Progress → Prop) :
    Json → Site → Progress → DataType → Progress → Prop where
  | plain {schema : Json} {site : Site} {p : Progress} {shape : Shape} {nullable : Bool}
      {type : DataType} (shaped : classify schema = .ok ⟨shape, nullable⟩)
      (typed : shape.plainType? = some type) :
      WalkStep document rootName R schema site p (type.withOptional nullable) p
  | const {schema : Json} {site : Site} {p : Progress} {value : Json} {nullable : Bool}
      {type : DataType} (shaped : classify schema = .ok ⟨.const value, nullable⟩)
      (typed : constType? value = some type) :
      WalkStep document rootName R schema site p (type.withOptional nullable)
        (afterConst p value site)
  | enum {schema : Json} {site : Site} {p : Progress} {literals : List Json} {nullable : Bool}
      {name : Identifier.Resolved} {values : List EnumMember} {hasNull : Bool}
      (shaped : classify schema = .ok ⟨.enum literals, nullable⟩)
      (named : enumNameOf p schema = name)
      (read : enumMembers name.identifier site.path [] literals = .ok (values, hasNull)) :
      WalkStep document rootName R schema site p
        (((DataType.enumRef name.identifier).withOptional hasNull).withOptional nullable)
        (afterEnum p schema name values)
  /-- The reference was expanded before. -/
  | known {schema : Json} {site : Site} {p : Progress} {reference : String} {nullable : Bool}
      {type : DataType} (shaped : classify schema = .ok ⟨.ref reference, nullable⟩)
      (hit : Entries.get? reference p.known = some type) :
      WalkStep document rootName R schema site p (type.withOptional nullable) p
  /-- The reference points into an object that is still being converted. -/
  | forward {schema : Json} {site : Site} {p : Progress} {reference : String} {nullable : Bool}
      {target : Json} {name : String}
      (shaped : classify schema = .ok ⟨.ref reference, nullable⟩)
      (miss : Entries.get? reference p.known = none)
      (resolved : Pointer.resolve? document reference = some target)
      (building : Entries.get? reference p.building = some name) :
      WalkStep document rootName R schema site p ((DataType.classRef name).withOptional nullable)
        (p.warn (.unresolvedCycle name reference))
  | expand {schema : Json} {site : Site} {p : Progress} {reference : String} {nullable : Bool}
      {target : Json} {type : DataType} {q : Progress}
      (shaped : classify schema = .ok ⟨.ref reference, nullable⟩)
      (miss : Entries.get? reference p.known = none)
      (resolved : Pointer.resolve? document reference = some target)
      (building : Entries.get? reference p.building = none)
      (resolving : reference ∉ p.resolving)
      (part : R target (.ofReference reference) (p.startResolving reference) type q) :
      WalkStep document rootName R schema site p (type.withOptional nullable)
        ((q.stopResolving reference).remember reference type)
  | single {schema : Json} {site : Site} {p : Progress} {member : Json} {nullable : Bool}
      {type : DataType} {q : Progress}
      (shaped : classify schema = .ok ⟨.single member, nullable⟩)
      (part : R member site p type q) :
      WalkStep document rootName R schema site p (type.withOptional nullable) q
  | union {schema : Json} {site : Site} {p : Progress} {keyword : UnionKeyword}
      {alternatives : List Json} {nullable : Bool} {types : List DataType} {q : Progress}
      (shaped : classify schema = .ok ⟨.union keyword alternatives, nullable⟩)
      (parts : Chain R (memberParts keyword site 0 alternatives) p types q) :
      WalkStep document rootName R schema site p ((unionOf types).withOptional nullable) q
  | object {schema : Json} {site : Site} {p : Progress} {object : Entries Json}
      {nullable : Bool} {name : Identifier.Resolved} {properties : List (String × Json)}
      {types : List DataType} {q : Progress}
      (shaped : classify schema = .ok ⟨.object object, nullable⟩)
      (named : p.className rootName object site = name)
      (split : objectSplit name.identifier object site = (properties, none))
      (parts : Chain R (properties.map (fieldPart site)) (p.opened rootName object site) types
        q) :
      WalkStep document rootName R schema site p
        ((DataType.classRef name.identifier).withOptional nullable)
        (q.closed site.path p.models.length (classOf object name
          (List.zipWith (fieldFor (requiredKeys object)) properties types)))
  | items {schema : Json} {site : Site} {p : Progress} {item : Json} {nullable : Bool}
      {type : DataType} {q : Progress}
      (shaped : classify schema = .ok ⟨.array (some item), nullable⟩)
      (part : R item (site.child "items" site.hint) p type q) :
      WalkStep document rootName R schema site p ((DataType.listOf type).withOptional nullable) q

namespace WalkStep

variable {document : Json} {rootName : String} {visit : Visit} {schema : Json} {site : Site}
  {p q : Progress} {type : DataType}

/-- The step of a visit, as a relation. -/
abbrev OfVisit (visit : Visit) : Json → Site → Progress → DataType → Progress → Prop :=
  fun schema site p type q => (visit schema site).run p = .ok (type, q)

theorem of_reference {reference : String} {nullable : Bool}
    (shaped : classify schema = .ok ⟨.ref reference, nullable⟩)
    (h : (Descent.ofReference document reference site p).run visit = .ok (type, q)) :
    WalkStep document rootName (OfVisit visit) schema site p (type.withOptional nullable) q := by
  have answer := Descent.ofReference_case document reference site p
  generalize Descent.ofReference document reference site p = d at h answer
  cases answer with
  | known hit =>
      cases h
      exact .known shaped hit
  | forward miss resolved building =>
      cases h
      exact .forward shaped miss resolved building
  | expand miss resolved building resolving =>
      rw [Descent.run_expansion] at h
      obtain ⟨t, r, part, h⟩ := Walk.run_bind_eq_ok.1 h
      cases h
      exact .expand shaped miss resolved building resolving part
  | unresolved | refused => cases h

theorem of_object {object : Entries Json} {nullable : Bool}
    (shaped : classify schema = .ok ⟨.object object, nullable⟩)
    (h : (Descent.ofObject rootName object site p).run visit = .ok (type, q)) :
    WalkStep document rootName (OfVisit visit) schema site p (type.withOptional nullable) q := by
  obtain ⟨types, r, parts, h⟩ := Descent.run_eq_ok.1 h
  obtain ⟨fields, s, made, h⟩ := Walk.run_bind_eq_ok.1 h
  cases split : Walk.objectSplit (p.className rootName object site).identifier object site with
  | mk properties fault =>
      simp only [Descent.ofObject, split] at parts made
      cases fault with
      | some e => cases made
      | none =>
          cases made
          cases h
          exact .object shaped rfl split parts

/-- **A step of the walk that succeeds is one of the steps above.** -/
theorem of_descent (h : (descent document rootName schema site p).run visit = .ok (type, q)) :
    WalkStep document rootName (OfVisit visit) schema site p type q := by
  cases shaped : classify schema with
  | error fault =>
      rw [descent_of_fault shaped] at h
      cases h
  | ok classified =>
      obtain ⟨shape, nullable⟩ := classified
      rw [descent_of_shape shaped] at h
      obtain ⟨core, made, rfl⟩ := Descent.run_withOptional_eq_ok.1 h
      clear h
      cases shape with
      | ref reference => exact of_reference shaped made
      | single member =>
          have part := (Descent.run_through ..).symm.trans made
          rw [bind_pure] at part
          exact .single shaped part
      | union keyword alternatives =>
          obtain ⟨types, r, parts, h⟩ := Descent.run_eq_ok.1 made
          cases h
          exact .union shaped parts
      | const value =>
          have made := (Walk.run_ofConst (p := p) value site).symm.trans made
          cases typed : Walk.constType? value with
          | none => rw [typed] at made; cases made
          | some type =>
              rw [typed] at made
              cases made
              exact .const shaped typed
      | enum literals =>
          have made := (Walk.run_ofEnum (p := p) schema literals site).symm.trans made
          cases read : Walk.enumMembers (Walk.enumNameOf p schema).identifier site.path []
              literals with
          | error e => rw [read] at made; cases made
          | ok out =>
              obtain ⟨values, hasNull⟩ := out
              rw [read] at made
              cases made
              exact .enum shaped rfl read
      | object object => exact of_object shaped made
      | array items? =>
          cases items? with
          | none => cases made; exact .plain shaped rfl
          | some item =>
              have made := (Descent.run_through ..).symm.trans made
              obtain ⟨type, r, part, h⟩ := Walk.run_bind_eq_ok.1 made
              cases h
              exact .items shaped part
      | _ => cases made; exact .plain shaped rfl

variable {R S : Json → Site → Progress → DataType → Progress → Prop}

theorem imp (h : WalkStep document rootName R schema site p type q)
    (step : ∀ {schema site p type q}, R schema site p type q → S schema site p type q) :
    WalkStep document rootName S schema site p type q := by
  cases h with
  | plain shaped typed => exact .plain shaped typed
  | const shaped typed => exact .const shaped typed
  | enum shaped named read => exact .enum shaped named read
  | known shaped hit => exact .known shaped hit
  | forward shaped miss resolved building => exact .forward shaped miss resolved building
  | expand shaped miss resolved building resolving part =>
      exact .expand shaped miss resolved building resolving (step part)
  | single shaped part => exact .single shaped (step part)
  | union shaped parts => exact .union shaped (parts.imp step)
  | object shaped named split parts => exact .object shaped named split (parts.imp step)
  | items shaped part => exact .items shaped (step part)

/-- What a node of a shape gives before it is made optional, and where it ends. -/
def Outcome (document : Json) (rootName : String)
    (R : Json → Site → Progress → DataType → Progress → Prop) (schema : Json) (site : Site)
    (p : Progress) (core : DataType) (q : Progress) : Shape → Prop
  | .ref reference =>
      (Entries.get? reference p.known = some core ∧ q = p) ∨
      (∃ name, Entries.get? reference p.building = some name ∧ core = .classRef name ∧
        q = p.warn (.unresolvedCycle name reference)) ∨
      ∃ target r, Pointer.resolve? document reference = some target ∧
        Entries.get? reference p.building = none ∧
        R target (.ofReference reference) (p.startResolving reference) core r ∧
        q = (r.stopResolving reference).remember reference core
  | .single member => R member site p core q
  | .union keyword alternatives => ∃ types,
      Chain R (Walk.memberParts keyword site 0 alternatives) p types q ∧
        core = Walk.unionOf types
  | .const value => Walk.constType? value = some core ∧ q = Walk.afterConst p value site
  | .enum literals => ∃ values hasNull,
      Walk.enumMembers (Walk.enumNameOf p schema).identifier site.path [] literals
          = .ok (values, hasNull) ∧
        core = (DataType.enumRef (Walk.enumNameOf p schema).identifier).withOptional hasNull ∧
        q = Walk.afterEnum p schema (Walk.enumNameOf p schema) values
  | .object own => ∃ properties types r,
      Walk.objectSplit (p.className rootName own site).identifier own site
          = (properties, none) ∧
        Chain R (properties.map (Walk.fieldPart site)) (p.opened rootName own site) types r ∧
        core = .classRef (p.className rootName own site).identifier ∧
        q = r.closed site.path p.models.length (Walk.classOf own
          (p.className rootName own site)
          (List.zipWith (Walk.fieldFor (Walk.requiredKeys own)) properties types))
  | .array (some item) => ∃ type, R item (site.child "items" site.hint) p type q ∧
      core = .listOf type
  | shape => shape.plainType? = some core ∧ q = p

/-- **A step by the shape of its node.** -/
theorem outcome {shape : Shape} {nullable : Bool}
    (h : WalkStep document rootName R schema site p type q)
    (shaped : classify schema = .ok ⟨shape, nullable⟩) :
    ∃ core, type = core.withOptional nullable ∧
      Outcome document rootName R schema site p core q shape := by
  cases h with
  | plain again typed =>
      rw [shaped] at again
      cases again
      refine ⟨_, rfl, ?_⟩
      cases shape with
      | array items? =>
          cases items? with
          | none => exact ⟨typed, rfl⟩
          | some items => cases typed
      | never | any | null | scalar | scalarUnion => exact ⟨typed, rfl⟩
      | ref | single | union | const | enum | object => cases typed
  | const again typed =>
      rw [shaped] at again
      cases again
      exact ⟨_, rfl, typed, rfl⟩
  | enum again named read =>
      rw [shaped] at again
      cases again
      subst named
      exact ⟨_, rfl, _, _, read, rfl, rfl⟩
  | known again hit =>
      rw [shaped] at again
      cases again
      exact ⟨_, rfl, Or.inl ⟨hit, rfl⟩⟩
  | forward again _ _ building =>
      rw [shaped] at again
      cases again
      exact ⟨_, rfl, Or.inr (Or.inl ⟨_, building, rfl, rfl⟩)⟩
  | expand again _ resolved building _ part =>
      rw [shaped] at again
      cases again
      exact ⟨_, rfl, Or.inr (Or.inr ⟨_, _, resolved, building, part, rfl⟩)⟩
  | single again part =>
      rw [shaped] at again
      cases again
      exact ⟨_, rfl, part⟩
  | union again parts =>
      rw [shaped] at again
      cases again
      exact ⟨_, rfl, _, parts, rfl⟩
  | object again named split parts =>
      rw [shaped] at again
      cases again
      subst named
      exact ⟨_, rfl, _, _, _, split, parts, rfl, rfl⟩
  | items again part =>
      rw [shaped] at again
      cases again
      exact ⟨_, rfl, _, part, rfl⟩

/-- The type of a node that has neither parts nor a model is read off its shape. -/
theorem Outcome.of_plain {shape : Shape} {core plain : DataType}
    (h : Outcome document rootName R schema site p core q shape)
    (typed : shape.plainType? = some plain) : core = plain := by
  cases shape with
  | array items? =>
      cases items? with
      | none => exact Option.some.inj (h.1.symm.trans typed)
      | some items => cases typed
  | never | any | null | scalar | scalarUnion => exact Option.some.inj (h.1.symm.trans typed)
  | ref | single | union | const | enum | object => cases typed

end WalkStep

/-! ## Walks -/

/-- A walk of some number of steps leads from one progress to another and gives a type. -/
def Walked (document : Json) (rootName : String) (schema : Json) (site : Site) (p : Progress)
    (type : DataType) (q : Progress) : Prop :=
  ∃ steps, (walk document rootName steps schema site).run p = .ok (type, q)

/-- The last step of a completed walk. -/
theorem Walked.step {document : Json} {rootName : String} {schema : Json} {site : Site}
    {p q : Progress} {type : DataType} (h : Walked document rootName schema site p type q) :
    WalkStep document rootName (Walked document rootName) schema site p type q := by
  obtain ⟨steps, h⟩ := h
  cases steps with
  | zero => cases h
  | succ steps =>
      rw [walk_succ_run] at h
      exact (WalkStep.of_descent h).imp fun part => ⟨steps, part⟩

/-- **Induction over a completed walk**: what a step makes of its parts holds of every walk. -/
theorem Walked.induct {document : Json} {rootName : String}
    {motive : Json → Site → Progress → DataType → Progress → Prop}
    (step : ∀ {schema site p type q},
      WalkStep document rootName (fun schema site p type q =>
        Walked document rootName schema site p type q ∧ motive schema site p type q)
        schema site p type q → motive schema site p type q)
    {schema : Json} {site : Site} {p : Progress} {type : DataType} {q : Progress}
    (h : Walked document rootName schema site p type q) : motive schema site p type q := by
  obtain ⟨steps, h⟩ := h
  induction steps generalizing schema site p type q with
  | zero => cases h
  | succ steps ih =>
      rw [walk_succ_run] at h
      exact step ((WalkStep.of_descent h).imp fun part => ⟨⟨steps, part⟩, ih part⟩)

/-! ## Documents -/

/-- Definitions walked one after the other, each while it is being resolved. -/
inductive DefinitionsWalked (document : Json) (rootName : String) :
    List (String × Json) → Progress → Progress → Prop where
  | nil {p : Progress} : DefinitionsWalked document rootName [] p p
  | cons {path : String} {schema : Json} {rest : List (String × Json)} {p q r : Progress}
      {type : DataType}
      (head : Walked document rootName schema (.ofReference path) (p.startResolving path) type q)
      (tail : DefinitionsWalked document rootName rest (q.stopResolving path) r) :
      DefinitionsWalked document rootName ((path, schema) :: rest) p r

theorem walkDefinitions_cons {visit : Visit} {path : String} {schema : Json}
    {rest : List (String × Json)} {p q : Progress} {u : Unit}
    (h : (walkDefinitions visit ((path, schema) :: rest)).run p = .ok (u, q)) :
    ∃ type r, (visit schema (.ofReference path)).run (p.startResolving path) = .ok (type, r) ∧
      (walkDefinitions visit rest).run (r.stopResolving path) = .ok (u, q) := by
  obtain ⟨_, _, start, h⟩ := Walk.run_bind_eq_ok.mp h
  cases start
  obtain ⟨type, r, head, h⟩ := Walk.run_bind_eq_ok.mp h
  obtain ⟨_, _, stop, h⟩ := Walk.run_bind_eq_ok.mp h
  cases stop
  exact ⟨type, r, head, h⟩

theorem DefinitionsWalked.of_run {document : Json} {rootName : String} {steps : Nat}
    {definitions : List (String × Json)} {p q : Progress} {u : Unit}
    (h : (walkDefinitions (walk document rootName steps) definitions).run p = .ok (u, q)) :
    DefinitionsWalked document rootName definitions p q := by
  induction definitions generalizing p with
  | nil =>
      cases h
      exact .nil
  | cons definition rest ih =>
      obtain ⟨path, schema⟩ := definition
      obtain ⟨type, r, head, h⟩ := walkDefinitions_cons h
      exact .cons ⟨steps, head⟩ (ih h)

theorem DefinitionsWalked.exists_of_mem {document : Json} {rootName : String}
    {definitions : List (String × Json)} {p q : Progress}
    (h : DefinitionsWalked document rootName definitions p q) {definition : String × Json}
    (mem : definition ∈ definitions) : ∃ p type q,
      Walked document rootName definition.2 (.ofReference definition.1) p type q := by
  induction h with
  | nil => cases mem
  | cons head _ ih =>
      rcases List.mem_cons.mp mem with rfl | mem
      · exact ⟨_, _, _, head⟩
      · exact ih mem

/-- Definitions fail with the first one that fails. -/
theorem walkDefinitions_eq_error {document : Json} {rootName : String} {steps : Nat}
    {definitions : List (String × Json)} {p : Progress} {e : SchemaError}
    (h : (walkDefinitions (walk document rootName steps) definitions).run p = .error e) :
    ∃ before path schema after q, definitions = before ++ (path, schema) :: after ∧
      DefinitionsWalked document rootName before p q ∧
      (walk document rootName steps schema (.ofReference path)).run (q.startResolving path)
        = .error e := by
  induction definitions generalizing p with
  | nil => cases h
  | cons definition rest ih =>
      obtain ⟨path, schema⟩ := definition
      rcases Walk.run_bind_eq_error.mp h with start | ⟨_, _, start, h⟩
      · cases start
      cases start
      rcases Walk.run_bind_eq_error.mp h with head | ⟨type, r, head, h⟩
      · exact ⟨[], path, schema, rest, p, rfl, .nil, head⟩
      rcases Walk.run_bind_eq_error.mp h with stop | ⟨_, _, stop, h⟩
      · cases stop
      cases stop
      obtain ⟨before, key, inner, after, q, rfl, walked, failed⟩ := ih h
      exact ⟨(path, schema) :: before, key, inner, after, q, rfl, .cons ⟨steps, head⟩ walked,
        failed⟩

/-- The progress with which a conversion begins: the document itself is being resolved. -/
def Progress.initial : Progress := ({} : Progress).startResolving Pointer.root

/-- A conversion that succeeds has walked its document. -/
theorem convert_run {document : Json} {rootName : String} {c : Conversion}
    (h : convert document rootName = .ok c) :
    ∃ q, (walkDefinitions (walk document (Identifier.pascal rootName) (walkBound document))
        (Pointer.definitions document) >>= fun _ =>
          walk document (Identifier.pascal rootName) (walkBound document) document .root).run
        .initial = .ok (c.root, q) ∧ c.models = q.models ∧ c.warnings = q.warnings := by
  unfold convert at h
  cases walked : (walkDocument document (walk document (Identifier.pascal rootName)
      (walkBound document))).run {} with
  | error e => simp only [walked] at h; cases h
  | ok out =>
      simp only [walked] at h
      cases h
      obtain ⟨_, _, start, walked⟩ := Walk.run_bind_eq_ok.mp walked
      cases start
      exact ⟨out.2, walked, rfl, rfl⟩

/-- A conversion that fails has failed at the definitions or at the document itself. -/
theorem convert_eq_error {document : Json} {rootName : String} {e : SchemaError}
    (h : convert document rootName = .error e) :
    (walkDefinitions (walk document (Identifier.pascal rootName) (walkBound document))
        (Pointer.definitions document)).run .initial = .error e ∨
      ∃ p, DefinitionsWalked document (Identifier.pascal rootName)
          (Pointer.definitions document) .initial p ∧
        (walk document (Identifier.pascal rootName) (walkBound document) document .root).run p
          = .error e := by
  unfold convert at h
  cases walked : (walkDocument document (walk document (Identifier.pascal rootName)
      (walkBound document))).run {} with
  | ok out => simp only [walked] at h; cases h
  | error other =>
      simp only [walked] at h
      cases h
      rcases Walk.run_bind_eq_error.mp walked with start | ⟨_, _, start, walked⟩
      · cases start
      cases start
      rcases Walk.run_bind_eq_error.mp walked with definitions | ⟨_, p, definitions, root⟩
      · exact Or.inl definitions
      · exact Or.inr ⟨p, .of_run definitions, root⟩

/-- A conversion that fails does so in the walk of a definition or of the document itself. -/
theorem exists_walk_eq_error {document : Json} {rootName : String} {e : SchemaError}
    (h : convert document rootName = .error e) :
    (∃ path schema p, (path, schema) ∈ Pointer.definitions document ∧
      (walk document (Identifier.pascal rootName) (walkBound document) schema
        (.ofReference path)).run p = .error e) ∨
      ∃ p, (walk document (Identifier.pascal rootName) (walkBound document) document .root).run p
        = .error e := by
  rcases convert_eq_error h with definitions | ⟨p, -, root⟩
  · obtain ⟨before, path, schema, after, p, split, -, failed⟩ :=
      walkDefinitions_eq_error definitions
    refine Or.inl ⟨path, schema, p.startResolving path, ?_, failed⟩
    rw [split]
    exact List.mem_append_right _ List.mem_cons_self
  · exact Or.inr ⟨p, root⟩

/-- A conversion that succeeds has walked the definitions and then the document itself. -/
theorem convert_ok {document : Json} {rootName : String} {c : Conversion}
    (h : convert document rootName = .ok c) :
    ∃ p q, DefinitionsWalked document (Identifier.pascal rootName)
        (Pointer.definitions document) .initial p ∧
      Walked document (Identifier.pascal rootName) document .root p c.root q ∧
      c.models = q.models ∧ c.warnings = q.warnings := by
  obtain ⟨q, walked, models, warnings⟩ := convert_run h
  obtain ⟨_, p, definitions, walked⟩ := Walk.run_bind_eq_ok.mp walked
  exact ⟨p, q, .of_run definitions, ⟨_, walked⟩, models, warnings⟩

end SchemaLoom
