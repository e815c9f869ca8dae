import SchemaLoom.Proofs.Schema.Valid
import SchemaLoom.Proofs.Walk.Keeps
import SchemaLoom.Proofs.Walk.Parts

set_option autoImplicit false

/-! # The order of the models

A walk takes the place of a class before it visits the fields and puts the class there afterwards,
when the list has grown. What comes of it needs no places: `preorderOf` lists the models of a visit
from the top down, each node's own model before those of its parts, and a walk appends that list to
the models there were (`walk_models_eq`). The progress is threaded through the list only because
names and known types depend on what was visited before.
-/

namespace SchemaLoom

namespace Walk

/-! ## The model of a node itself -/

/-- A model on its way into the list: its place, the model, and how far the walk has come. -/
structure Put where
  slot : Nat
  model : DataModel
  before : Progress

/-- The class of an object whose fields can be made, on its way into the list. -/
def putClass? (rootName : String) (visit : Visit) (own : Entries Json) (site : Site)
    (p : Progress) : Option Put :=
  let name := p.className rootName own site
  match (objectFields visit name.identifier own site).run (p.opened rootName own site) with
  | .ok (fields, r) =>
      some ⟨p.models.length, .ofClass (classOf own name fields), r.stopBuilding site.path⟩
  | .error _ => none

/-- The enum of an enumeration whose literals can be read, on its way into the list. -/
def putEnum? (schema : Json) (literals : List Json) (site : Site) (p : Progress) : Option Put :=
  let name := enumNameOf p schema
  match enumMembers name.identifier site.path [] literals with
  | .ok (values, _) =>
      some ⟨p.models.length, .ofEnum (enumOf schema name values),
        p.afterName anonymousEnum (titled? (textAt "title" schema))⟩
  | .error _ => none

/-- What a node puts into the list itself. -/
def put? (rootName : String) (visit : Visit) (schema : Json) (site : Site) (p : Progress) :
    Option Put :=
  match classify schema with
  | .ok ⟨.object own, _⟩ => putClass? rootName visit own site p
  | .ok ⟨.enum literals, _⟩ => putEnum? schema literals site p
  | _ => none

/-- Whether a node has a model of its own. -/
def hasModel (schema : Json) : Bool :=
  match classify schema with
  | .ok ⟨.object _, _⟩ | .ok ⟨.enum _, _⟩ => true
  | _ => false

/-- What becomes of the model of a node: an object and an enumeration put one within the list, and
their visit ends with that; any other node puts none. -/
def EndsWith (schema : Json) (q : Progress) : Option Put → Prop
  | some put => hasModel schema = true ∧ put.slot ≤ put.before.models.length ∧
      q = put.before.place put.slot put.model
  | none => hasModel schema = false

end Walk

/-! ## The list -/

open Walk in
/-- The models that a visit adds, from the top down: an object gives its class before what its
properties give, a reference what its target gives unless its type is known or its object is being
converted. -/
def preorderOf (document : Json) (rootName : String) :
    Nat → Json → Site → Progress → List DataModel
  | 0, _, _, _ => []
  | steps + 1, schema, site, p =>
      let visit := walk document rootName steps
      let below := preorderOf document rootName steps
      match classify schema with
      | .error _ => []
      | .ok ⟨.object own, _⟩ =>
          ((putClass? rootName visit own site p).map Put.model).toList ++
            along below visit ((declared own).map (fieldPart site)) (p.opened rootName own site)
      | .ok ⟨.enum literals, _⟩ => ((putEnum? schema literals site p).map Put.model).toList
      | .ok ⟨.union keyword members, _⟩ => along below visit (memberParts keyword site 0 members) p
      | .ok ⟨.array (some item), _⟩ => below item (site.child "items" site.hint) p
      | .ok ⟨.single member, _⟩ => below member site p
      | .ok ⟨.ref reference, _⟩ =>
          match Entries.get? reference p.known, Entries.get? reference p.building,
            Pointer.resolve? document reference with
          | none, none, some target =>
              below target (.ofReference reference) (p.startResolving reference)
          | _, _, _ => []
      | .ok _ => []

/-- The models that definitions add, each in turn. -/
def preorderOfDefinitions (document : Json) (rootName : String) (steps : Nat) :
    List (String × Json) → Progress → List DataModel
  | [], _ => []
  | (path, schema) :: rest, p =>
      preorderOf document rootName steps schema (.ofReference path) (p.startResolving path) ++
        match (walk document rootName steps schema (.ofReference path)).run
            (p.startResolving path) with
        | .ok (_, q) => preorderOfDefinitions document rootName steps rest (q.stopResolving path)
        | .error _ => []

/-- The models of a document: those of the definitions in the one container and in the other one,
then those of the document itself. -/
def preorder (document : Json) (rootName : String) : List DataModel :=
  let root := Identifier.pascal rootName
  let steps := walkBound document
  let visit := walk document root steps
  let preferred := Pointer.definitionsOf document "$defs"
  let others := Pointer.definitionsOf document "definitions"
  preorderOfDefinitions document root steps preferred .initial ++
    match (walkDefinitions visit preferred).run .initial with
    | .error _ => []
    | .ok (_, p) => preorderOfDefinitions document root steps others p ++
        match (walkDefinitions visit others).run p with
        | .error _ => []
        | .ok (_, q) => preorderOf document root steps document .root q

/-! ## A visit -/

section Visits

variable {document : Json} {rootName : String} {visit : Visit} {schema : Json} {site : Site}
  {p q : Progress} {type : DataType}

/-- Parts that append their lists one after the other append them all. -/
theorem Chain.models_eq_along {parts : List (Json × Site)} {types : List DataType}
    {list : Json → Site → Progress → List DataModel}
    (chain : Chain (WalkStep.OfVisit visit) parts p types q)
    (each : ∀ {schema site p type q}, (visit schema site).run p = .ok (type, q) →
      q.models = p.models ++ list schema site p) :
    q.models = p.models ++ Walk.along list visit parts p := by
  induction chain with
  | nil => exact (List.append_nil _).symm
  | @cons schema site rest p q r type types head tail ih =>
      have step : Walk.along list visit ((schema, site) :: rest) p
          = list schema site p ++ Walk.along list visit rest q := by
        simp only [Walk.along, show (visit schema site).run p = .ok (type, q) from head]
      rw [ih, each head, step, List.append_assoc]

theorem Walk.objectFields_run_of_chain {owner : String} {own : Entries Json}
    {properties : List (String × Json)} {types : List DataType}
    (split : objectSplit owner own site = (properties, none))
    (parts : Chain (WalkStep.OfVisit visit) (properties.map (fieldPart site)) p types q) :
    (objectFields visit owner own site).run p
      = .ok (List.zipWith (fieldFor (requiredKeys own)) properties types, q) := by
  rw [objectFields_eq_each, split]
  refine run_bind_eq_ok.mpr ⟨types, q, each_run_eq_ok.mpr parts, rfl⟩

theorem Walk.putClass?_of_chain {own : Entries Json} {properties : List (String × Json)}
    {types : List DataType}
    (split : objectSplit (p.className rootName own site).identifier own site = (properties, none))
    (parts : Chain (WalkStep.OfVisit visit) (properties.map (fieldPart site))
      (p.opened rootName own site) types q) :
    putClass? rootName visit own site p = some ⟨p.models.length,
      .ofClass (classOf own (p.className rootName own site)
        (List.zipWith (fieldFor (requiredKeys own)) properties types)),
      q.stopBuilding site.path⟩ := by
  unfold putClass?
  simp only [objectFields_run_of_chain split parts]

theorem Walk.putEnum?_of_read {literals : List Json} {values : List EnumMember} {hasNull : Bool}
    (read : enumMembers (enumNameOf p schema).identifier site.path [] literals
      = .ok (values, hasNull)) :
    putEnum? schema literals site p = some ⟨p.models.length,
      .ofEnum (enumOf schema (enumNameOf p schema) values),
      p.afterName anonymousEnum (titled? (textAt "title" schema))⟩ := by
  unfold putEnum?
  simp only [read]

/-- **A node puts its model within the list**, and its visit ends with that. -/
theorem Walk.endsWith_put? {steps : Nat}
    (step : WalkStep document rootName (WalkStep.OfVisit (walk document rootName steps)) schema site
      p type q) :
    EndsWith schema q (put? rootName (walk document rootName steps) schema site p) := by
  cases step with
  | @plain shape _ _ shaped typed =>
      simp only [put?, EndsWith, hasModel, shaped]
      cases shape with
      | object | enum => cases typed
      | never | any | null | ref | single | union | const | array | scalar | scalarUnion => rfl
  | const shaped | known shaped | forward shaped | expand shaped | single shaped | union shaped
  | items shaped => simp only [put?, EndsWith, hasModel, shaped]
  | enum shaped named read =>
      subst named
      simp only [put?, EndsWith, hasModel, shaped, putEnum?_of_read read, true_and]
      refine ⟨?_, rfl⟩
      rw [Progress.models_afterName]
  | object shaped named split parts =>
      subst named
      simp only [put?, EndsWith, hasModel, shaped, putClass?_of_chain split parts, true_and]
      refine ⟨?_, rfl⟩
      have grown := (Progress.Keeps.of_chain parts fun part => Walked.keeps ⟨steps, part⟩).models
      rw [Progress.models_opened] at grown
      exact grown.length_le

/-- **The models of a visit are appended from the top down.** -/
theorem walk_models_eq {steps : Nat}
    (h : (walk document rootName steps schema site).run p = .ok (type, q)) :
    q.models = p.models ++ preorderOf document rootName steps schema site p := by
  induction steps generalizing schema site p type q with
  | zero => cases h
  | succ steps ih =>
      rw [walk_succ_run] at h
      cases WalkStep.of_descent h with
      | @plain shape _ _ shaped typed =>
          simp only [preorderOf, shaped]
          cases shape with
          | array items? => cases items? with
            | none => exact (List.append_nil _).symm
            | some item => cases typed
          | never | any | null | scalar | scalarUnion => exact (List.append_nil _).symm
          | ref | single | union | const | enum | object => cases typed
      | const shaped =>
          simp only [preorderOf, shaped, Walk.models_afterConst, List.append_nil]
      | enum shaped named read =>
          subst named
          simp only [preorderOf, shaped, Walk.putEnum?_of_read read, Walk.models_afterEnum]
          exact List.insertIdx_length_self
      | known shaped hit => simp only [preorderOf, shaped, hit, List.append_nil]
      | forward shaped miss resolved building =>
          simp only [preorderOf, shaped, miss, resolved, building, Progress.models_warn,
            List.append_nil]
      | expand shaped miss resolved building _ part =>
          simp only [preorderOf, shaped, miss, resolved, building]
          exact ih part
      | single shaped part =>
          simp only [preorderOf, shaped]
          exact ih part
      | union shaped parts =>
          simp only [preorderOf, shaped]
          exact Chain.models_eq_along parts ih
      | object shaped named split parts =>
          subst named
          have filled := Chain.models_eq_along parts ih
          rw [Progress.models_opened] at filled
          -- The fields have grown the list behind the place that was taken.
          simp only [preorderOf, shaped, Walk.putClass?_of_chain split parts,
            Progress.models_closed, filled, insertIdx_length_append,
            Walk.objectSplit_eq_declared split]
          rfl
      | items shaped part =>
          simp only [preorderOf, shaped]
          exact ih part

end Visits

/-! ## Documents -/

section Documents

variable {document : Json} {rootName : String} {steps : Nat} {p q : Progress} {u : Unit}

theorem walkDefinitions_models_eq {definitions : List (String × Json)}
    (h : (walkDefinitions (walk document rootName steps) definitions).run p = .ok (u, q)) :
    q.models = p.models ++ preorderOfDefinitions document rootName steps definitions p := by
  induction definitions generalizing p with
  | nil =>
      cases h
      exact (List.append_nil _).symm
  | cons definition rest ih =>
      obtain ⟨path, schema⟩ := definition
      obtain ⟨type, r, head, tail⟩ := walkDefinitions_cons h
      have first := walk_models_eq head
      rw [Progress.models_startResolving] at first
      rw [ih tail, Progress.models_stopResolving, first, List.append_assoc]
      simp only [preorderOfDefinitions, head]

theorem walkDefinitions_append (visit : Visit) (definitions more : List (String × Json)) :
    walkDefinitions visit (definitions ++ more)
      = walkDefinitions visit definitions >>= fun _ => walkDefinitions visit more := by
  induction definitions with
  | nil => rfl
  | cons definition rest ih =>
      obtain ⟨path, schema⟩ := definition
      simp only [List.cons_append, walkDefinitions, ih, bind_assoc]

/-- The definitions stand in two containers. -/
theorem definitions_eq_append (document : Json) : Pointer.definitions document
    = Pointer.definitionsOf document "$defs" ++ Pointer.definitionsOf document "definitions" := by
  simp [Pointer.definitions, Pointer.containers]

theorem convert_models_eq {document : Json} {rootName : String} {c : Conversion}
    (h : convert document rootName = .ok c) : c.models = preorder document rootName := by
  obtain ⟨r, walked, models, -⟩ := convert_run h
  obtain ⟨_, q, definitions, root⟩ := Walk.run_bind_eq_ok.mp walked
  rw [definitions_eq_append, walkDefinitions_append] at definitions
  obtain ⟨_, p, preferred, others⟩ := Walk.run_bind_eq_ok.mp definitions
  have none : Progress.initial.models = [] := rfl
  rw [models, walk_models_eq root, walkDefinitions_models_eq others,
    walkDefinitions_models_eq preferred, none, List.nil_append, List.append_assoc]
  simp only [preorder, preferred, others]

end Documents

/-- **Models are emitted from the top down**: a successful visit appends the list of its node, the
place of the node's own model is never beyond the end of the models, and a document gives the lists
of its definitions and of itself one after the other. -/
theorem convert_emits_preorder (document : Json) (rootName : String) :
    (∀ steps schema site p type q,
      (walk document (Identifier.pascal rootName) (steps + 1) schema site).run p = .ok (type, q) →
        q.models = p.models
            ++ preorderOf document (Identifier.pascal rootName) (steps + 1) schema site p ∧
          Walk.EndsWith schema q (Walk.put? (Identifier.pascal rootName)
            (walk document (Identifier.pascal rootName) steps) schema site p)) ∧
      ∀ c, convert document rootName = .ok c → c.models = preorder document rootName := by
  refine ⟨fun steps schema site p type q walked => ?_, fun c => convert_models_eq⟩
  refine ⟨walk_models_eq walked, ?_⟩
  rw [walk_succ_run] at walked
  exact Walk.endsWith_put? (WalkStep.of_descent walked)

/-- An order with definitions in both containers, which it refers to again. -/
def orderForm : Json :=
  .obj [("definitions", .obj [("customer", .obj [("properties", .obj [
      ("name", .obj [("type", .str "string")])])])]),
    ("$defs", .obj [("line", .obj [("properties", .obj [
      ("size", .obj [("title", .str "Size"), ("enum", .arr [.str "small", .str "large"])])])])]),
    ("properties", .obj [
      ("lines", .obj [("items", .obj [("$ref", .str "#/$defs/line")])]),
      ("ship to", .obj [("allOf", .arr [.obj [("$ref", .str "#/definitions/customer")]])]),
      ("paid", .obj [("anyOf", .arr [.bool false, .obj [("properties", .obj [])]])])])]

theorem convert_emits_preorder_orderForm : ∃ c, convert orderForm "Order" = .ok c ∧
    c.models = preorder orderForm "Order" ∧ c.models.map DataModel.name
      = ["Line", "Size", "Customer", "Order", "Line", "Size", "Customer", "AnonymousClass1"] := by
  have made : (convert orderForm "Order").toOption.map (·.models.map DataModel.name)
      = some ["Line", "Size", "Customer", "Order", "Line", "Size", "Customer",
        "AnonymousClass1"] := by decide +kernel
  obtain ⟨c, converted, names⟩ := exists_of_toOption made
  exact ⟨c, converted, (convert_emits_preorder orderForm "Order").2 c converted, names⟩

end SchemaLoom
