import SchemaLoom.Proofs.Walk.Steps

set_option autoImplicit false

/-! # The descent of a walk

A node hands the walk on to some parts of the document, in order, and makes its own type of theirs.
`descent` says for every node and every progress where the visits of its parts begin, which parts
they are and what is made of their types; it does not mention how a part is visited. That a step of
the walk is no more than that is `ofNode_run`: whatever is true of all visits of a walk is proved
over lists of parts and never over the steps themselves.
-/

namespace SchemaLoom

namespace Walk

/-- Visits parts of a document one after the other. -/
def each (visit : Visit) : List (Json × Site) → Walk (List DataType)
  | [] => return []
  | (schema, site) :: rest => do
      let type ← visit schema site
      let types ← each visit rest
      return type :: types

/-- What is listed along visits of parts, as far as the visits get. -/
def along {α : Type} (list : Json → Site → Progress → List α) (visit : Visit) :
    List (Json × Site) → Progress → List α
  | [], _ => []
  | (schema, site) :: rest, p =>
      list schema site p ++ match (visit schema site).run p with
        | .ok (_, q) => along list visit rest q
        | .error _ => []

end Walk

/-- A node's own share of the walk: where the visits of its parts begin, the parts in order, and
what is made of their types. -/
structure Descent where
  start : Progress
  parts : List (Json × Site)
  finish : List DataType → Walk DataType
  /-- The reference that the node expands. -/
  expands? : Option String := none

namespace Descent

/-- The parts visited and their types put to use. -/
def run (d : Descent) (visit : Visit) : Except SchemaError (DataType × Progress) :=
  (Walk.each visit d.parts >>= d.finish).run d.start

/-- A node without parts. -/
def leaf (p : Progress) (step : Walk DataType) : Descent :=
  { start := p, parts := [], finish := fun _ => step }

/-- A node with one part. -/
def through (p : Progress) (part : Json) (site : Site) (finish : DataType → Walk DataType) :
    Descent :=
  { start := p, parts := [(part, site)], finish := fun types => finish (types.headD (.of .any)) }

theorem run_leaf (p : Progress) (step : Walk DataType) (visit : Visit) :
    (leaf p step).run visit = step.run p := rfl

theorem run_through (p : Progress) (part : Json) (site : Site) (finish : DataType → Walk DataType)
    (visit : Visit) :
    (through p part site finish).run visit = (visit part site >>= finish).run p := by
  simp [through, run, Walk.each]

end Descent

namespace Walk

/-! ## Alternatives -/

/-- The alternatives with their sites, the first of which has the given index. -/
def memberParts (keyword : UnionKeyword) (site : Site) : Nat → List Json → List (Json × Site)
  | _, [] => []
  | i, member :: rest =>
      (member, site.child s!"{keyword.text}/{i}" none) :: memberParts keyword site (i + 1) rest

theorem members_eq_each (visit : Visit) (keyword : UnionKeyword) (site : Site) (i : Nat)
    (alternatives : List Json) :
    members visit keyword site i alternatives
      = each visit (memberParts keyword site i alternatives) := by
  induction alternatives generalizing i with
  | nil => rfl
  | cons member rest ih => simp only [members, memberParts, each, ih]

/-! ## Properties -/

/-- Why a property has no field: its key has no identifier, or that of a property before. -/
def fieldFault? (owner : String) (site : Site) (seen : Entries String) (key : String) :
    Option SchemaError :=
  let resolved := Identifier.resolve .camel key
  if resolved.identifier = "" then
    some (.unsupported (propertySite site key).path (.propertyUnnamed key))
  else (Entries.get? resolved.identifier seen).map fun first =>
    .namingCollision owner resolved.identifier first key

/-- The properties before the first one that has no field, and why that one has none. -/
def splitFields (owner : String) (site : Site) :
    Entries String → List (String × Json) → List (String × Json) × Option SchemaError
  | _, [] => ([], none)
  | seen, (key, schema) :: rest =>
      match fieldFault? owner site seen key with
      | some fault => ([], some fault)
      | none =>
          let (properties, fault) :=
            splitFields owner site (((Identifier.resolve .camel key).identifier, key) :: seen) rest
          ((key, schema) :: properties, fault)

/-- A property as a part of the document. -/
def fieldPart (site : Site) (property : String × Json) : Json × Site :=
  (property.2, propertySite site property.1)

/-- The field of a property of a given type. -/
def fieldFor (required : List String) (property : String × Json) (type : DataType) : DataField :=
  fieldOf (Identifier.resolve .camel property.1) (required.contains property.1) property.2 type

/-- The fields of properties come from the properties and their types, one by one. -/
theorem mem_fields {required : List String} {properties : List (String × Json)}
    {types : List DataType} {field : DataField}
    (h : field ∈ List.zipWith (fieldFor required) properties types) :
    ∃ property type, (property, type) ∈ properties.zip types ∧
      field = fieldFor required property type := by
  rw [← List.map_uncurry_zip_eq_zipWith] at h
  obtain ⟨⟨property, type⟩, mem, rfl⟩ := List.mem_map.mp h
  exact ⟨property, type, mem, rfl⟩

/-- The fields of properties of given types, unless one more property has none. -/
def fieldsOrFault (required : List String) (split : List (String × Json) × Option SchemaError)
    (types : List DataType) : Walk (List DataField) :=
  match split.2 with
  | some fault => throw fault
  | none => return List.zipWith (fieldFor required) split.1 types

theorem fields_eq_each (visit : Visit) (owner : String) (required : List String) (site : Site)
    (seen : Entries String) (properties : List (String × Json)) :
    fields visit owner required site seen properties
      = each visit ((splitFields owner site seen properties).1.map (fieldPart site))
        >>= fieldsOrFault required (splitFields owner site seen properties) := by
  induction properties generalizing seen with
  | nil => simp [fields, splitFields, each, fieldsOrFault]
  | cons property rest ih =>
      obtain ⟨key, schema⟩ := property
      by_cases unnamed : (Identifier.resolve .camel key).identifier = ""
      · simp [fields, splitFields, fieldFault?, unnamed, each, fieldsOrFault]
      · cases seenKey : Entries.get? (Identifier.resolve .camel key).identifier seen with
        | some first =>
            simp [fields, splitFields, fieldFault?, unnamed, seenKey, each, fieldsOrFault]
        | none =>
            simp only [fields, splitFields, fieldFault?, unnamed, seenKey, if_false,
              Option.map_none, List.map_cons, each, ih, bind_assoc, pure_bind]
            refine bind_congr fun type => bind_congr fun types => ?_
            generalize splitFields owner site _ rest = split
            obtain ⟨properties, fault⟩ := split
            cases fault with
            | some fault => rfl
            | none => simp [fieldsOrFault, fieldFor]

/-- The properties of an object before the first one that has no field, and why that one has
none. -/
def objectSplit (owner : String) (schema : Entries Json) (site : Site) :
    List (String × Json) × Option SchemaError :=
  match Entries.get? "properties" schema with
  | none => ([], none)
  | some (.obj properties) => splitFields owner site [] properties
  | some _ => ([], some (.unsupported site.path .propertiesNotObject))

theorem objectFields_eq_each (visit : Visit) (owner : String) (schema : Entries Json)
    (site : Site) :
    objectFields visit owner schema site
      = each visit ((objectSplit owner schema site).1.map (fieldPart site))
        >>= fieldsOrFault (requiredKeys schema) (objectSplit owner schema site) := by
  unfold objectFields objectSplit
  cases Entries.get? "properties" schema with
  | none => rfl
  | some found =>
      cases found with
      | obj properties => exact fields_eq_each ..
      | _ => rfl

end Walk

/-! ## Nodes -/

namespace Descent

/-- What is made of the type of a target: the reference is remembered. -/
def expanded (reference : String) (type : DataType) : Walk DataType := do
  modify fun q => (q.stopResolving reference).remember reference type
  return type

/-- The expansion of a reference. -/
def expansion (p : Progress) (reference : String) (target : Json) : Descent :=
  { through (p.startResolving reference) target (.ofReference reference) (expanded reference) with
    expands? := some reference }

theorem run_expansion (p : Progress) (reference : String) (target : Json) (visit : Visit) :
    (expansion p reference target).run visit
      = (visit target (.ofReference reference) >>= expanded reference).run
          (p.startResolving reference) :=
  run_through (p.startResolving reference) target (.ofReference reference) (expanded reference)
    visit

/-- The descent of a reference. -/
def ofReference (document : Json) (reference : String) (site : Site) (p : Progress) : Descent :=
  match Entries.get? reference p.known with
  | some type => leaf p (return type)
  | none =>
      match Pointer.resolve? document reference with
      | none => leaf p (throw (.unresolvedReference reference site.path))
      | some target =>
          match Entries.get? reference p.building with
          | some name => leaf p (do
              Walk.warn (.unresolvedCycle name reference)
              return .classRef name)
          | none =>
              if reference ∈ p.resolving then leaf p (throw (.unsupported reference .endlessCycle))
              else expansion p reference target

/-- How a reference is dealt with, by what is known of it. -/
inductive ReferenceCase (document : Json) (reference : String) (site : Site) (p : Progress) :
    Descent → Prop where
  | known {type : DataType} (hit : Entries.get? reference p.known = some type) :
      ReferenceCase document reference site p (leaf p (return type))
  | unresolved (miss : Entries.get? reference p.known = none)
      (resolved : Pointer.resolve? document reference = none) :
      ReferenceCase document reference site p
        (leaf p (throw (.unresolvedReference reference site.path)))
  | forward {target : Json} {name : String} (miss : Entries.get? reference p.known = none)
      (resolved : Pointer.resolve? document reference = some target)
      (building : Entries.get? reference p.building = some name) :
      ReferenceCase document reference site p (leaf p (do
        Walk.warn (.unresolvedCycle name reference)
        return .classRef name))
  | refused {target : Json} (miss : Entries.get? reference p.known = none)
      (resolved : Pointer.resolve? document reference = some target)
      (building : Entries.get? reference p.building = none) (resolving : reference ∈ p.resolving) :
      ReferenceCase document reference site p
        (leaf p (throw (.unsupported reference .endlessCycle)))
  | expand {target : Json} (miss : Entries.get? reference p.known = none)
      (resolved : Pointer.resolve? document reference = some target)
      (building : Entries.get? reference p.building = none)
      (resolving : reference ∉ p.resolving) :
      ReferenceCase document reference site p (expansion p reference target)

theorem ofReference_case (document : Json) (reference : String) (site : Site) (p : Progress) :
    ReferenceCase document reference site p (ofReference document reference site p) := by
  unfold ofReference
  cases known : Entries.get? reference p.known with
  | some type => exact .known known
  | none =>
      cases resolved : Pointer.resolve? document reference with
      | none => exact .unresolved known resolved
      | some target =>
          cases building : Entries.get? reference p.building with
          | some name => exact .forward known resolved building
          | none =>
              by_cases resolving : reference ∈ p.resolving
              · simp only [resolving, if_true]
                exact .refused known resolved building resolving
              · simp only [resolving, if_false]
                exact .expand known resolved building resolving

/-- The descent of an object. -/
def ofObject (rootName : String) (schema : Entries Json) (site : Site) (p : Progress) : Descent :=
  let name := p.className rootName schema site
  let split := Walk.objectSplit name.identifier schema site
  { start := p.opened rootName schema site
    parts := split.1.map (Walk.fieldPart site)
    finish := fun types => do
      let fields ← Walk.fieldsOrFault (Walk.requiredKeys schema) split types
      Walk.closeClass schema site name p.models.length fields }

/-- The descent of a node of a given shape. -/
def ofShape (document : Json) (rootName : String) (schema : Json) (site : Site) (p : Progress) :
    Shape → Descent
  | .never | .any => leaf p (return .of .any)
  | .null => leaf p (return .of .null)
  | .ref reference => ofReference document reference site p
  | .single member => through p member site pure
  | .union keyword alternatives =>
      { start := p
        parts := Walk.memberParts keyword site 0 alternatives
        finish := fun types => return Walk.unionOf types }
  | .const value => leaf p (Walk.ofConst value site)
  | .enum values => leaf p (Walk.ofEnum schema values site)
  | .object object => ofObject rootName object site p
  | .array none => leaf p (return .listOf (.of .any))
  | .array (some items) =>
      through p items (site.child "items" site.hint) fun item => return .listOf item
  | .scalar scalar => leaf p (return scalar.dataType)
  | .scalarUnion scalars => leaf p (return .unionOf (scalars.map Scalar.dataType))

/-- The descent with its type made optional where the node is nullable. -/
def withOptional (nullable : Bool) (d : Descent) : Descent :=
  { d with finish := fun types => return (← d.finish types).withOptional nullable }

end Descent

/-- The descent of a node. -/
def descent (document : Json) (rootName : String) (schema : Json) (site : Site) (p : Progress) :
    Descent :=
  match classify schema with
  | .error fault => .leaf p (throw (.unsupported site.path (.shape fault)))
  | .ok classified =>
      (Descent.ofShape document rootName schema site p classified.shape).withOptional
        classified.nullable

theorem descent_of_shape {schema : Json} {shape : Shape} {nullable : Bool}
    (shaped : classify schema = .ok ⟨shape, nullable⟩) (document : Json) (rootName : String)
    (site : Site) (p : Progress) :
    descent document rootName schema site p
      = (Descent.ofShape document rootName schema site p shape).withOptional nullable := by
  unfold descent
  rw [shaped]

theorem descent_of_fault {schema : Json} {fault : ShapeFault} (shaped : classify schema = .error fault)
    (document : Json) (rootName : String) (site : Site) (p : Progress) :
    descent document rootName schema site p
      = .leaf p (throw (.unsupported site.path (.shape fault))) := by
  unfold descent
  rw [shaped]

namespace Walk

variable (document : Json) (rootName : String) (visit : Visit) (site : Site) (p : Progress)

theorem ofReference_run (reference : String) :
    (ofReference document visit reference site).run p
      = (Descent.ofReference document reference site p).run visit := by
  unfold Descent.ofReference
  rw [ofReference, StateT.run_bind]
  show StateT.run _ p = _
  cases Entries.get? reference p.known with
  | some type => rfl
  | none =>
      cases Pointer.resolve? document reference with
      | none => rfl
      | some target =>
          cases Entries.get? reference p.building with
          | some name => rfl
          | none =>
              by_cases resolving : reference ∈ p.resolving
              · simp [resolving, Descent.run_leaf]
              · simp only [resolving, if_false, Descent.run_expansion]
                rfl

theorem ofObject_run (object : Entries Json) :
    (ofObject rootName visit object site).run p
      = (Descent.ofObject rootName object site p).run visit := by
  simp only [ofObject, objectFields_eq_each, Descent.ofObject, Descent.run, bind_assoc]
  rw [StateT.run_bind, run_openClass]
  rfl

theorem ofShape_run (schema : Json) (shape : Shape) :
    (ofShape document rootName visit schema site shape).run p
      = (Descent.ofShape document rootName schema site p shape).run visit := by
  cases shape with
  | ref reference => exact ofReference_run ..
  | single member => simp [ofShape, Descent.ofShape, Descent.run_through]
  | union keyword alternatives =>
      simp only [ofShape, Descent.ofShape, Descent.run, members_eq_each]
  | object object => exact ofObject_run ..
  | array items =>
      cases items with
      | none => rfl
      | some items => exact (Descent.run_through ..).symm
  | _ => rfl

/-- **A step of the walk is its descent.** -/
theorem ofNode_run (schema : Json) :
    (ofNode document rootName visit schema site).run p
      = (descent document rootName schema site p).run visit := by
  unfold ofNode descent
  cases classify schema with
  | error fault => rfl
  | ok classified =>
      show (_ >>= _ : Walk DataType).run p = _
      rw [StateT.run_bind, ofShape_run]
      simp [Descent.withOptional, Descent.run]

end Walk

/-- A walk of some steps visits the parts of a node with one step less. -/
theorem walk_succ_run (document : Json) (rootName : String) (steps : Nat) (schema : Json)
    (site : Site) (p : Progress) :
    (walk document rootName (steps + 1) schema site).run p
      = (descent document rootName schema site p).run (walk document rootName steps) :=
  Walk.ofNode_run ..

end SchemaLoom
