import SchemaLoom.Proofs.Json.Within
import SchemaLoom.Proofs.Schema.Classify
import SchemaLoom.Proofs.Schema.Valid
import SchemaLoom.Proofs.Walk.Descent

set_option autoImplicit false

/-! # The two ways down

A node either hands the walk on to parts of its own schema (`Descent.Stays`) or expands a reference
(`Descent.Jumps`), which may lead anywhere in the document. `descent_cases` says so for every node,
with what either way does to the models, to the known types and to the references that are being
resolved. How long a walk takes and how much it gives is counted from these two cases alone.
-/

namespace SchemaLoom

/-! ## What stands in a node -/

section Within

variable {schema : Json} {nullable : Bool}

theorem within_of_single {member : Json}
    (shaped : classify schema = .ok ⟨.single member, nullable⟩) : member.Within schema := by
  obtain ⟨entries, rfl, read⟩ := classify_obj shaped nofun nofun
  exact (Json.PartsIn.of_get?_items read).within member List.mem_cons_self

theorem within_of_union {keyword : UnionKeyword} {alternatives : List Json} {member : Json}
    (shaped : classify schema = .ok ⟨.union keyword alternatives, nullable⟩)
    (mem : member ∈ alternatives) : member.Within schema := by
  obtain ⟨entries, rfl, read⟩ := classify_obj shaped nofun nofun
  exact (Json.PartsIn.of_get?_items read).within member mem

theorem within_of_property {object properties : Entries Json} {property : String × Json}
    (shaped : classify schema = .ok ⟨.object object, nullable⟩)
    (found : Entries.get? "properties" object = some (.obj properties))
    (mem : property ∈ properties) : property.2.Within schema := by
  obtain ⟨entries, rfl, read⟩ := classify_obj shaped nofun nofun
  cases read
  exact (Json.Within.member mem .refl).trans (Json.within_of_get? found)

theorem within_of_items {item : Json}
    (shaped : classify schema = .ok ⟨.array (some item), nullable⟩) : item.Within schema := by
  obtain ⟨entries, rfl, read⟩ := classify_obj shaped nofun nofun
  exact Json.within_of_get? read

theorem mem_references_of_ref {reference : String}
    (shaped : classify schema = .ok ⟨.ref reference, nullable⟩) :
    reference ∈ schema.references := by
  obtain ⟨entries, rfl, read⟩ := classify_obj shaped nofun nofun
  exact Json.mem_references_of_get? read

end Within

/-! ## Steps without visits -/

/-- The error is about a node by itself and not about the way that led to it. -/
def SchemaError.IsOwn : SchemaError → Prop
  | .unfinished | .unsupported _ .endlessCycle => False
  | _ => True

namespace Walk

/-- The step ends properly, makes at most one model, takes nothing away and remembers nothing. -/
structure Small (step : Walk DataType) : Prop where
  finished : ∀ p, step.run p ≠ .error .unfinished
  models : ∀ {p type q}, step.run p = .ok (type, q) → q.models.length ≤ p.models.length + 1
  known : ∀ {p type q}, step.run p = .ok (type, q) → q.known = p.known
  precedes : ∀ {p type q}, step.run p = .ok (type, q) → p.Precedes q

namespace Small

theorem pure (type : DataType) : Small (Pure.pure type) where
  finished := by
    intro p h
    cases h
  models := by
    intro p type q h
    cases h
    omega
  known := by
    intro p type q h
    cases h
    rfl
  precedes := by
    intro p type q h
    cases h
    exact .refl p

theorem throw {e : SchemaError} (h : e ≠ .unfinished) : Small (MonadExcept.throw e) where
  finished := by
    intro p failed
    cases failed
    exact h rfl
  models := by
    intro p type q made
    cases made
  known := by
    intro p type q made
    cases made
  precedes := by
    intro p type q made
    cases made

/-- What is done with the type of a step leaves the step small. -/
theorem map {step : Walk DataType} (h : Small step) (f : DataType → DataType) :
    Small (step >>= fun type => Pure.pure (f type)) where
  finished := by
    intro p failed
    rcases run_bind_eq_error.mp failed with first | ⟨_, _, -, last⟩
    · exact h.finished p first
    · cases last
  models := by
    intro p type q made
    obtain ⟨t, r, made, last⟩ := run_bind_eq_ok.mp made
    cases last
    exact h.models made
  known := by
    intro p type q made
    obtain ⟨t, r, made, last⟩ := run_bind_eq_ok.mp made
    cases last
    exact h.known made
  precedes := by
    intro p type q made
    obtain ⟨t, r, made, last⟩ := run_bind_eq_ok.mp made
    cases last
    exact h.precedes made

end Small

theorem small_ofConst (value : Json) (site : Site) : Small (ofConst value site) where
  finished := by
    intro p
    rw [run_ofConst]
    split <;> simp
  models := by
    intro p type q made
    rw [run_ofConst] at made
    split at made
    · cases made
      rw [models_afterConst]
      omega
    · cases made
  known := by
    intro p type q made
    rw [run_ofConst] at made
    split at made
    · cases made
      exact known_afterConst ..
    · cases made
  precedes := by
    intro p type q made
    rw [run_ofConst] at made
    split at made
    · cases made
      exact p.precedes_afterConst ..
    · cases made

/-- The ways in which an enumeration is not understood. -/
theorem enumMembers_eq_error {owner path : String} {seen : Entries String} {literals : List Json}
    {e : SchemaError} (h : enumMembers owner path seen literals = .error e) :
    (∃ found, e = .unsupported path (.enumLiteralNotScalar found)) ∨
      (∃ text, e = .unsupported path (.enumLiteralUnnamed text)) ∨
      ∃ identifier first second, e = .namingCollision owner identifier first second := by
  induction literals generalizing seen with
  | nil => cases h
  | cons literal rest ih =>
      unfold enumMembers at h
      split at h
      · split at h
        · cases inner : enumMembers owner path seen rest with
          | error other =>
              rw [inner] at h
              cases h
              exact ih inner
          | ok out =>
              rw [inner] at h
              cases h
        · cases h
          exact Or.inl ⟨literal, rfl⟩
      · next text _ =>
          simp only at h
          split at h
          · cases h
            exact Or.inr (Or.inl ⟨text, rfl⟩)
          · split at h
            · split at h
              · exact ih h
              · cases h
                exact Or.inr (Or.inr ⟨_, _, _, rfl⟩)
            · cases inner : enumMembers owner path
                  (((Identifier.resolve .pascal text).identifier, text) :: seen) rest with
              | error other =>
                  rw [inner] at h
                  cases h
                  exact ih inner
              | ok out =>
                  rw [inner] at h
                  cases h

theorem enumMembers_isOwn {owner path : String} {seen : Entries String} {literals : List Json}
    {e : SchemaError} (h : enumMembers owner path seen literals = .error e) : e.IsOwn := by
  rcases enumMembers_eq_error h with ⟨_, rfl⟩ | ⟨_, rfl⟩ | ⟨_, _, _, rfl⟩
  · trivial
  · trivial
  · trivial

theorem small_ofEnum (schema : Json) (literals : List Json) (site : Site) :
    Small (ofEnum schema literals site) where
  finished := by
    intro p failed
    rw [run_ofEnum] at failed
    split at failed
    · cases failed
    · next read =>
        cases failed
        exact enumMembers_isOwn read
  models := by
    intro p type q made
    rw [run_ofEnum] at made
    split at made
    · cases made
      rw [models_afterEnum]
      exact List.length_insertIdx_le_succ
    · cases made
  known := by
    intro p type q made
    rw [run_ofEnum] at made
    split at made
    · cases made
      exact known_afterEnum ..
    · cases made
  precedes := by
    intro p type q made
    rw [run_ofEnum] at made
    split at made
    · cases made
      exact p.precedes_afterEnum ..
    · cases made

/-- The ways in which a property has no field. -/
theorem fieldFault?_eq_some {owner : String} {site : Site} {seen : Entries String} {key : String}
    {fault : SchemaError} (h : fieldFault? owner site seen key = some fault) :
    fault = .unsupported (propertySite site key).path (.propertyUnnamed key) ∨
      ∃ identifier first, fault = .namingCollision owner identifier first key := by
  unfold fieldFault? at h
  simp only at h
  split at h
  · cases h
    exact Or.inl rfl
  · obtain ⟨first, -, rfl⟩ := Option.map_eq_some_iff.mp h
    exact Or.inr ⟨_, first, rfl⟩

theorem splitFields_sublist (owner : String) (site : Site) (seen : Entries String)
    (properties : List (String × Json)) :
    (splitFields owner site seen properties).1.Sublist properties := by
  induction properties generalizing seen with
  | nil => exact List.Sublist.refl _
  | cons property rest ih =>
      obtain ⟨key, schema⟩ := property
      unfold splitFields
      split
      · exact List.nil_sublist _
      · exact (ih _).cons_cons _

/-- A property without a field is one of those that are split. -/
theorem splitFields_eq_fault {owner : String} {site : Site} {seen : Entries String}
    {properties : List (String × Json)} {fault : SchemaError}
    (h : (splitFields owner site seen properties).2 = some fault) :
    ∃ property ∈ properties, ∃ before, fieldFault? owner site before property.1 = some fault := by
  induction properties generalizing seen with
  | nil => cases h
  | cons property rest ih =>
      obtain ⟨key, schema⟩ := property
      unfold splitFields at h
      split at h
      · next found =>
          cases h
          exact ⟨(key, schema), List.mem_cons_self, seen, found⟩
      · obtain ⟨property, mem, before, found⟩ := ih h
        exact ⟨property, List.mem_cons_of_mem _ mem, before, found⟩

/-- The ways in which an object has no fields. -/
theorem objectSplit_eq_fault {owner : String} {schema : Entries Json} {site : Site}
    {fault : SchemaError} (h : (objectSplit owner schema site).2 = some fault) :
    fault = .unsupported site.path .propertiesNotObject ∨
      ∃ properties, Entries.get? "properties" schema = some (.obj properties) ∧
        ∃ property ∈ properties, ∃ before,
          fieldFault? owner site before property.1 = some fault := by
  unfold objectSplit at h
  split at h
  · cases h
  · next properties found => exact Or.inr ⟨properties, found, splitFields_eq_fault h⟩
  · cases h
    exact Or.inl rfl

theorem objectSplit_isOwn {owner : String} {schema : Entries Json} {site : Site}
    {fault : SchemaError} (h : (objectSplit owner schema site).2 = some fault) : fault.IsOwn := by
  rcases objectSplit_eq_fault h with rfl | ⟨_, -, _, -, _, found⟩
  · trivial
  · rcases fieldFault?_eq_some found with rfl | ⟨_, _, rfl⟩
    · trivial
    · trivial

theorem splitFields_eq_all {owner : String} {site : Site} {seen : Entries String}
    {all properties : List (String × Json)}
    (split : splitFields owner site seen all = (properties, none)) : properties = all := by
  induction all generalizing seen properties with
  | nil =>
      cases split
      rfl
  | cons property rest ih =>
      obtain ⟨key, schema⟩ := property
      unfold splitFields at split
      split at split
      · cases split
      · simp only [Prod.mk.injEq] at split
        obtain ⟨rfl, fault⟩ := split
        exact congrArg ((key, schema) :: ·) (ih (Prod.ext rfl fault))

/-- An object whose fields are all made has one for every declared property. -/
theorem objectSplit_eq_declared {owner : String} {object : Entries Json} {site : Site}
    {properties : List (String × Json)}
    (split : objectSplit owner object site = (properties, none)) :
    properties = declared object := by
  unfold objectSplit at split
  unfold declared
  split at split
  · next found =>
      cases split
      simp [found]
  · next all found =>
      rw [found]
      exact splitFields_eq_all split
  · cases split

/-- Fields are made of some of the declared properties, in order. -/
theorem objectSplit_sublist (owner : String) (object : Entries Json) (site : Site) :
    (objectSplit owner object site).1.Sublist (declared object) := by
  unfold objectSplit
  split
  · exact List.nil_sublist _
  · next all found =>
      unfold declared
      rw [found]
      exact splitFields_sublist ..
  · exact List.nil_sublist _

/-- The properties of an object stand in its schema. -/
theorem objectSplit_parts (owner : String) (schema : Entries Json) (site : Site) :
    Json.PartsIn ((objectSplit owner schema site).1.map Prod.snd) (.obj schema) := by
  unfold objectSplit
  split
  · exact .nil _
  · next properties found =>
      have some := (splitFields_sublist owner site [] properties).map Prod.snd
      exact ((Json.PartsIn.of_members properties).sublist some).of_within
        (Json.within_of_get? found)
  · exact .nil _

theorem small_closeClass (owner : String) (schema : Entries Json) (site : Site)
    (name : Identifier.Resolved) (slot : Nat) (types : List DataType) :
    Small (fieldsOrFault (requiredKeys schema) (objectSplit owner schema site) types
      >>= closeClass schema site name slot) := by
  cases fault : (objectSplit owner schema site).2 with
  | some e =>
      have thrown : fieldsOrFault (requiredKeys schema) (objectSplit owner schema site) types
          >>= closeClass schema site name slot = throw e := by
        unfold fieldsOrFault
        rw [fault]
        rfl
      rw [thrown]
      refine .throw ?_
      rintro rfl
      exact objectSplit_isOwn fault
  | none =>
      have closed : fieldsOrFault (requiredKeys schema) (objectSplit owner schema site) types
          >>= closeClass schema site name slot
            = closeClass schema site name slot (List.zipWith (fieldFor (requiredKeys schema))
                (objectSplit owner schema site).1 types) := by
        unfold fieldsOrFault
        rw [fault]
        rfl
      rw [closed]
      refine ⟨?_, ?_, ?_, ?_⟩
      · intro p failed
        cases failed
      · intro p type q made
        rw [run_closeClass] at made
        cases made
        rw [Progress.models_closed]
        exact List.length_insertIdx_le_succ
      · intro p type q made
        rw [run_closeClass] at made
        cases made
        exact Progress.known_closed ..
      · intro p type q made
        rw [run_closeClass] at made
        cases made
        exact p.precedes_closed ..

theorem map_fst_memberParts (keyword : UnionKeyword) (site : Site) (i : Nat)
    (alternatives : List Json) :
    (memberParts keyword site i alternatives).map Prod.fst = alternatives := by
  induction alternatives generalizing i with
  | nil => rfl
  | cons member rest ih => simp [memberParts, ih]

end Walk

/-! ## Nodes -/

namespace Descent

/-- The node visits parts of its schema. -/
structure Stays (schema : Json) (p : Progress) (d : Descent) : Prop where
  expands? : d.expands? = none
  parts : Json.PartsIn (d.parts.map Prod.fst) schema
  models : d.start.models = p.models
  known : d.start.known = p.known
  resolving : d.start.resolving = p.resolving
  finish : ∀ types, Walk.Small (d.finish types)

/-- The node expands a reference that is neither known nor being resolved. -/
structure Jumps (document schema : Json) (p : Progress) (reference : String) (target : Json)
    (d : Descent) : Prop where
  listed : reference ∈ schema.references
  resolved : Pointer.resolve? document reference = some target
  unknown : Entries.get? reference p.known = none
  fresh : reference ∉ p.resolving
  expands? : d.expands? = some reference
  start : d.start = p.startResolving reference
  parts : d.parts = [(target, .ofReference reference)]
  finished : ∀ types r, (d.finish types).run r ≠ .error .unfinished
  finish : ∀ {types r type q}, (d.finish types).run r = .ok (type, q) →
    q.models = r.models ∧ q.warnings = r.warnings ∧
      ∃ t, q.known = Entries.insert reference t r.known

variable {document schema : Json} {rootName : String} {site : Site} {p : Progress} {d : Descent}
  {nullable : Bool}

theorem Stays.leaf {step : Walk DataType} (h : Walk.Small step) : (leaf p step).Stays schema p where
  expands? := rfl
  parts := .nil schema
  models := rfl
  known := rfl
  resolving := rfl
  finish := fun _ => h

theorem Stays.withOptional (h : d.Stays schema p) : (d.withOptional nullable).Stays schema p :=
  { h with finish := fun types => (h.finish types).map _ }

theorem Jumps.withOptional {reference : String} {target : Json}
    (h : d.Jumps document schema p reference target) :
    (d.withOptional nullable).Jumps document schema p reference target where
  listed := h.listed
  resolved := h.resolved
  unknown := h.unknown
  fresh := h.fresh
  expands? := h.expands?
  start := h.start
  parts := h.parts
  finished := by
    intro types r failed
    rcases Walk.run_bind_eq_error.mp failed with first | ⟨_, _, -, last⟩
    · exact h.finished types r first
    · cases last
  finish := by
    intro types r type q made
    obtain ⟨t, s, made, last⟩ := Walk.run_bind_eq_ok.mp made
    cases last
    exact h.finish made

/-- A reference that the schema holds is answered at once or expanded. -/
theorem ofReference_cases {reference : String} (listed : reference ∈ schema.references)
    (document : Json) (site : Site) (p : Progress) :
    (ofReference document reference site p).Stays schema p ∨
      ∃ target, (ofReference document reference site p).Jumps document schema p reference
        target := by
  have answer := ofReference_case document reference site p
  generalize ofReference document reference site p = d at answer
  cases answer with
  | known hit => exact Or.inl (.leaf (.pure _))
  | unresolved | refused => exact Or.inl (.leaf (.throw (by simp)))
  | forward miss resolved building =>
      refine Or.inl (.leaf ⟨?_, ?_, ?_, ?_⟩)
      · intro r failed
        cases failed
      · intro r type q made
        cases made
        exact Nat.le_succ _
      · intro r type q made
        cases made
        rfl
      · intro r type q made
        cases made
        exact r.precedes_warn _
  | expand miss resolved building resolving =>
      refine Or.inr ⟨_, listed, resolved, miss, resolving, rfl, rfl, rfl, ?_, ?_⟩
      · intro types r failed
        cases failed
      · intro types r type q made
        cases made
        exact ⟨rfl, rfl, _, rfl⟩

theorem stays_ofObject {object : Entries Json} :
    (ofObject rootName object site p).Stays (.obj object) p where
  expands? := rfl
  parts := by
    have same : ((ofObject rootName object site p).parts.map Prod.fst)
        = (Walk.objectSplit (p.className rootName object site).identifier object site).1.map
            Prod.snd := by
      simp [ofObject, Walk.fieldPart, Function.comp_def]
    rw [same]
    exact Walk.objectSplit_parts ..
  models := Progress.models_opened ..
  known := Progress.known_opened ..
  resolving := Progress.resolving_opened ..
  finish := fun _ => Walk.small_closeClass ..

/-- A node with one part, whose type is put to use as it is. -/
theorem stays_through {part : Json} {at_ : Site} {f : DataType → DataType}
    (h : Json.PartsIn [part] schema) :
    (through p part at_ fun type => pure (f type)).Stays schema p where
  expands? := rfl
  parts := h
  models := rfl
  known := rfl
  resolving := rfl
  finish := fun _ => .pure _

theorem stays_union {keyword : UnionKeyword} {alternatives : List Json}
    (h : Json.PartsIn alternatives schema) :
    (ofShape document rootName schema site p (.union keyword alternatives)).Stays schema p where
  expands? := rfl
  parts := by
    have same := Walk.map_fst_memberParts keyword site 0 alternatives
    show Json.PartsIn ((Walk.memberParts keyword site 0 alternatives).map Prod.fst) schema
    rwa [same]
  models := rfl
  known := rfl
  resolving := rfl
  finish := fun _ => .pure _

theorem ofShape_cases {entries : Entries Json} {shape : Shape} (read : shape.ReadFrom entries) :
    (ofShape document rootName (.obj entries) site p shape).Stays (.obj entries) p ∨
      ∃ reference target, (ofShape document rootName (.obj entries) site p shape).Jumps document
        (.obj entries) p reference target := by
  cases shape with
  | ref reference =>
      rcases ofReference_cases (Json.mem_references_of_get? read) document site p with
        h | ⟨target, h⟩
      · exact Or.inl h
      · exact Or.inr ⟨reference, target, h⟩
  | single member =>
      have part : Json.PartsIn [member] (.obj entries) := .of_get?_items read
      exact Or.inl (stays_through (f := id) part)
  | union keyword alternatives => exact Or.inl (stays_union (.of_get?_items read))
  | const value => exact Or.inl (.leaf (Walk.small_ofConst value site))
  | enum literals => exact Or.inl (.leaf (Walk.small_ofEnum _ literals site))
  | object object =>
      cases read
      exact Or.inl stays_ofObject
  | array items? =>
      cases items? with
      | none => exact Or.inl (.leaf (.pure _))
      | some items => exact Or.inl (stays_through (.of_get? read))
  | _ => exact Or.inl (.leaf (.pure _))

end Descent

/-- **A node visits parts of its schema or expands a reference.** -/
theorem descent_cases (document : Json) (rootName : String) (schema : Json) (site : Site)
    (p : Progress) :
    (descent document rootName schema site p).Stays schema p ∨ ∃ reference target,
      (descent document rootName schema site p).Jumps document schema p reference target := by
  unfold descent
  cases shaped : classify schema with
  | error fault => exact Or.inl (.leaf (.throw (by simp)))
  | ok classified =>
      obtain ⟨shape, nullable⟩ := classified
      rcases classify_eq_ok shaped with ⟨-, rfl, -⟩ | ⟨-, rfl, -⟩ | ⟨entries, rfl, read⟩
      · exact Or.inl (Descent.Stays.withOptional (.leaf (.pure _)))
      · exact Or.inl (Descent.Stays.withOptional (.leaf (.pure _)))
      · rcases Descent.ofShape_cases read with h | ⟨reference, target, h⟩
        · exact Or.inl h.withOptional
        · exact Or.inr ⟨reference, target, h.withOptional⟩

end SchemaLoom
