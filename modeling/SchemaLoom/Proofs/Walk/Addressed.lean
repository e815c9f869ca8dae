import SchemaLoom.Proofs.Json.DistinctKeys
import SchemaLoom.Proofs.Json.Paths
import SchemaLoom.Proofs.Json.Pointers
import SchemaLoom.Proofs.Walk.Parts

set_option autoImplicit false

/-! # Where the path of a node points

A walk names a node by a path, and a reference that is the path of an object under construction is
taken for that object. This is right as far as the path points at the node. It need not: the only
member of an `allOf` keeps the path of the whole, so the path of a node points at the node or at
schemas that stand for it (`Leads`), and a path below a member may point nowhere. It points at
something else only where the whole has, beside its `allOf`, a key that the path below the member
goes through; documents without such schemas (`SinglesAlone`) and with one value a key
(`DistinctKeys`) keep every node addressed (`Addressed`).
-/

namespace SchemaLoom

/-! ## Documents that are easy to find one's way in -/

/-- No schema that stands for the only member of its `allOf` carries items or alternatives. -/
def SinglesAlone (document : Json) : Prop :=
  ∀ entries member nullable, (Json.obj entries).Within document →
    classify (.obj entries) = .ok ⟨.single member, nullable⟩ →
      Entries.get? "items" entries = none ∧ Entries.get? "anyOf" entries = none ∧
        Entries.get? "oneOf" entries = none

/-- The test of one value: whether it carries nothing beside its only member. -/
def SinglesAlone.passes : Json → Bool
  | .obj entries =>
      match classify (.obj entries) with
      | .ok ⟨.single _, _⟩ =>
          !Entries.contains "items" entries && !Entries.contains "anyOf" entries
            && !Entries.contains "oneOf" entries
      | _ => true
  | _ => true

theorem SinglesAlone.of_everywhere {document : Json}
    (h : document.everywhere SinglesAlone.passes = true) : SinglesAlone document := by
  intro entries member nullable within shaped
  have passed : SinglesAlone.passes (.obj entries) = true := within.passes h
  simpa [SinglesAlone.passes, shaped, Entries.contains, and_assoc] using passed

/-! ## Schemas that stand for others -/

/-- A schema is another one, or the only member of its `allOf` leads to the other one. -/
inductive Leads : Json → Json → Prop where
  | refl {schema : Json} : Leads schema schema
  | single {schema member target : Json} {nullable : Bool}
      (shaped : classify schema = .ok ⟨.single member, nullable⟩) (rest : Leads member target) :
      Leads schema target

theorem Leads.trans {a b c : Json} (h : Leads a b) (h' : Leads b c) : Leads a c := by
  induction h with
  | refl => exact h'
  | single shaped _ ih => exact .single shaped (ih h')

/-! ## Keys that lead to parts -/

/-- The keys that lead from a node to its parts. -/
inductive PartKey : String → Prop where
  | properties : PartKey "properties"
  | items : PartKey "items"
  | alternatives (keyword : UnionKeyword) : PartKey keyword.text

theorem PartKey.plain {key : String} (h : PartKey key) : '/' ∉ key.toList ∧ '~' ∉ key.toList := by
  cases h with
  | properties => decide
  | items => decide
  | alternatives keyword => cases keyword <;> decide

/-- Only the node itself, of all schemas that stand for it, has a key that leads to its parts. -/
theorem Leads.eq_of_step? {document w schema u : Json} {key : String}
    (alone : SinglesAlone document) (within : w.Within document) (leads : Leads w schema)
    (part : PartKey key) (step : Pointer.step? w key.toList = some u) : w = schema := by
  cases leads with
  | refl => rfl
  | @single _ member _ nullable shaped _ =>
      obtain ⟨entries, rfl, -⟩ := classify_obj shaped nofun nofun
      rw [Pointer.step?_key part.plain.2] at step
      obtain ⟨items, anyOf, oneOf⟩ := alone entries member nullable within shaped
      have absent : Entries.get? key entries = none := by
        cases part with
        | properties => exact (classify_single shaped).2
        | items => exact items
        | alternatives keyword =>
            cases keyword with
            | anyOf => exact anyOf
            | oneOf => exact oneOf
      rw [absent] at step
      cases step

/-! ## Nodes and their paths -/

/-- A node of the document whose path points, if anywhere, at a schema that stands for it. -/
structure Addressed (document schema : Json) (site : Site) : Prop where
  within : schema.Within document
  leads : ∀ w, Pointer.resolve? document site.path = some w → Leads w schema

/-- A node of the document whose path points, if anywhere, at the node itself. -/
structure Pointed (document schema : Json) (site : Site) : Prop where
  within : schema.Within document
  exact : ∀ w, Pointer.resolve? document site.path = some w → w = schema

namespace Pointed

variable {document schema : Json} {site : Site}

theorem addressed (h : Pointed document schema site) : Addressed document schema site where
  within := h.within
  leads := by
    intro w resolved
    rw [h.exact w resolved]
    exact .refl

theorem root (document : Json) : Pointed document document .root where
  within := .refl
  exact := by
    intro w resolved
    cases resolved
    rfl

theorem ofReference {reference : String} {target : Json}
    (resolved : Pointer.resolve? document reference = some target) :
    Pointed document target (.ofReference reference) where
  within := Pointer.resolve?_within resolved
  exact := by
    intro w again
    have same : some w = some target := again.symm.trans resolved
    cases same
    rfl

end Pointed

namespace Addressed

variable {document schema : Json} {site : Site} {u : Json} {key : String}

/-- The member of an `allOf` stands at the path of the whole. -/
theorem single {member : Json} {nullable : Bool} (h : Addressed document schema site)
    (shaped : classify schema = .ok ⟨.single member, nullable⟩) :
    Addressed document member site where
  within := (within_of_single shaped).trans h.within
  leads := fun w resolved => (h.leads w resolved).trans (.single shaped .refl)

/-- What a path one key below a node points at is the value of the key. -/
theorem step?_of_child (h : Addressed document schema site) (alone : SinglesAlone document)
    (part : PartKey key)
    (resolved : Pointer.resolve? document (site.path ++ "/" ++ key) = some u) :
    Pointer.step? schema key.toList = some u := by
  rw [Pointer.resolve?_child _ _ _ part.plain.1] at resolved
  obtain ⟨w, found, step⟩ := Option.bind_eq_some_iff.mp resolved
  have same := (h.leads w found).eq_of_step? alone (Pointer.resolve?_within found) part step
  rwa [same] at step

/-- What a path one key and one more segment below a node points at. -/
theorem step?_of_grandchild {segment : String} (h : Addressed document schema site)
    (alone : SinglesAlone document) (part : PartKey key) (plain : '/' ∉ segment.toList)
    (resolved : Pointer.resolve? document (site.path ++ "/" ++ (key ++ "/" ++ segment))
      = some u) :
    ∃ value, Pointer.step? schema key.toList = some value ∧
      Pointer.step? value segment.toList = some u := by
  have longer : site.path ++ "/" ++ (key ++ "/" ++ segment)
      = site.path ++ "/" ++ key ++ "/" ++ segment := by
    simp only [String.append_assoc]
  rw [longer, Pointer.resolve?_child _ _ _ plain] at resolved
  obtain ⟨value, found, step⟩ := Option.bind_eq_some_iff.mp resolved
  exact ⟨value, h.step?_of_child alone part found, step⟩

theorem items {item : Json} {nullable : Bool} {hint : Option String}
    (h : Addressed document schema site) (alone : SinglesAlone document)
    (shaped : classify schema = .ok ⟨.array (some item), nullable⟩) :
    Pointed document item (site.child "items" hint) := by
  refine ⟨(within_of_items shaped).trans h.within, ?_⟩
  obtain ⟨entries, rfl, read⟩ := classify_obj shaped nofun nofun
  intro w resolved
  have step := h.step?_of_child alone .items resolved
  rw [Pointer.step?_key PartKey.items.plain.2] at step
  have same : some w = some item := step.symm.trans read
  cases same
  rfl

end Addressed

namespace Walk

theorem mem_memberParts {keyword : UnionKeyword} {site : Site} {i : Nat} {alternatives : List Json}
    {part : Json × Site} (h : part ∈ memberParts keyword site i alternatives) :
    ∃ j, alternatives[j]? = some part.1 ∧
      part.2 = site.child s!"{keyword.text}/{i + j}" none := by
  induction alternatives generalizing i with
  | nil => cases h
  | cons member rest ih =>
      rcases List.mem_cons.mp h with rfl | h
      · exact ⟨0, rfl, rfl⟩
      · obtain ⟨j, found, there⟩ := ih h
        refine ⟨j + 1, found, ?_⟩
        have next : i + 1 + j = i + (j + 1) := by omega
        rwa [next] at there

end Walk

namespace Addressed

variable {document schema : Json} {site : Site}

theorem memberParts {keyword : UnionKeyword} {alternatives : List Json} {nullable : Bool}
    (h : Addressed document schema site) (alone : SinglesAlone document)
    (shaped : classify schema = .ok ⟨.union keyword alternatives, nullable⟩)
    {part : Json × Site} (mem : part ∈ Walk.memberParts keyword site 0 alternatives) :
    Pointed document part.1 part.2 := by
  obtain ⟨i, found, there⟩ := Walk.mem_memberParts mem
  refine ⟨(within_of_union shaped (List.mem_of_getElem? found)).trans h.within, ?_⟩
  obtain ⟨entries, rfl, read⟩ := classify_obj shaped nofun nofun
  rw [there, Nat.zero_add]
  intro w resolved
  obtain ⟨value, step, last⟩ := h.step?_of_grandchild alone (.alternatives keyword)
    (Pointer.slash_not_mem_toString i) resolved
  rw [Pointer.step?_key (PartKey.alternatives keyword).plain.2] at step
  have same : some value = some (.arr alternatives) := step.symm.trans read
  cases same
  rw [Pointer.step?_index, found] at last
  cases last
  rfl

theorem property {object properties : Entries Json} {nullable : Bool}
    (h : Addressed document schema site) (alone : SinglesAlone document)
    (distinct : DistinctKeys document)
    (shaped : classify schema = .ok ⟨.object object, nullable⟩)
    (found : Entries.get? "properties" object = some (.obj properties))
    {property : String × Json} (mem : property ∈ properties) :
    Pointed document property.2 (Walk.propertySite site property.1) := by
  refine ⟨(within_of_property shaped found mem).trans h.within, ?_⟩
  obtain ⟨entries, rfl, read⟩ := classify_obj shaped nofun nofun
  cases read
  have whole := (Json.within_of_get? found).trans h.within
  intro w resolved
  have resolved : Pointer.resolve? document
      (site.path ++ "/" ++ ("properties" ++ "/" ++ Pointer.escape property.1)) = some w :=
    resolved
  obtain ⟨value, step, last⟩ := h.step?_of_grandchild alone .properties
    (Pointer.slash_not_mem_escape property.1) resolved
  rw [Pointer.step?_key PartKey.properties.plain.2] at step
  have same : some value = some (.obj properties) := step.symm.trans found
  cases same
  rw [Pointer.step?_escape, Entries.get?_of_mem (distinct _ whole) mem] at last
  cases last
  rfl

end Addressed

theorem Pointed.definition {document schema : Json} {path : String}
    (distinct : DistinctKeys document) (mem : (path, schema) ∈ Pointer.definitions document) :
    Pointed document schema (.ofReference path) :=
  .ofReference (Pointer.resolve?_of_mem_definitions distinct mem)

end SchemaLoom
