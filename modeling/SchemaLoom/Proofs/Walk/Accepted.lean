import SchemaLoom.Proofs.Schema.Legible
import SchemaLoom.Proofs.Walk.Finishes

set_option autoImplicit false

/-! # What is accepted

A document without references is converted if every node that is reached can be: it has a shape, and
the contents of the shape are accepted (`Acceptable`). What is reached depends on the shapes alone,
so the question is settled without a walk. One direction follows the walk of each reached node; the
other one says that a node fails only where one of its parts does, down to the bound of the walk,
which is never reached.
-/

namespace SchemaLoom

/-- The schemas that a shape leads on to within its own schema. -/
def Shape.parts : Shape → List Json
  | .single member => [member]
  | .union _ members => members
  | .object own => (declared own).map Prod.snd
  | .array (some item) => [item]
  | _ => []

/-- The nodes of a document that a conversion comes to, as far as no references are followed. -/
inductive Reached (document : Json) : Json → Prop where
  | root : Reached document document
  | definition {path : String} {schema : Json}
      (mem : (path, schema) ∈ Pointer.definitions document) : Reached document schema
  | part {schema part : Json} {shape : Shape} {nullable : Bool} (reached : Reached document schema)
      (shaped : classify schema = .ok ⟨shape, nullable⟩) (mem : part ∈ shape.parts) :
      Reached document part

/-- A node has a shape, and the contents of the shape are accepted. -/
def Acceptable (schema : Json) : Prop :=
  ∃ shape nullable, classify schema = .ok ⟨shape, nullable⟩ ∧ shape.Accepted

/-- No node that is reached has a reference. -/
def ReferenceFree (document : Json) : Prop :=
  ∀ schema, Reached document schema → schema.get? "$ref" = none

/-- Every node that is reached stands in the document. -/
theorem Reached.within {document schema : Json} (h : Reached document schema) :
    schema.Within document := by
  induction h with
  | root => exact .refl
  | definition mem => exact Pointer.definitions_within mem
  | @part schema part shape nullable _ shaped mem ih =>
      refine Json.Within.trans ?_ ih
      cases shape with
      | single member =>
          cases List.mem_singleton.mp mem
          exact within_of_single shaped
      | union keyword members => exact within_of_union shaped mem
      | object own =>
          obtain ⟨property, there, rfl⟩ := List.mem_map.mp mem
          exact within_of_property shaped (get?_properties_of_mem_declared there) there
      | array items? =>
          cases items? with
          | none => cases mem
          | some item =>
              cases List.mem_singleton.mp mem
              exact within_of_items shaped
      | never | any | null | ref | const | enum | scalar | scalarUnion => cases mem

/-! ## What has been walked was acceptable -/

section Walks

variable {document : Json} {rootName : String} {schema : Json} {site : Site} {p q : Progress}
  {type : DataType}

theorem Walked.acceptable (h : Walked document rootName schema site p type q) :
    Acceptable schema := by
  cases h.step with
  | @plain shape _ _ shaped typed =>
      refine ⟨_, _, shaped, ?_⟩
      cases shape with
      | const | enum | object => cases typed
      | never | any | null | ref | single | union | array | scalar | scalarUnion => trivial
  | const shaped typed =>
      refine ⟨_, _, shaped, ?_⟩
      show Json.isPlain _ = true
      rw [← Walk.constType?_isSome, typed]
      rfl
  | enum shaped _ read => exact ⟨_, _, shaped, ((Walk.enumMembers_eq_ok_iff ..).mp ⟨_, read⟩).1⟩
  | object shaped _ split =>
      exact ⟨_, _, shaped, (Walk.objectSplit_complete_iff ..).mp (congrArg Prod.snd split)⟩
  | known shaped | forward shaped | expand shaped | single shaped | union shaped | items shaped =>
      exact ⟨_, _, shaped, trivial⟩

/-- The parts of a walked node have been walked. -/
theorem Walked.part (h : Walked document rootName schema site p type q) {shape : Shape}
    {nullable : Bool} (shaped : classify schema = .ok ⟨shape, nullable⟩) {part : Json}
    (mem : part ∈ shape.parts) :
    ∃ site p type q, Walked document rootName part site p type q := by
  obtain ⟨core, -, outcome⟩ := h.step.outcome shaped
  cases shape with
  | single member =>
      cases List.mem_singleton.mp mem
      exact ⟨_, _, _, _, outcome⟩
  | union keyword members =>
      obtain ⟨types, chain, -⟩ := outcome
      have among : part ∈ (Walk.memberParts keyword site 0 members).map Prod.fst := by
        rwa [Walk.map_fst_memberParts]
      obtain ⟨visited, there, rfl⟩ := List.mem_map.mp among
      exact ⟨_, chain.exists_of_mem there⟩
  | object own =>
      obtain ⟨properties, types, r, split, chain, -⟩ := outcome
      rw [Walk.objectSplit_eq_declared split] at chain
      obtain ⟨property, there, rfl⟩ := List.mem_map.mp mem
      exact ⟨_, chain.exists_of_mem (List.mem_map_of_mem (f := Walk.fieldPart site) there)⟩
  | array items? =>
      cases items? with
      | none => cases mem
      | some item =>
          cases List.mem_singleton.mp mem
          obtain ⟨itemType, walked, -⟩ := outcome
          exact ⟨_, _, _, _, walked⟩
  | never | any | null | ref | const | enum | scalar | scalarUnion => cases mem

end Walks

/-- Every node that is reached has been walked. -/
theorem Reached.walked {document schema : Json} {rootName : String} {c : Conversion}
    (h : convert document rootName = .ok c) (reached : Reached document schema) :
    ∃ site p type q, Walked document (Identifier.pascal rootName) schema site p type q := by
  obtain ⟨p, q, definitions, root, -⟩ := convert_ok h
  induction reached with
  | root => exact ⟨_, _, _, _, root⟩
  | definition mem => exact ⟨_, definitions.exists_of_mem mem⟩
  | part _ shaped mem ih =>
      obtain ⟨site, p, type, q, walked⟩ := ih
      exact walked.part shaped mem

/-! ## What is acceptable does not fail -/

namespace Descent

variable {document : Json} {rootName : String} {schema : Json} {site : Site} {p : Progress}
  {shape : Shape}

/-- The parts that a node visits are those of its shape, unless it is a reference. -/
theorem mem_parts_of_ofShape (plain : ∀ reference, shape ≠ .ref reference) {part : Json × Site}
    (mem : part ∈ (ofShape document rootName schema site p shape).parts) : part.1 ∈ shape.parts := by
  cases shape with
  | ref reference => exact absurd rfl (plain reference)
  | union keyword members =>
      have among := List.mem_map_of_mem (f := Prod.fst) mem
      rwa [show (ofShape document rootName schema site p (.union keyword members)).parts
        = Walk.memberParts keyword site 0 members from rfl, Walk.map_fst_memberParts] at among
  | object own =>
      obtain ⟨property, there, rfl⟩ := List.mem_map.mp mem
      exact List.mem_map_of_mem (f := Prod.snd) ((Walk.objectSplit_sublist ..).subset there)
  | single member =>
      cases List.mem_singleton.mp mem
      exact List.mem_cons_self
  | array items? =>
      cases items? with
      | none => cases mem
      | some item =>
          cases List.mem_singleton.mp mem
          exact List.mem_cons_self
  | never | any | null | const | enum | scalar | scalarUnion => cases mem

/-- A node whose contents are accepted makes its type of those of its parts. -/
theorem finish_ne_error (plain : ∀ reference, shape ≠ .ref reference) (accepted : shape.Accepted)
    (types : List DataType) (r : Progress) (e : SchemaError) :
    ((ofShape document rootName schema site p shape).finish types).run r ≠ .error e := by
  intro failed
  cases shape with
  | ref reference => exact plain reference rfl
  | const value =>
      have failed := (Walk.run_ofConst (p := r) value site).symm.trans failed
      have typed := Walk.constType?_isSome value
      rw [show value.isPlain = true from accepted, Option.isSome_iff_exists] at typed
      obtain ⟨type, typed⟩ := typed
      rw [typed] at failed
      cases failed
  | enum literals =>
      have failed := (Walk.run_ofEnum (p := r) schema literals site).symm.trans failed
      obtain ⟨out, read⟩ := (Walk.enumMembers_eq_ok_iff (Walk.enumNameOf r schema).identifier
        site.path [] literals).mpr ⟨accepted, Walk.fitsTable_nil literals⟩
      rw [read] at failed
      cases failed
  | object own =>
      have complete := (Walk.objectSplit_complete_iff (p.className rootName own site).identifier
        own site).mpr accepted
      rcases Walk.run_bind_eq_error.mp failed with fields | ⟨_, _, -, closed⟩
      · unfold Walk.fieldsOrFault at fields
        rw [complete] at fields
        cases fields
      · cases closed
  | array items? => cases items? <;> cases failed
  | never | any | null | single | union | scalar | scalarUnion => cases failed

end Descent

/-- A node with a shape that has no key for references is none. -/
theorem shape_ne_ref {schema : Json} {shape : Shape} {nullable : Bool}
    (shaped : classify schema = .ok ⟨shape, nullable⟩) (free : schema.get? "$ref" = none)
    (reference : String) : shape ≠ .ref reference := by
  rintro rfl
  obtain ⟨entries, rfl, read⟩ := classify_obj shaped nofun nofun
  have found : Entries.get? "$ref" entries = none := free
  rw [show Entries.get? "$ref" entries = some (.str reference) from read] at found
  cases found

/-- A walk among acceptable nodes can only be cut off. -/
theorem walk_eq_error_of_acceptable {document : Json} {rootName : String}
    (free : ReferenceFree document)
    (accepted : ∀ schema, Reached document schema → Acceptable schema) {steps : Nat}
    {schema : Json} (reached : Reached document schema) {site : Site} {p : Progress}
    {e : SchemaError} (failed : (walk document rootName steps schema site).run p = .error e) :
    e = .unfinished := by
  induction steps generalizing schema site p with
  | zero =>
      cases failed
      rfl
  | succ steps ih =>
      obtain ⟨shape, nullable, shaped, contents⟩ := accepted schema reached
      have plain := shape_ne_ref shaped (free schema reached)
      rw [walk_succ_run, descent_of_shape shaped] at failed
      have failed := Descent.run_withOptional_eq_error failed
      rcases Walk.run_bind_eq_error.mp failed with parts | ⟨types, r, -, last⟩
      · obtain ⟨before, part, after, types, r, split, -, failed⟩ := Walk.each_run_eq_error parts
        have mem : part ∈ (Descent.ofShape document rootName schema site p shape).parts := by
          rw [split]
          exact List.mem_append_right _ List.mem_cons_self
        exact ih (reached.part shaped (Descent.mem_parts_of_ofShape plain mem)) failed
      · exact absurd last (Descent.finish_ne_error plain contents types r e)

theorem convert_eq_ok_of_acceptable {document : Json} (rootName : String)
    (free : ReferenceFree document)
    (accepted : ∀ schema, Reached document schema → Acceptable schema) :
    ∃ c, convert document rootName = .ok c := by
  cases converted : convert document rootName with
  | ok c => exact ⟨c, rfl⟩
  | error e =>
      have cut : e = .unfinished := by
        rcases exists_walk_eq_error converted with ⟨path, schema, p, mem, failed⟩ | ⟨p, root⟩
        · exact walk_eq_error_of_acceptable free accepted (.definition mem) failed
        · exact walk_eq_error_of_acceptable free accepted .root root
      rw [cut] at converted
      exact absurd converted (convert_ne_unfinished document rootName)

/-- **A document without references is converted if and only if every node that is reached is
acceptable**; nothing else in the document matters. -/
theorem convert_isOk_iff_acceptable {document : Json} (rootName : String)
    (free : ReferenceFree document) :
    (∃ c, convert document rootName = .ok c) ↔
      ∀ schema, Reached document schema → Acceptable schema := by
  constructor
  · rintro ⟨c, converted⟩ schema reached
    obtain ⟨site, p, type, q, walked⟩ := reached.walked converted
    exact walked.acceptable
  · exact convert_eq_ok_of_acceptable rootName free

/-- A document without the key of references has no reference. -/
theorem ReferenceFree.of_everywhere {document : Json}
    (h : document.everywhere (fun j => (j.get? "$ref").isNone) = true) :
    ReferenceFree document :=
  fun _ reached => Option.isNone_iff_eq_none.mp (reached.within.passes h)

/-- A form with much that is malformed and never looked at: alternatives beside a type, literals of
an integer, properties beside a constant, definitions that are none. -/
def carelessForm : Json :=
  .obj [("title", .num (.int 5)), ("type", .str "object"), ("anyOf", .num (.int 5)),
    ("properties", .obj [
      ("page no", .obj [("type", .str "integer"), ("enum", .arr [.arr []])]),
      ("kind", .obj [("const", .str "form"), ("properties", .bool true)]),
      ("tags", .obj [("items", .obj [("enum", .arr [.str "new", .null, .str "new"])])])]),
    ("$defs", .obj [("note", .obj [("type", .arr [.str "string", .str "null"]),
      ("enum", .arr [.str "---"])])]),
    ("definitions", .arr [])]

theorem convert_isOk_iff_acceptable_carelessForm : ReferenceFree carelessForm ∧
    (∃ c, convert carelessForm "Form" = .ok c) ∧
      ∀ schema, Reached carelessForm schema → Acceptable schema := by
  have free : ReferenceFree carelessForm := .of_everywhere (by decide +kernel)
  have made : (convert carelessForm "Form").toOption.map (·.models.length) = some 2 := by
    decide +kernel
  obtain ⟨c, converted, -⟩ := exists_of_toOption made
  exact ⟨free, ⟨c, converted⟩, (convert_isOk_iff_acceptable "Form" free).mp ⟨c, converted⟩⟩

end SchemaLoom
