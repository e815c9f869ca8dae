import SchemaLoom.Proofs.References.Forward

set_option autoImplicit false

/-! # References that are refused

A reference whose target is still being converted and is no object under construction is refused:
to follow it would never end. An object interrupts every circle, so one expects that no reference
to an object is ever refused, and this is so as long as the mark of the object stays
(`Call.Guarded`): the mark is set before anything below the object is visited, and only a
conversion at the very same path could take it off. Paths grow on the way down, so such a
conversion can come only from a reference that points above the object. The other exception is the
document itself, which is being resolved from the start but is under construction only when its
definitions are done.
-/

namespace SchemaLoom

/-! ## Paths above others -/

namespace Pointer

/-- The reference points to somewhere below the path. -/
def Above (path reference : String) : Prop := ∃ rest, reference = path ++ "/" ++ rest

/-- The reference points neither at the path nor to somewhere below it. -/
def Apart (path reference : String) : Prop := path ≠ reference ∧ ¬ Above path reference

theorem append_ne_self (path rest : String) : path ++ "/" ++ rest ≠ path := by
  intro same
  have length := congrArg String.length same
  have slash : "/".length = 1 := rfl
  simp only [String.length_append, slash] at length
  omega

theorem not_above_self (path : String) : ¬ Above path path := by
  rintro ⟨rest, same⟩
  exact append_ne_self path rest same.symm

/-- What is not below a path is apart from everything below the path. -/
theorem apart_child {path reference : String} (h : ¬ Above path reference) (segment : String) :
    Apart (path ++ "/" ++ segment) reference := by
  constructor
  · rintro rfl
    exact h ⟨segment, rfl⟩
  · rintro ⟨rest, rfl⟩
    exact h ⟨segment ++ "/" ++ rest, by simp only [String.append_assoc]⟩

theorem ne_root_of_mem_definitions {document schema : Json} {path : String}
    (h : (path, schema) ∈ definitions document) : path ≠ root := by
  obtain ⟨container, key, -, rfl, -, -⟩ := exists_of_mem_definitions h
  have longer := append_ne_self root (container ++ "/" ++ escape key)
  simp only [← String.append_assoc] at longer
  exact longer

end Pointer

open Pointer (Above Apart)

/-- No reference of the document points above the given one, except the one to the document. -/
def Topmost (document : Json) (reference : String) : Prop :=
  ∀ other ∈ document.references, other ≠ Pointer.root → ¬ Above other reference

/-- The schema is an object or stands for one. -/
def LeadsToObject (schema : Json) : Prop :=
  ∃ leaf object nullable, Leads schema leaf ∧ classify leaf = .ok ⟨.object object, nullable⟩

namespace LeadsToObject

variable {schema : Json} {nullable : Bool}

theorem single {member : Json} (h : LeadsToObject schema)
    (shaped : classify schema = .ok ⟨.single member, nullable⟩) : LeadsToObject member := by
  obtain ⟨leaf, object, optional, leads, own⟩ := h
  cases leads with
  | refl =>
      rw [shaped] at own
      cases own
  | single other rest =>
      rw [shaped] at other
      cases other
      exact ⟨leaf, object, optional, rest, own⟩

/-- A schema that stands for no other one is an object itself. -/
theorem direct {shape : Shape} (h : LeadsToObject schema)
    (shaped : classify schema = .ok ⟨shape, nullable⟩) (own : ∀ member, shape ≠ .single member) :
    ∃ object, shape = .object object := by
  obtain ⟨leaf, object, optional, leads, converts⟩ := h
  cases leads with
  | refl =>
      rw [shaped] at converts
      cases converts
      exact ⟨object, rfl⟩
  | single other =>
      rw [shaped] at other
      cases other
      exact absurd rfl (own _)

end LeadsToObject

/-! ## Calls that fail -/

/-- The call refuses a reference: it is being resolved, and no object is under construction
there. -/
structure Call.Refuses (document : Json) (reference : String) (call : Call) : Prop where
  shaped : ∃ nullable, classify call.schema = .ok ⟨.ref reference, nullable⟩
  resolved : ∃ target, Pointer.resolve? document reference = some target
  unmarked : Entries.get? reference call.start.building = none
  resolving : reference ∈ call.start.resolving

/-- The error of a call that refuses a reference. -/
def SchemaError.refusal (reference : String) : SchemaError := .unsupported reference .endlessCycle

/-- The call fails with an error of its own, by the kind of its node. -/
inductive Call.Fails (document : Json) (call : Call) : SchemaError → Prop where
  | fault {fault : ShapeFault} (shaped : classify call.schema = .error fault) :
      Fails document call (.unsupported call.site.path (.shape fault))
  | unresolved {reference : String} {nullable : Bool}
      (shaped : classify call.schema = .ok ⟨.ref reference, nullable⟩)
      (resolved : Pointer.resolve? document reference = none) :
      Fails document call (.unresolvedReference reference call.site.path)
  | refused {reference : String} (refuses : call.Refuses document reference) :
      Fails document call (.refusal reference)
  | const {value : Json} {nullable : Bool}
      (shaped : classify call.schema = .ok ⟨.const value, nullable⟩) :
      Fails document call (.unsupported call.site.path (.constNotScalar value))
  | enum {literals : List Json} {nullable : Bool} {owner : String} {e : SchemaError}
      (shaped : classify call.schema = .ok ⟨.enum literals, nullable⟩)
      (read : Walk.enumMembers owner call.site.path [] literals = .error e) :
      Fails document call e
  | object {object : Entries Json} {nullable : Bool} {owner : String} {e : SchemaError}
      (shaped : classify call.schema = .ok ⟨.object object, nullable⟩)
      (split : (Walk.objectSplit owner object call.site).2 = some e) : Fails document call e

section Refusals

variable {document : Json} {rootName reference : String} {call : Call}

theorem SchemaError.not_isOwn_refusal : ¬ (SchemaError.refusal reference).IsOwn := id

/-- **When the parts of a node are done, it fails with an error of its own.** -/
theorem Call.fails_of_finish {types : List DataType} {q : Progress} {e : SchemaError}
    (h : ((call.descent document rootName).finish types).run q = .error e) :
    call.Fails document e := by
  unfold Call.descent at h
  cases shaped : classify call.schema with
  | error fault =>
      rw [descent_of_fault shaped] at h
      cases h
      exact .fault shaped
  | ok classified =>
      obtain ⟨shape, nullable⟩ := classified
      rw [descent_of_shape shaped] at h
      rcases Walk.run_bind_eq_error.mp h with h | ⟨_, _, -, last⟩
      · cases shape with
        | ref other =>
            have answer := Descent.ofReference_case document other call.site call.start
            simp only [Descent.ofShape] at h
            generalize Descent.ofReference document other call.site call.start = d at h answer
            cases answer with
            | refused _ resolved building resolving =>
                cases h
                exact .refused ⟨⟨nullable, shaped⟩, ⟨_, resolved⟩, building, resolving⟩
            | unresolved _ resolved =>
                cases h
                exact .unresolved shaped resolved
            | known | forward | expand => cases h
        | const value =>
            have h := (Walk.run_ofConst (p := q) value call.site).symm.trans h
            split at h
            · cases h
            · cases h
              exact .const shaped
        | enum literals =>
            have h := (Walk.run_ofEnum (p := q) call.schema literals call.site).symm.trans h
            split at h
            · cases h
            · next read =>
                cases h
                exact .enum shaped read
        | object object =>
            rcases Walk.run_bind_eq_error.mp h with fields | ⟨_, _, -, close⟩
            · unfold Walk.fieldsOrFault at fields
              split at fields
              · next fault =>
                  cases fields
                  exact .object shaped fault
              · cases fields
            · cases close
        | array items? => cases items? <;> cases h
        | _ => cases h
      · cases last

/-- A circle is the own error of a call that refuses a reference. -/
theorem Call.Fails.refuses (h : call.Fails document (.refusal reference)) :
    call.Refuses document reference := by
  generalize failed : SchemaError.refusal reference = e at h
  cases h with
  | refused refuses =>
      cases failed
      exact refuses
  | fault | unresolved | const => cases failed
  | enum _ read =>
      subst failed
      exact (SchemaError.not_isOwn_refusal (Walk.enumMembers_isOwn read)).elim
  | object _ split =>
      subst failed
      exact (SchemaError.not_isOwn_refusal (Walk.objectSplit_isOwn split)).elim

/-- **An error is the own one of a call that is made, over others, by the call that fails with
it.** -/
theorem Call.fails_of_error {motive : Call → Prop} {e : SchemaError} (finished : e ≠ .unfinished)
    (step : ∀ {call part}, motive call → call.Makes document rootName part → motive part)
    (h : call.run document rootName = .error e) (own : motive call) :
    ∃ inner, motive inner ∧ inner.Fails document e := by
  obtain ⟨steps, schema, site, p⟩ := call
  unfold Call.run at h
  induction steps generalizing schema site p with
  | zero =>
      cases h
      exact absurd rfl finished
  | succ steps ih =>
      simp only [walk_succ_run] at h
      rcases Walk.run_bind_eq_error.mp h with parts | ⟨types, q, -, finish⟩
      · obtain ⟨before, part, after, types, q, split, chain, failed⟩ :=
          Walk.each_run_eq_error parts
        have makes : Call.Makes document rootName ⟨steps + 1, schema, site, p⟩
            ⟨steps, part.1, part.2, q⟩ :=
          ⟨rfl, before, after, types, split, chain.imp fun ran => ⟨steps, ran⟩⟩
        exact ih part.1 part.2 q failed (step own makes)
      · exact ⟨⟨steps + 1, schema, site, p⟩, own, Call.fails_of_finish finish⟩

/-- A circle is refused by a call that is made, over others, by the call that fails of it. -/
theorem Call.refuses_of_error {motive : Call → Prop}
    (step : ∀ {call part}, motive call → call.Makes document rootName part → motive part)
    (h : call.run document rootName = .error (.refusal reference)) (own : motive call) :
    ∃ inner, motive inner ∧ inner.Refuses document reference := by
  obtain ⟨inner, here, fails⟩ := Call.fails_of_error (e := .refusal reference) nofun step h own
  exact ⟨inner, here, fails.refuses⟩

theorem Call.resolves_of_refusal (h : call.run document rootName = .error (.refusal reference)) :
    ∃ target, Pointer.resolve? document reference = some target := by
  obtain ⟨inner, -, refuses⟩ :=
    Call.refuses_of_error (motive := fun _ => True) (fun _ _ => trivial) h trivial
  exact refuses.resolved

end Refusals

/-! ## Marks that stay -/

/-- A node of the document at a path that the reference points neither at nor to somewhere
below. -/
structure Clear (document : Json) (reference : String) (schema : Json) (site : Site) : Prop where
  within : schema.Within document
  apart : Apart site.path reference

namespace Clear

variable {document schema : Json} {reference : String} {site : Site} {nullable : Bool}

theorem items {item : Json} {hint : Option String} (within : schema.Within document)
    (below : ¬ Above site.path reference)
    (shaped : classify schema = .ok ⟨.array (some item), nullable⟩) :
    Clear document reference item (site.child "items" hint) where
  within := (within_of_items shaped).trans within
  apart := Pointer.apart_child below _

theorem member {keyword : UnionKeyword} {alternatives : List Json} {part : Json × Site}
    (within : schema.Within document) (below : ¬ Above site.path reference)
    (shaped : classify schema = .ok ⟨.union keyword alternatives, nullable⟩)
    (mem : part ∈ Walk.memberParts keyword site 0 alternatives) :
    Clear document reference part.1 part.2 := by
  obtain ⟨i, found, there⟩ := Walk.mem_memberParts mem
  refine ⟨(within_of_union shaped (List.mem_of_getElem? found)).trans within, ?_⟩
  rw [there]
  exact Pointer.apart_child below _

theorem property {object properties : Entries Json} {part : Json × Site}
    (within : schema.Within document) (below : ¬ Above site.path reference)
    (shaped : classify schema = .ok ⟨.object object, nullable⟩)
    (found : Entries.get? "properties" object = some (.obj properties))
    (mem : part ∈ properties.map (Walk.fieldPart site)) :
    Clear document reference part.1 part.2 := by
  obtain ⟨property, own, rfl⟩ := List.mem_map.mp mem
  exact ⟨(within_of_property shaped found own).trans within, Pointer.apart_child below _⟩

/-- The target of another reference, if none points above the given one. -/
theorem target {other : String} {target : Json} {p : Progress} (top : Topmost document reference)
    (within : schema.Within document) (root : Pointer.root ∈ p.resolving)
    (shaped : classify schema = .ok ⟨.ref other, nullable⟩)
    (resolved : Pointer.resolve? document other = some target) (fresh : other ∉ p.resolving)
    (differ : other ≠ reference) : Clear document reference target (.ofReference other) where
  within := Pointer.resolve?_within resolved
  apart := by
    refine ⟨differ, top other (within.references_subset (mem_references_of_ref shaped)) ?_⟩
    rintro rfl
    exact fresh root

end Clear

section Marks

variable {document : Json} {rootName reference : String}

/-- The document and the reference are being resolved. -/
def Progress.Holds (p : Progress) (reference : String) : Prop :=
  Pointer.root ∈ p.resolving ∧ reference ∈ p.resolving

theorem Progress.Holds.congr {p q : Progress} (h : p.Holds reference)
    (same : q.resolving = p.resolving) : q.Holds reference := by
  unfold Holds
  rwa [same]

/-- Parts that keep a mark keep it together. -/
theorem Chain.keeps_mark {parts : List (Json × Site)} {p q : Progress} {types : List DataType}
    (chain : Chain (fun schema site p type q => Walked document rootName schema site p type q ∧
      (p.Holds reference → Clear document reference schema site →
        Entries.get? reference q.building = Entries.get? reference p.building)) parts p types q)
    (holds : p.Holds reference)
    (clear : ∀ part ∈ parts, Clear document reference part.1 part.2) :
    Entries.get? reference q.building = Entries.get? reference p.building := by
  refine (chain.with_mem.invariant (fun r => r.Holds reference ∧
    Entries.get? reference r.building = Entries.get? reference p.building) ?_ ⟨holds, rfl⟩).2
  rintro schema site r type s ⟨⟨walked, mark⟩, mem⟩ ⟨holds, same⟩
  exact ⟨holds.congr walked.keeps.resolving, (mark holds (clear _ mem)).trans same⟩

/-- **A walk away from a reference that is being resolved does not touch the mark that is set
there**, unless references point above it. -/
theorem Walked.keeps_mark (top : Topmost document reference) {schema : Json} {site : Site}
    {p q : Progress} {type : DataType} (h : Walked document rootName schema site p type q)
    (holds : p.Holds reference) (clear : Clear document reference schema site) :
    Entries.get? reference q.building = Entries.get? reference p.building := by
  refine Walked.induct (motive := fun schema site p _ q => p.Holds reference →
    Clear document reference schema site →
      Entries.get? reference q.building = Entries.get? reference p.building) ?_ h holds clear
  intro schema site p type q rule holds clear
  have below : ¬ Above site.path reference := clear.apart.2
  have apart : reference ≠ site.path := clear.apart.1.symm
  cases rule with
  | plain => rfl
  | const => rw [Walk.building_afterConst]
  | enum => rw [Walk.building_afterEnum]
  | known => rfl
  | forward => rfl
  | @expand other _ _ _ _ shaped _ resolved _ fresh part =>
      have differ : other ≠ reference := by
        rintro rfl
        exact fresh holds.2
      exact part.2 ⟨p.mem_startResolving.mpr (Or.inr holds.1),
        p.mem_startResolving.mpr (Or.inr holds.2)⟩
        (.target top clear.within holds.1 shaped resolved fresh differ)
  | single shaped part =>
      exact part.2 holds ⟨(within_of_single shaped).trans clear.within, clear.apart⟩
  | union shaped parts =>
      exact parts.keeps_mark holds fun part mem => .member clear.within below shaped mem
  | @object object _ name properties _ q shaped named split parts =>
      subst named
      have fields : Entries.get? reference q.building
          = Entries.get? reference (p.opened rootName object site).building := by
        refine parts.keeps_mark (holds.congr (Progress.resolving_opened ..)) ?_
        intro part mem
        obtain ⟨property, own, rfl⟩ := List.mem_map.mp mem
        have among : property ∈ (Walk.objectSplit (p.className rootName object site).identifier
            object site).1 := by rwa [split]
        obtain ⟨_, found, le⟩ := Walk.objectSplit_subset among
        exact .property clear.within below shaped found (List.mem_map_of_mem (le among))
      rw [Progress.building_closed, Entries.get?_erase_of_ne apart, fields,
        Progress.building_opened, Entries.get?_insert_of_ne apart]
  | items shaped part => exact part.2 holds (.items clear.within below shaped)

theorem Visited.keeps_mark (top : Topmost document reference) {parts : List (Json × Site)}
    {p q : Progress} (h : Visited document rootName parts p q) (holds : p.Holds reference)
    (clear : ∀ part ∈ parts, Clear document reference part.1 part.2) :
    Entries.get? reference q.building = Entries.get? reference p.building := by
  obtain ⟨before, types, some, chain⟩ := h
  have kept := chain.imp fun walked => (And.intro walked fun holds clear =>
    walked.keeps_mark top holds clear)
  exact kept.keeps_mark holds fun part mem => clear part (some mem)

end Marks

/-! ## Objects are not refused -/

/-- While the reference is being resolved, its object is about to be converted by the call, or is
under construction and the call is elsewhere. -/
structure Call.Guarded (document : Json) (reference : String) (call : Call) : Prop where
  within : call.schema.Within document
  root : Pointer.root ∈ call.start.resolving
  guard : reference ∈ call.start.resolving →
    (call.site.path = reference ∧ LeadsToObject call.schema) ∨
      (Entries.get? reference call.start.building ≠ none ∧ Apart call.site.path reference)

namespace Call.Guarded

variable {document : Json} {rootName reference : String} {call part : Call}

/-- A guarded call refuses nothing. -/
theorem not_refuses (h : call.Guarded document reference) :
    ¬ call.Refuses document reference := by
  intro refuses
  obtain ⟨nullable, shaped⟩ := refuses.shaped
  rcases h.guard refuses.resolving with ⟨-, leads⟩ | ⟨marked, -⟩
  · obtain ⟨object, other⟩ := leads.direct shaped nofun
    cases other
  · exact marked refuses.unmarked

/-- Where the call is no object and stands for none, the mark has been set. -/
theorem marked {shape : Shape} {nullable : Bool} (h : call.Guarded document reference)
    (resolving : reference ∈ call.start.resolving)
    (shaped : classify call.schema = .ok ⟨shape, nullable⟩) (own : ∀ member, shape ≠ .single member)
    (other : ∀ object, shape ≠ .object object) :
    Entries.get? reference call.start.building ≠ none ∧ Apart call.site.path reference := by
  rcases h.guard resolving with ⟨-, leads⟩ | marked
  · obtain ⟨object, same⟩ := leads.direct shaped own
    exact absurd same (other object)
  · exact marked

/-- Nothing of an object that is opened is at the reference or above it, and the mark is set. -/
theorem opened (h : call.Guarded document reference)
    (resolving : reference ∈ call.start.resolving) (rootName : String) (object : Entries Json) :
    ¬ Above call.site.path reference ∧
      Entries.get? reference (call.start.opened rootName object call.site).building ≠ none := by
  rw [Progress.building_opened]
  rcases h.guard resolving with ⟨here, -⟩ | ⟨marked, apart⟩
  · rw [here, Entries.get?_insert_self]
    exact ⟨Pointer.not_above_self reference, nofun⟩
  · rw [Entries.get?_insert_of_ne apart.1.symm]
    exact ⟨apart.2, marked⟩

/-- A call of a reference that leads to an object hands its guard on. -/
theorem step (top : Topmost document reference)
    (object : ∀ target, Pointer.resolve? document reference = some target → LeadsToObject target)
    (h : call.Guarded document reference) (makes : call.Makes document rootName part) :
    part.Guarded document reference := by
  have hands := makes.hands
  cases part with
  | mk steps schema site start =>
      cases hands with
      | @target other _ _ shaped resolved _ fresh =>
          refine ⟨Pointer.resolve?_within resolved, ?_, ?_⟩
          · exact call.start.mem_startResolving.mpr (Or.inr h.root)
          · intro resolving
            by_cases same : other = reference
            -- The reference itself is expanded: its object comes next, nothing is marked yet.
            · subst same
              exact Or.inl ⟨rfl, object _ resolved⟩
            · have before := (call.start.mem_startResolving.mp resolving).resolve_left (Ne.symm same)
              have marked := h.marked before shaped nofun nofun
              exact Or.inr ⟨marked.1,
                (Clear.target top h.within h.root shaped resolved fresh same).apart⟩
      | single shaped =>
          refine ⟨(within_of_single shaped).trans h.within, h.root, fun resolving => ?_⟩
          rcases h.guard resolving with ⟨here, leads⟩ | marked
          · exact Or.inl ⟨here, leads.single shaped⟩
          · exact Or.inr marked
      | @member _ _ _ part q shaped mem before =>
          have kept := before.keeps.resolving
          obtain ⟨i, found, -⟩ := Walk.mem_memberParts mem
          refine ⟨(within_of_union shaped (List.mem_of_getElem? found)).trans h.within,
            kept ▸ h.root, fun resolving => ?_⟩
          rw [kept] at resolving
          obtain ⟨marked, apart⟩ := h.marked resolving shaped nofun nofun
          have clear (part) (mem : part ∈ Walk.memberParts _ call.site 0 _) :
              Clear document reference part.1 part.2 := .member h.within apart.2 shaped mem
          have same := before.keeps_mark top ⟨h.root, resolving⟩ clear
          exact Or.inr ⟨same ▸ marked, (clear part mem).apart⟩
      | @property object properties _ property q shaped found mem before =>
          -- The object has been opened, and the properties before this one kept the mark.
          have kept := before.keeps.resolving.trans (Progress.resolving_opened ..)
          refine ⟨(within_of_property shaped found mem).trans h.within, kept ▸ h.root,
            fun resolving => ?_⟩
          rw [kept] at resolving
          obtain ⟨below, marked⟩ := h.opened resolving rootName object
          have clear (part) (mem : part ∈ properties.map (Walk.fieldPart call.site)) :
              Clear document reference part.1 part.2 := .property h.within below shaped found mem
          have holds : (call.start.opened rootName object call.site).Holds reference :=
            Progress.Holds.congr ⟨h.root, resolving⟩ (Progress.resolving_opened ..)
          have same := before.keeps_mark top holds clear
          exact Or.inr ⟨same ▸ marked, (clear _ (List.mem_map_of_mem mem)).apart⟩
      | items shaped =>
          refine ⟨(within_of_items shaped).trans h.within, h.root, fun resolving => ?_⟩
          obtain ⟨marked, apart⟩ := h.marked resolving shaped nofun nofun
          exact Or.inr ⟨marked, Pointer.apart_child apart.2 _⟩

/-- A guarded call fails of a circle through the reference only if some other reference points
above it. -/
theorem above_of_refusal (h : call.Guarded document reference) {target : Json}
    (resolved : Pointer.resolve? document reference = some target) (leads : LeadsToObject target)
    (failed : call.run document rootName = .error (.refusal reference)) :
    ∃ other ∈ document.references, other ≠ Pointer.root ∧ Above other reference := by
  by_contra none
  have top : Topmost document reference :=
    fun other mem plain above => none ⟨other, mem, plain, above⟩
  have object (again) (same : Pointer.resolve? document reference = some again) :
      LeadsToObject again := by
    cases resolved.symm.trans same
    exact leads
  obtain ⟨inner, guarded, refuses⟩ :=
    Call.refuses_of_error (fun h makes => h.step top object makes) failed h
  exact guarded.not_refuses refuses

end Call.Guarded

section Conversions

variable {document : Json} {rootName reference : String}

/-- Between two definitions nothing but the document is being resolved. -/
theorem DefinitionsWalked.resolving_eq_root {before after : List (String × Json)} {p : Progress}
    (h : DefinitionsWalked document rootName before .initial p)
    (split : before ++ after = Pointer.definitions document) : p.resolving = [Pointer.root] := by
  refine h.resolving_eq fun definition mem resolving => ?_
  have among : definition ∈ Pointer.definitions document := split ▸ List.mem_append_left _ mem
  exact Pointer.ne_root_of_mem_definitions among (List.mem_singleton.mp resolving)

/-- The call for a definition is guarded against every reference but the one to the document. -/
theorem Call.Guarded.definition (distinct : DistinctKeys document) (steps : Nat) {path : String}
    {schema : Json} {p : Progress} (resolving : p.resolving = [Pointer.root])
    (mem : (path, schema) ∈ Pointer.definitions document) (other : reference ≠ Pointer.root)
    {target : Json} (resolved : Pointer.resolve? document reference = some target)
    (leads : LeadsToObject target) :
    Call.Guarded document reference ⟨steps, schema, .ofReference path, p.startResolving path⟩ where
  within := Pointer.definitions_within mem
  root := by
    refine p.mem_startResolving.mpr (Or.inr ?_)
    rw [resolving]
    exact List.mem_cons_self
  guard := by
    intro start
    rcases p.mem_startResolving.mp start with rfl | before
    · have same := (Pointed.definition distinct mem).exact target resolved
      exact Or.inl ⟨rfl, same ▸ leads⟩
    · rw [resolving] at before
      exact absurd (List.mem_singleton.mp before) other

/-- The call for the document is guarded against every reference. -/
theorem Call.Guarded.whole (steps : Nat) {p : Progress} (resolving : p.resolving = [Pointer.root])
    {target : Json} (resolved : Pointer.resolve? document reference = some target)
    (leads : LeadsToObject target) :
    Call.Guarded document reference ⟨steps, document, .root, p⟩ where
  within := .refl
  root := by
    rw [resolving]
    exact List.mem_cons_self
  guard := by
    intro start
    rw [resolving] at start
    cases List.mem_singleton.mp start
    cases resolved
    exact Or.inl ⟨rfl, leads⟩

/-- **A conversion that fails of a circle fails of a reference whose target is no object**, with two
exceptions: a definition has referred to the document, which is an object, or some other reference
points to somewhere above the reference that is refused. -/
theorem convert_refuses_object (distinct : DistinctKeys document)
    (h : convert document rootName = .error (.unsupported reference .endlessCycle)) :
    ∃ target, Pointer.resolve? document reference = some target ∧
      (LeadsToObject target →
        (reference = Pointer.root ∧
          (walkDefinitions (walk document (Identifier.pascal rootName) (walkBound document))
            (Pointer.definitions document)).run .initial
              = .error (.unsupported reference .endlessCycle)) ∨
        ∃ other ∈ document.references, other ≠ Pointer.root ∧ Pointer.Above other reference) := by
  rcases convert_eq_error h with definitions | ⟨p, walked, failed⟩
  · obtain ⟨before, path, schema, after, p, split, walked, failed⟩ :=
      walkDefinitions_eq_error definitions
    have failed : Call.run document (Identifier.pascal rootName) ⟨walkBound document, schema,
        .ofReference path, p.startResolving path⟩ = .error (.refusal reference) := failed
    obtain ⟨target, resolved⟩ := Call.resolves_of_refusal failed
    refine ⟨target, resolved, fun leads => ?_⟩
    by_cases root : reference = Pointer.root
    · exact Or.inl ⟨root, definitions⟩
    · have mem : (path, schema) ∈ Pointer.definitions document := by
        rw [split]
        exact List.mem_append_right _ List.mem_cons_self
      have guarded := Call.Guarded.definition distinct (walkBound document)
        (walked.resolving_eq_root split.symm) mem root resolved leads
      exact Or.inr (guarded.above_of_refusal resolved leads failed)
  · have failed : Call.run document (Identifier.pascal rootName) ⟨walkBound document, document,
        .root, p⟩ = .error (.refusal reference) := failed
    obtain ⟨target, resolved⟩ := Call.resolves_of_refusal failed
    refine ⟨target, resolved, fun leads => Or.inr ?_⟩
    have guarded := Call.Guarded.whole (walkBound document)
      (walked.resolving_eq_root (List.append_nil _)) resolved leads
    exact guarded.above_of_refusal resolved leads failed

end Conversions

/-- The reference that a conversion fails of. -/
def refused? (document : Json) (rootName : String) : Option String :=
  match convert document rootName with
  | .error (.unsupported reference .endlessCycle) => some reference
  | _ => none

theorem convert_of_refused? {document : Json} {rootName reference : String}
    (h : refused? document rootName = some reference) :
    convert document rootName = .error (.unsupported reference .endlessCycle) := by
  unfold refused? at h
  split at h
  · next failed =>
      cases h
      exact failed
  · cases h

/-- Lists of lists of lists, and so on. -/
def endlessList : Json :=
  .obj [("$defs", .obj [("List", .obj [("items", .obj [("$ref", .str "#/$defs/List")])])])]

/-- What a list is made of is no object. -/
theorem convert_refuses_object_endlessList : ∃ target,
    Pointer.resolve? endlessList "#/$defs/List" = some target ∧ ¬ LeadsToObject target := by
  have failed : convert endlessList "Lists" = .error (.unsupported "#/$defs/List" .endlessCycle) :=
    convert_of_refused? (by decide +kernel)
  obtain ⟨target, resolved, exceptions⟩ :=
    convert_refuses_object (.of_everywhere (by decide +kernel)) failed
  refine ⟨target, resolved, fun leads => ?_⟩
  rcases exceptions leads with ⟨root, -⟩ | ⟨other, mem, -, above⟩
  · exact absurd root (by decide)
  · have only : other = "#/$defs/List" := List.mem_singleton.mp mem
    exact Pointer.not_above_self _ (only ▸ above)

/-- An object whose item, a definition, refers back to it. -/
def ownedItem : Json :=
  .obj [("type", .str "object"),
    ("properties", .obj [("item", .obj [("$ref", .str "#/$defs/Item")])]),
    ("$defs", .obj [("Item", .obj [("type", .str "object"),
      ("properties", .obj [("owner", .obj [("$ref", .str "#")])])])])]

/-- The document is an object, and a reference to it from a definition is refused: the definition is
converted before the document is under construction. -/
theorem convert_refuses_object_ownedItem :
    convert ownedItem "Owner" = .error (.unsupported "#" .endlessCycle) ∧
      Pointer.resolve? ownedItem "#" = some ownedItem ∧ LeadsToObject ownedItem :=
  ⟨convert_of_refused? (by decide +kernel), rfl, ownedItem, _, false, .refl, rfl⟩

/-- An object inside a definition that refers to itself and to the definition. -/
def innerObject : Json :=
  .obj [("properties", .obj [("x", .obj [("$ref", .str "#/$defs/Q/properties/p")])]),
    ("$defs", .obj [("Q", .obj [("properties", .obj [("p", .obj [("properties",
      .obj [("q", .obj [("$ref", .str "#/$defs/Q")]),
        ("me", .obj [("$ref", .str "#/$defs/Q/properties/p")])])])])])])]

-- The definition, which is above the object, is converted inside it and takes the mark off.
example : refused? innerObject "Owner" = some "#/$defs/Q/properties/p" := by decide +kernel

end SchemaLoom
