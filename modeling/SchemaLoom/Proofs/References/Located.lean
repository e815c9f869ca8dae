import SchemaLoom.Proofs.References.Refused

set_option autoImplicit false

/-! # Where warnings and errors are

Some warnings and errors of a conversion give the path of a node. One expects the path to point at
the node, and it does unless it goes on below a schema that stands for the only member of its
`allOf`: the member keeps the path of the whole, so below it a path leaves the two segments that
lead to the member out. Such a path is to be read as it was written, with the member in the place of
the whole (`Follows`). Read so, it leads to the node wherever it goes.

A conversion writes a path part by part, with the keys that lead to parts, so it is enough that every
call is made at the path of its node, and this a call hands on to the calls it makes
(`Call.OnPath.step`).
-/

namespace SchemaLoom

open Pointer (Above)

/-! ## Following a path -/

/-- The path leads to the node, if on the way the only member of an `allOf` may stand in for the
schema that has it. -/
inductive Follows (document : Json) : String → Json → Prop where
  | pointed {path : String} {node : Json}
      (resolved : Pointer.resolve? document path = some node) : Follows document path node
  | single {path : String} {node member : Json} {nullable : Bool}
      (whole : Follows document path node)
      (shaped : classify node = .ok ⟨.single member, nullable⟩) : Follows document path member
  | segment {path segment : String} {node value : Json} (whole : Follows document path node)
      (plain : '/' ∉ segment.toList) (step : Pointer.step? node segment.toList = some value) :
      Follows document (path ++ "/" ++ segment) value

theorem Follows.within {document : Json} {path : String} {node : Json}
    (h : Follows document path node) : node.Within document := by
  induction h with
  | pointed resolved => exact Pointer.resolve?_within resolved
  | single _ shaped ih => exact (within_of_single shaped).trans ih
  | segment _ _ step ih => exact (Pointer.step?_within step).trans ih

/-- The path goes on below a schema that stands for the only member of its `allOf`, with a key that
leads to a part of the member and so without the `allOf/0` that leads to the member. -/
def BelowSingle (document : Json) (path : String) : Prop :=
  ∃ front key whole member nullable, PartKey key ∧
    (path = front ++ "/" ++ key ∨ Above (front ++ "/" ++ key) path) ∧
      Pointer.resolve? document front = some whole ∧
        classify whole = .ok ⟨.single member, nullable⟩

theorem BelowSingle.child {document : Json} {path : String} (h : BelowSingle document path)
    (segment : String) : BelowSingle document (path ++ "/" ++ segment) := by
  obtain ⟨front, key, whole, member, nullable, part, below, resolved, shaped⟩ := h
  refine ⟨front, key, whole, member, nullable, part, Or.inr ?_, resolved, shaped⟩
  rcases below with rfl | ⟨rest, rfl⟩
  · exact ⟨segment, rfl⟩
  · exact ⟨rest ++ "/" ++ segment, by simp only [String.append_assoc]⟩

/-- A path is that of a node: it leads there, and it points at a schema that stands for the node
unless it goes on below a schema that stands for another one. -/
structure Locates (document : Json) (path : String) (node : Json) : Prop where
  follows : Follows document path node
  resolves : (∃ w, Pointer.resolve? document path = some w ∧ Leads w node) ∨
    BelowSingle document path

namespace Locates

variable {document : Json} {path key : String} {node value : Json} {entries : Entries Json}

theorem pointed (resolved : Pointer.resolve? document path = some node) :
    Locates document path node :=
  ⟨.pointed resolved, Or.inl ⟨node, resolved, .refl⟩⟩

/-- The member of an `allOf` is where the whole is. -/
theorem single {member : Json} {nullable : Bool} (h : Locates document path node)
    (shaped : classify node = .ok ⟨.single member, nullable⟩) : Locates document path member := by
  refine ⟨h.follows.single shaped, h.resolves.imp_left ?_⟩
  rintro ⟨w, resolved, leads⟩
  exact ⟨w, resolved, leads.trans (.single shaped .refl)⟩

/-- A path that goes on with the key of a part points at the node before the key, or it goes on below
a schema that stands for another one. -/
theorem pointed_or_below (h : Locates document path node) (part : PartKey key) :
    Pointer.resolve? document path = some node ∨ BelowSingle document (path ++ "/" ++ key) := by
  rcases h.resolves with ⟨w, resolved, leads⟩ | below
  · cases leads with
    | refl => exact Or.inl resolved
    | single shaped _ => exact Or.inr ⟨path, key, w, _, _, part, Or.inl rfl, resolved, shaped⟩
  · exact Or.inr (below.child key)

/-! ## Parts of a node -/

/-- A part under a key. -/
theorem at_key (h : Locates document path (.obj entries)) (part : PartKey key)
    (found : Entries.get? key entries = some value) :
    Locates document (path ++ "/" ++ key) value := by
  have step : Pointer.step? (.obj entries) key.toList = some value := by
    rw [Pointer.step?_key part.plain.2, found]
  refine ⟨h.follows.segment part.plain.1 step, (h.pointed_or_below part).imp_left ?_⟩
  intro resolved
  refine ⟨value, ?_, .refl⟩
  rw [Pointer.resolve?_child _ _ _ part.plain.1, resolved, Option.bind_some, step]

/-- A part of what stands under a key. -/
theorem below_key {segment : String} {inner : Json} (h : Locates document path (.obj entries))
    (part : PartKey key) (found : Entries.get? key entries = some inner)
    (plain : '/' ∉ segment.toList) (step : Pointer.step? inner segment.toList = some value) :
    Locates document (path ++ "/" ++ (key ++ "/" ++ segment)) value := by
  have longer : path ++ "/" ++ (key ++ "/" ++ segment) = path ++ "/" ++ key ++ "/" ++ segment := by
    simp only [String.append_assoc]
  rw [longer]
  refine ⟨(h.at_key part found).follows.segment plain step, ?_⟩
  rcases h.pointed_or_below part with resolved | below
  · refine Or.inl ⟨value, ?_, .refl⟩
    rw [Pointer.resolve?_child _ _ _ plain, Pointer.resolve?_child _ _ _ part.plain.1, resolved,
      Option.bind_some, Pointer.step?_key part.plain.2, found, Option.bind_some, step]
  · exact Or.inr (below.child segment)

variable {site : Site} {schema : Json} {nullable : Bool}

theorem items {item : Json} {hint : Option String} (h : Locates document site.path schema)
    (shaped : classify schema = .ok ⟨.array (some item), nullable⟩) :
    Locates document (site.child "items" hint).path item := by
  obtain ⟨entries, rfl, read⟩ := classify_obj shaped nofun nofun
  exact h.at_key .items read

theorem member {keyword : UnionKeyword} {alternatives : List Json} {part : Json × Site}
    (h : Locates document site.path schema)
    (shaped : classify schema = .ok ⟨.union keyword alternatives, nullable⟩)
    (mem : part ∈ Walk.memberParts keyword site 0 alternatives) :
    Locates document part.2.path part.1 := by
  obtain ⟨i, found, there⟩ := Walk.mem_memberParts mem
  obtain ⟨entries, rfl, read⟩ := classify_obj shaped nofun nofun
  rw [there, Nat.zero_add]
  refine h.below_key (.alternatives keyword) read (Pointer.slash_not_mem_toString i) ?_
  rw [Pointer.step?_index, found]

theorem property {object properties : Entries Json} {property : String × Json}
    (distinct : DistinctKeys document) (h : Locates document site.path schema)
    (shaped : classify schema = .ok ⟨.object object, nullable⟩)
    (found : Entries.get? "properties" object = some (.obj properties))
    (mem : property ∈ properties) :
    Locates document (Walk.propertySite site property.1).path property.2 := by
  obtain ⟨entries, rfl, read⟩ := classify_obj shaped nofun nofun
  cases read
  have inner := (Json.within_of_get? found).trans h.follows.within
  have step : Pointer.step? (.obj properties) (Pointer.escape property.1).toList
      = some property.2 := by
    rw [Pointer.step?_escape, Entries.get?_of_mem (distinct _ inner) mem]
  exact h.below_key .properties found (Pointer.slash_not_mem_escape property.1) step

end Locates

/-! ## Warnings -/

namespace Warning

/-- The path that a warning gives. -/
def path? : Warning → Option String
  | .additionalProperties path | .nonIntegerConst path _ => some path
  | _ => none

/-- What a warning with a path says of the node. -/
def About : Warning → Json → Prop
  | .additionalProperties _, node =>
      ∃ entries, node = .obj entries ∧
        Entries.get? "additionalProperties" entries = some (.bool true)
  | .nonIntegerConst _ text, node =>
      ∃ entries n, node = .obj entries ∧ Entries.get? "const" entries = some (.num n) ∧
        n.toInt64? = none ∧ text = String.ofList n.text
  | _, _ => True

/-- If the warning gives a path, the path is that of a node of which it says what is so. -/
def Placed (document : Json) (w : Warning) : Prop :=
  ∀ path, w.path? = some path → ∃ node, Locates document path node ∧ w.About node

theorem placed_of_none {document : Json} {w : Warning} (h : w.path? = none) : w.Placed document := by
  intro path told
  rw [h] at told
  cases told

end Warning

theorem Walk.get?_of_allowsMore {object : Entries Json} (h : allowsMore object = true) :
    Entries.get? "additionalProperties" object = some (.bool true) := by
  unfold allowsMore at h
  split at h
  · next value found =>
      rw [found]
      unfold Json.isTrue at h
      split at h
      · rfl
      · cases h
  · cases h

namespace Progress

variable {document : Json} {p q : Progress}

/-- Every warning there is has its place. -/
def Truthful (document : Json) (p : Progress) : Prop := ∀ w ∈ p.warnings, w.Placed document

theorem Truthful.append (h : p.Truthful document) {more : List Warning}
    (warnings : q.warnings = p.warnings ++ more) (new : ∀ w ∈ more, w.Placed document) :
    q.Truthful document := by
  intro w mem
  rw [warnings] at mem
  rcases List.mem_append.mp mem with old | here
  · exact h w old
  · exact new w here

theorem Truthful.congr (h : p.Truthful document) (same : q.warnings = p.warnings) :
    q.Truthful document := by
  unfold Truthful
  rwa [same]

theorem Truthful.afterConst (h : p.Truthful document) {schema value : Json} {site : Site}
    {nullable : Bool} (located : Locates document site.path schema)
    (shaped : classify schema = .ok ⟨.const value, nullable⟩) :
    (Walk.afterConst p value site).Truthful document := by
  refine h.append (Walk.warnings_afterConst ..) fun w mem path told => ?_
  obtain ⟨n, rfl, wide, rfl⟩ := Walk.mem_constWarnings _ _ mem
  obtain ⟨entries, rfl, read⟩ := classify_obj shaped nofun nofun
  cases told
  exact ⟨_, located, entries, n, rfl, read, wide, rfl⟩

theorem Truthful.afterEnum (h : p.Truthful document) (schema : Json) (name : Identifier.Resolved)
    (values : List EnumMember) : (Walk.afterEnum p schema name values).Truthful document := by
  have warnings := Walk.warnings_afterEnum p schema name values
  rw [List.append_assoc] at warnings
  refine h.append warnings fun w mem => ?_
  rcases List.mem_append.mp mem with named | placed
  · rw [p.mem_nameWarnings _ _ named]
    exact Warning.placed_of_none rfl
  · rw [((p.mem_placeWarnings _).mp placed).2]
    exact Warning.placed_of_none rfl

theorem Truthful.opened (h : p.Truthful document) (rootName : String) {object : Entries Json}
    {site : Site} (located : Locates document site.path (.obj object)) :
    (p.opened rootName object site).Truthful document := by
  refine h.append (p.warnings_opened rootName object site) fun w mem => ?_
  rcases p.mem_openWarnings _ _ _ mem with rfl | ⟨rfl, allowed⟩
  · exact Warning.placed_of_none rfl
  · intro path told
    cases told
    exact ⟨_, located, object, rfl, Walk.get?_of_allowsMore allowed⟩

theorem Truthful.closed (h : p.Truthful document) (path : String) (slot : Nat) (c : DataClass) :
    (p.closed path slot c).Truthful document := by
  refine h.append (p.warnings_closed path slot c) fun w mem => ?_
  rw [((p.mem_placeWarnings _).mp mem).2]
  exact Warning.placed_of_none rfl

end Progress

section Walks

variable {document : Json} {rootName : String} {p q : Progress}

/-- **A walk of a node at its path gives every warning its place.** -/
theorem Walked.truthful (distinct : DistinctKeys document) {schema : Json} {site : Site}
    {type : DataType} (h : Walked document rootName schema site p type q)
    (located : Locates document site.path schema) (before : p.Truthful document) :
    q.Truthful document := by
  revert located before
  refine Walked.induct (motive := fun schema site p _ q => Locates document site.path schema →
    p.Truthful document → q.Truthful document) ?_ h
  intro schema site p type q rule located before
  cases rule with
  | plain | known => exact before
  | const shaped => exact before.afterConst located shaped
  | enum => exact before.afterEnum _ _ _
  | forward =>
      refine before.append (Progress.warnings_warn ..) fun w mem => ?_
      rw [List.mem_singleton.mp mem]
      exact Warning.placed_of_none rfl
  | expand shaped miss resolved building resolving part =>
      exact (part.2 (.pointed resolved) (before.congr rfl)).congr rfl
  | single shaped part => exact part.2 (located.single shaped) before
  | union shaped parts =>
      refine parts.with_mem.invariant (Progress.Truthful document) ?_ before
      rintro schema site _ _ _ ⟨⟨-, keeps⟩, mem⟩
      exact keeps (located.member shaped mem)
  | @object object _ name _ _ _ shaped named split parts =>
      obtain ⟨_, rfl, rfl⟩ := classify_obj shaped nofun nofun
      refine Progress.Truthful.closed ?_ _ _ _
      refine parts.with_mem.invariant (Progress.Truthful document) ?_
        (before.opened rootName located)
      rintro schema site _ _ _ ⟨⟨-, keeps⟩, mem⟩
      obtain ⟨property, own, same⟩ := List.mem_map.mp mem
      cases same
      have there : property ∈ (Walk.objectSplit name.identifier object site).1 := by rwa [split]
      obtain ⟨declared, found, le⟩ := Walk.objectSplit_subset there
      exact keeps (located.property distinct shaped found (le there))
  | items shaped part => exact part.2 (located.items shaped) before

theorem DefinitionsWalked.truthful (distinct : DistinctKeys document)
    {definitions : List (String × Json)}
    (h : DefinitionsWalked document rootName definitions p q)
    (located : ∀ definition ∈ definitions, Locates document definition.1 definition.2)
    (before : p.Truthful document) : q.Truthful document := by
  induction h with
  | nil => exact before
  | cons head _ ih =>
      have walked := head.truthful distinct (located _ List.mem_cons_self) (before.congr rfl)
      exact ih (fun definition mem => located definition (List.mem_cons_of_mem _ mem))
        (walked.congr rfl)

end Walks

/-! ## Errors -/

/-- The path that an error gives. -/
def SchemaError.path? : SchemaError → Option String
  | .unresolvedReference _ path | .unsupported path _ => some path
  | _ => none

namespace Call

variable {document : Json} {rootName : String} {call part : Call}

/-- The call is made at the path of its node. -/
def OnPath (document : Json) (call : Call) : Prop := Locates document call.site.path call.schema

/-- **A call that is made at the path of its node makes others at those of theirs.** -/
theorem OnPath.step (distinct : DistinctKeys document) (h : call.OnPath document)
    (makes : call.Makes document rootName part) : part.OnPath document := by
  -- Only what is handed on matters here, so the part may be any node at any site.
  have hands := makes.hands
  unfold OnPath at h ⊢
  generalize part.schema = schema at hands ⊢
  generalize part.site = site at hands ⊢
  generalize part.start = start at hands
  cases hands with
  | target shaped resolved building resolving => exact .pointed resolved
  | single shaped => exact h.single shaped
  | member shaped mem before => exact h.member shaped mem
  | property shaped found mem before => exact h.property distinct shaped found mem
  | items shaped => exact h.items shaped

/-- The path of an error is that of the node, of one of its properties, or a reference that points
somewhere. -/
theorem Fails.locates (distinct : DistinctKeys document) (h : call.OnPath document)
    {e : SchemaError} (fails : call.Fails document e) {path : String}
    (told : e.path? = some path) : ∃ node, Locates document path node := by
  cases fails with
  | fault | unresolved | const =>
      cases told
      exact ⟨_, h⟩
  | refused refuses =>
      cases told
      obtain ⟨target, resolved⟩ := refuses.resolved
      exact ⟨target, .pointed resolved⟩
  | enum shaped read =>
      rcases Walk.enumMembers_eq_error read with ⟨_, rfl⟩ | ⟨_, rfl⟩ | ⟨_, _, _, rfl⟩
      · cases told
        exact ⟨_, h⟩
      · cases told
        exact ⟨_, h⟩
      · cases told
  | object shaped split =>
      rcases Walk.objectSplit_eq_fault split with rfl | ⟨properties, found, property, mem, _, own⟩
      · cases told
        exact ⟨_, h⟩
      · rcases Walk.fieldFault?_eq_some own with rfl | ⟨_, _, rfl⟩
        · cases told
          exact ⟨property.2, h.property distinct shaped found mem⟩
        · cases told

/-- The path of the error of a call is that of a node. -/
theorem OnPath.locates_of_error (distinct : DistinctKeys document) (h : call.OnPath document)
    {e : SchemaError} (failed : call.run document rootName = .error e) {path : String}
    (told : e.path? = some path) : ∃ node, Locates document path node := by
  have finished : e ≠ .unfinished := by
    rintro rfl
    cases told
  obtain ⟨inner, here, fails⟩ := fails_of_error finished (fun own => own.step distinct) failed h
  exact fails.locates distinct here told

end Call

/-! ## Whole conversions -/

/-- **Warnings and errors are where their paths say.** The path of every warning and of every error
leads to a node of the document, and it points at a schema that stands for the node unless it goes on
below the only member of an `allOf`. What a warning says of the node is so. -/
theorem convert_located {document : Json} (distinct : DistinctKeys document) (rootName : String) :
    (∀ c, convert document rootName = .ok c → ∀ w ∈ c.warnings, ∀ path, w.path? = some path →
      ∃ node, Locates document path node ∧ w.About node) ∧
    ∀ e, convert document rootName = .error e → ∀ path, e.path? = some path →
      ∃ node, Locates document path node := by
  have root : Locates document Site.root.path document := .pointed (Pointer.resolve?_root _)
  have leads : ∀ definition ∈ Pointer.definitions document,
      Locates document definition.1 definition.2 :=
    fun _ mem => .pointed (Pointer.resolve?_of_mem_definitions distinct mem)
  constructor
  · intro c converted w mem path told
    obtain ⟨p, q, definitions, walked, -, warnings⟩ := convert_ok converted
    have start : Progress.initial.Truthful document := nofun
    have between := definitions.truthful distinct leads start
    rw [warnings] at mem
    obtain ⟨node, located, about⟩ := walked.truthful distinct root between w mem path told
    exact ⟨node, located, about⟩
  · intro e failed path told
    have located (call : Call) (own : call.OnPath document)
        (ran : call.run document (Identifier.pascal rootName) = .error e) :
        ∃ node, Locates document path node := own.locates_of_error distinct ran told
    -- Whichever walk fails, the outermost call is made at the path of a definition or at the root.
    rcases exists_walk_eq_error failed with ⟨key, schema, p, mem, ran⟩ | ⟨p, ran⟩
    · exact located ⟨_, schema, .ofReference key, p⟩ (leads _ mem) ran
    · exact located ⟨_, document, .root, p⟩ root ran

/-- A form with a limit that is too large, a part that is an `allOf`, and a definition whose key has a
slash. -/
def surveyForm : Json :=
  .obj [("$defs", .obj [("Open/Form", .obj [("type", .str "object"),
      ("additionalProperties", .bool true)])]),
    ("properties", .obj [("limit", .obj [("const", .num (.int 0x8000000000000000))]),
      ("part", .obj [("allOf", .arr [.obj [("properties", .obj [("item", .obj [
        ("properties", .obj []), ("additionalProperties", .bool true)])])]])])])]

/-- A form whose part refers to nothing. -/
def brokenForm : Json :=
  .obj [("properties", .obj [("part", .obj [("allOf", .arr [.obj [("properties", .obj [
    ("who", .obj [("$ref", .str "#/$defs/Nobody")])])]])])])]

theorem convert_located_surveyForm : DistinctKeys surveyForm ∧ DistinctKeys brokenForm ∧
    (∃ c, convert surveyForm "Survey" = .ok c ∧
      c.warnings = [.additionalProperties "#/$defs/Open~1Form",
        .nonIntegerConst "#/properties/limit" "9223372036854775808",
        .additionalProperties "#/properties/part/properties/item"] ∧
      ∀ w ∈ c.warnings, ∀ path, w.path? = some path →
        ∃ node, Locates surveyForm path node ∧ w.About node) ∧
    ∃ e path, convert brokenForm "Survey" = .error e ∧ e.path? = some path ∧
      path = "#/properties/part/properties/who" ∧ ∃ node, Locates brokenForm path node := by
  have distinct : DistinctKeys surveyForm := .of_everywhere (by decide +kernel)
  have broken : DistinctKeys brokenForm := .of_everywhere (by decide +kernel)
  have warned : (convert surveyForm "Survey").toOption.map Conversion.warnings
      = some [.additionalProperties "#/$defs/Open~1Form",
        .nonIntegerConst "#/properties/limit" "9223372036854775808",
        .additionalProperties "#/properties/part/properties/item"] := by
    decide +kernel
  have failed : (match convert brokenForm "Survey" with
      | .ok _ => none
      | .error e => e.path?) = some "#/properties/part/properties/who" := by
    decide +kernel
  obtain ⟨c, converted, warnings⟩ := exists_of_toOption warned
  refine ⟨distinct, broken, ?_, ?_⟩
  · exact ⟨c, converted, warnings, (convert_located distinct "Survey").1 c converted⟩
  · cases refused : convert brokenForm "Survey" with
    | ok c =>
        rw [refused] at failed
        cases failed
    | error e =>
        rw [refused] at failed
        exact ⟨e, _, rfl, failed, rfl, (convert_located broken "Survey").2 e refused _ failed⟩

/-- A form that is the only member of an `allOf`. -/
def wrappedForm : Json :=
  .obj [("allOf", .arr [.obj [("type", .str "object"), ("properties", .obj [
    ("a", .obj [("type", .str "object"), ("additionalProperties", .bool true)])])]])]

/-- Below the only member of an `allOf` a path may point nowhere. -/
theorem wrappedForm_unresolved : ∃ c, convert wrappedForm "Form" = .ok c ∧
    .additionalProperties "#/properties/a" ∈ c.warnings ∧
      Pointer.resolve? wrappedForm "#/properties/a" = none := by
  have warned : (convert wrappedForm "Form").toOption.map Conversion.warnings
      = some [.additionalProperties "#/properties/a"] := by
    decide +kernel
  have nowhere : (Pointer.resolve? wrappedForm "#/properties/a").isNone = true := by
    decide +kernel
  obtain ⟨c, converted, warnings⟩ := exists_of_toOption warned
  refine ⟨c, converted, ?_, Option.isNone_iff_eq_none.mp nowhere⟩
  rw [warnings]
  exact List.mem_singleton_self _

end SchemaLoom
