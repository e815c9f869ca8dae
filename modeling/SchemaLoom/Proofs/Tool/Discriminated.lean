import SchemaLoom.Proofs.Tool.Names
import SchemaLoom.Proofs.Tool.Wrapped
import SchemaLoom.Proofs.Walk.Accepted

set_option autoImplicit false

/-! # Every tool becomes a class that tells the tool

Whatever an adapter calls things, the object that wraps a tool has one or two properties under keys
of different fields, and nothing that moves to its root from the arguments stands where its own
members are asked for. So a conversion of the wrapper ends in its class: the first field is the
literal name of the tool, and the only other field, if there are arguments, has the type that their
schema has where the walk comes to it. The walks of definitions before do no harm, since the class
is put into the list whatever its name.

Without arguments nothing can go wrong but the keys (`convert_bareWrapper_ok`).
-/

namespace SchemaLoom

/-- Whatever is hoisted stood under one of the keys. -/
theorem mem_of_mem_hoistDefinitions {keys : List String} {members : Entries Json}
    {e : String × Json} (mem : e ∈ (hoistDefinitions keys members).1) : e.1 ∈ keys := by
  induction keys generalizing members with
  | nil => cases mem
  | cons key more ih =>
      unfold hoistDefinitions at mem
      split at mem
      · rcases List.mem_cons.mp mem with rfl | mem
        · exact List.mem_cons_self
        · exact List.mem_cons_of_mem _ (ih mem)
      · exact List.mem_cons_of_mem _ (ih mem)

namespace ToolAdapter

variable {adapter : ToolAdapter} {tool : Tool}

/-! ## The fields of a tool -/

/-- The field that tells the tool. -/
def discriminatorField (adapter : ToolAdapter) (tool : Tool) : DataField where
  name := Identifier.camel adapter.nameField
  type := .of (.literalString (adapter.toolName tool))
  description? := tool.description?
  alias? := if adapter.nameField = Identifier.camel adapter.nameField then none
    else some adapter.nameField

/-- The field of arguments of a schema and a type; it is optional only if the type is. -/
def argumentsField (adapter : ToolAdapter) (schema : Json) (type : DataType) : DataField where
  name := Identifier.camel adapter.argsField
  type := type
  description? := Walk.textAt "description" schema
  alias? := if adapter.argsField = Identifier.camel adapter.argsField then none
    else some adapter.argsField
  skip := schema.isFalse

/-- The type that the schema of the arguments has in the wrapper: the walk comes to it after the
definitions, when the class of the wrapper has been opened. -/
def TypesArguments (adapter : ToolAdapter) (tool : Tool) (schema : Json) (type : DataType) : Prop :=
  let root := Identifier.pascal (adapter.toolClass tool)
  ∃ own p q, adapter.wrapper tool = .ok (.obj own) ∧
    DefinitionsWalked (.obj own) root (Pointer.definitions (.obj own)) .initial p ∧
    Walked (.obj own) root schema adapter.argsSite (p.opened root own .root) type q

/-- The fields of the class of a tool: the one that tells the tool and, if the tool has a schema of
arguments, one for them. -/
def Discriminates (adapter : ToolAdapter) (tool : Tool) (fields : List DataField) : Prop :=
  match tool.inputSchema? with
  | none => fields = [adapter.discriminatorField tool]
  | some input => ∃ type, adapter.TypesArguments tool (adapter.hoistedArgs tool input).2 type ∧
      fields = [adapter.discriminatorField tool,
        adapter.argumentsField (adapter.hoistedArgs tool input).2 type]

/-! ## The wrapper -/

/-- What moves to the root of the wrapper from the arguments, and the properties of the wrapper. -/
def wrapperParts (adapter : ToolAdapter) (tool : Tool) : Entries Json × Entries Json :=
  let first := (adapter.nameField, adapter.discriminator tool)
  match tool.inputSchema? with
  | none => ([], [first])
  | some input => ((adapter.hoistedArgs tool input).1,
      [first, (adapter.argsField, (adapter.hoistedArgs tool input).2)])

/-- The members of the wrapper of a tool. -/
def membersOf (adapter : ToolAdapter) (tool : Tool) : Entries Json :=
  (adapter.wrapperParts tool).1 ++ ownMembers (adapter.wrapperParts tool).2

theorem wrapper_of_usable (usable : adapter.fault? = none) :
    adapter.wrapper tool = .ok (.obj (adapter.membersOf tool)) := by
  unfold wrapper membersOf wrapperParts
  rw [usable]
  cases tool.inputSchema? <;> rfl

theorem get?_membersOf {key : String} (absent : key ∉ Pointer.containers) :
    Entries.get? key (adapter.membersOf tool)
      = Entries.get? key (ownMembers (adapter.wrapperParts tool).2) := by
  have hoisted : Entries.get? key (adapter.wrapperParts tool).1 = none := by
    rw [Entries.get?_eq_none_iff]
    intro there
    obtain ⟨e, he, rfl⟩ := List.mem_map.mp there
    unfold wrapperParts hoistedArgs at he
    split at he
    · cases he
    · simp only at he
      split at he
      · exact absent (mem_of_mem_hoistDefinitions he)
      · cases he
  rw [membersOf, Entries.get?_append, hoisted, Option.none_or]

theorem classify_membersOf (adapter : ToolAdapter) (tool : Tool) :
    classify (.obj (adapter.membersOf tool))
      = .ok ⟨.object (adapter.membersOf tool), false⟩ := by
  exact classify_object_congr
    (fun key mem => get?_membersOf (Shape.not_mem_containers_of_mem_keys key mem)) rfl

theorem declared_membersOf (adapter : ToolAdapter) (tool : Tool) :
    declared (adapter.membersOf tool) = (adapter.wrapperParts tool).2 := by
  unfold declared
  rw [get?_membersOf (by decide)]
  rfl

/-- All properties of the wrapper are required. -/
theorem requiredKeys_membersOf (adapter : ToolAdapter) (tool : Tool) :
    Walk.requiredKeys (adapter.membersOf tool) = Entries.names (adapter.wrapperParts tool).2 := by
  unfold Walk.requiredKeys
  rw [get?_membersOf (by decide)]
  show List.filterMap Json.string? (List.map _ _) = _
  rw [List.filterMap_map]
  exact List.filterMap_eq_map_iff_forall_eq_some.mpr fun _ _ => rfl

/-! ## The walk of the wrapper -/

section Walks

variable {document : Json} {rootName : String} {site : Site} {p q : Progress} {type : DataType}

theorem walked_discriminator
    (h : Walked document rootName (adapter.discriminator tool) site p type q) :
    type = .of (.literalString (adapter.toolName tool)) ∧ q = p := by
  obtain ⟨core, rfl, typed, rfl⟩ := h.step.outcome (classify_discriminator adapter tool)
  cases typed
  exact ⟨rfl, rfl⟩

theorem fieldFor_required {required : List String} {key : String} {schema : Json}
    {type : DataType} (mem : key ∈ required) :
    Walk.fieldFor required (key, schema) type =
      { name := Identifier.camel key
        type := type
        description? := Walk.textAt "description" schema
        alias? := if key = Identifier.camel key then none else some key
        skip := schema.isFalse } := by
  have always : type.withOptional (!required.contains key) = type := by simp [mem]
  unfold Walk.fieldFor Walk.fieldOf
  rw [always, Identifier.alias?_resolve]
  rfl

theorem fieldFor_discriminator {required : List String} (mem : adapter.nameField ∈ required) :
    Walk.fieldFor required (adapter.nameField, adapter.discriminator tool)
        (.of (.literalString (adapter.toolName tool))) = adapter.discriminatorField tool := by
  rw [fieldFor_required mem, description_discriminator]
  rfl

/-- The properties of the wrapper, walked when its class has been opened, give the fields. -/
theorem discriminates_of_chain {types : List DataType} (usable : adapter.fault? = none)
    (definitions : DefinitionsWalked (.obj (adapter.membersOf tool))
      (Identifier.pascal (adapter.toolClass tool))
      (Pointer.definitions (.obj (adapter.membersOf tool))) .initial p)
    (chain : Chain (Walked (.obj (adapter.membersOf tool))
        (Identifier.pascal (adapter.toolClass tool)))
      ((adapter.wrapperParts tool).2.map (Walk.fieldPart .root))
      (p.opened (Identifier.pascal (adapter.toolClass tool)) (adapter.membersOf tool) .root)
      types q) :
    adapter.Discriminates tool (List.zipWith
      (Walk.fieldFor (Entries.names (adapter.wrapperParts tool).2))
      (adapter.wrapperParts tool).2 types) := by
  unfold Discriminates
  cases given : tool.inputSchema? with
  | none =>
      have parts : (adapter.wrapperParts tool).2
          = [(adapter.nameField, adapter.discriminator tool)] := by simp [wrapperParts, given]
      rw [parts] at chain ⊢
      generalize required : Entries.names _ = keys
      have mem : adapter.nameField ∈ keys := required ▸ List.mem_cons_self
      cases chain with
      | cons head tail =>
          cases tail
          obtain ⟨rfl, -⟩ := walked_discriminator head
          exact congrArg ([·]) (fieldFor_discriminator mem)
  | some input =>
      have parts : (adapter.wrapperParts tool).2
          = [(adapter.nameField, adapter.discriminator tool),
            (adapter.argsField, (adapter.hoistedArgs tool input).2)] := by
        simp [wrapperParts, given]
      rw [parts] at chain ⊢
      generalize required : Entries.names _ = keys
      have mem : adapter.nameField ∈ keys := required ▸ List.mem_cons_self
      have also : adapter.argsField ∈ keys :=
        required ▸ List.mem_cons_of_mem _ List.mem_cons_self
      cases chain with
      | cons head tail =>
          cases tail with
          | @cons _ _ _ _ _ _ args _ second last =>
              cases last
              -- The discriminator has left the progress alone.
              obtain ⟨rfl, rfl⟩ := walked_discriminator head
              refine ⟨args, ⟨_, p, _, wrapper_of_usable usable, definitions, second⟩, ?_⟩
              show [Walk.fieldFor _ _ _, Walk.fieldFor _ _ _] = _
              rw [fieldFor_discriminator mem, fieldFor_required also]
              rfl

/-- **The walk of a wrapper ends in the class of its tool.** -/
theorem walked_wrapper (usable : adapter.fault? = none)
    (definitions : DefinitionsWalked (.obj (adapter.membersOf tool))
      (Identifier.pascal (adapter.toolClass tool))
      (Pointer.definitions (.obj (adapter.membersOf tool))) .initial p)
    (h : Walked (.obj (adapter.membersOf tool)) (Identifier.pascal (adapter.toolClass tool))
      (.obj (adapter.membersOf tool)) .root p type q) :
    ∃ d, type = .classRef d.name ∧ .ofClass d ∈ q.models ∧ adapter.Discriminates tool d.fields ∧
      d.name = (p.className (Identifier.pascal (adapter.toolClass tool)) (adapter.membersOf tool)
        .root).identifier := by
  obtain ⟨core, rfl, properties, types, r, split, chain, rfl, rfl⟩ :=
    h.step.outcome (classify_membersOf adapter tool)
  have inside := (Progress.Keeps.of_chain chain fun part => part.keeps).models.length_le
  rw [Progress.models_opened] at inside
  have all := Walk.objectSplit_eq_declared split
  rw [declared_membersOf] at all
  subst all
  clear h split
  generalize p.className (Identifier.pascal (adapter.toolClass tool)) _ .root = name
  refine ⟨Walk.classOf (adapter.membersOf tool) name (List.zipWith
      (Walk.fieldFor (Walk.requiredKeys (adapter.membersOf tool))) (adapter.wrapperParts tool).2
      types), ?_, r.mem_models_closed inside Site.root.path _, ?_, ?_⟩
  · exact DataType.withOptional_false _
  · rw [requiredKeys_membersOf]
    exact discriminates_of_chain usable definitions chain
  · rfl

end Walks

/-! ## Without arguments -/

/-- The keys of an adapter have no fault if both are usable and of different fields. -/
theorem fault?_eq_none_iff : adapter.fault? = none ↔
    Identifier.isUsable adapter.nameField = true ∧ Identifier.isUsable adapter.argsField = true ∧
      Identifier.camel adapter.nameField ≠ Identifier.camel adapter.argsField := by
  constructor
  · intro usable
    obtain ⟨named, otherNamed, differ⟩ := camel_ne_of_usable usable
    exact ⟨Identifier.of_ne_empty_iff.mp named, Identifier.of_ne_empty_iff.mp otherNamed, differ⟩
  · rintro ⟨named, otherNamed, differ⟩
    have first : Identifier.camel adapter.nameField ≠ "" := Identifier.of_ne_empty_iff.mpr named
    have second : Identifier.camel adapter.argsField ≠ "" :=
      Identifier.of_ne_empty_iff.mpr otherNamed
    simp [fault?, first, second, differ]

/-- Without arguments the walk comes to the wrapper and to its discriminator alone. -/
theorem reached_bareWrapper {schema : Json}
    (h : Reached (wrapperObject [] [(adapter.nameField, adapter.discriminator tool)]) schema) :
    schema = wrapperObject [] [(adapter.nameField, adapter.discriminator tool)] ∨
      schema = adapter.discriminator tool := by
  induction h with
  | root => exact Or.inl rfl
  | definition mem => cases mem
  | part _ shaped mem ih =>
      rcases ih with rfl | rfl
      · cases shaped
        exact Or.inr (List.mem_singleton.mp mem)
      · rw [classify_discriminator] at shaped
        cases shaped
        cases mem

theorem convert_bareWrapper_ok (usable : adapter.fault? = none) :
    ∃ c, convert (wrapperObject [] [(adapter.nameField, adapter.discriminator tool)])
      (adapter.toolClass tool) = .ok c := by
  apply convert_eq_ok_of_acceptable
  · intro schema reached
    rcases reached_bareWrapper reached with rfl | rfl
    · rfl
    · unfold discriminator
      cases tool.description? <;> rfl
  · intro schema reached
    rcases reached_bareWrapper reached with rfl | rfl
    · refine ⟨_, _, rfl, ?_⟩
      rintro found read
      cases read
      exact ⟨_, rfl, by simpa [Entries.names] using (fault?_eq_none_iff.mp usable).1,
        List.nodup_singleton _⟩
    · exact ⟨_, _, classify_discriminator adapter tool, rfl⟩

/-! ## Tools -/

theorem convertTool_of_wrapper {schema : Json} (wrapped : adapter.wrapper tool = .ok schema) :
    adapter.convertTool tool = convert schema (adapter.toolClass tool) := by
  unfold convertTool
  rw [wrapped]
  rfl

/-- A tool is converted only if its adapter is without fault. -/
theorem convertTool_usable {c : Conversion} (h : adapter.convertTool tool = .ok c) :
    adapter.fault? = none ∧
      convert (.obj (adapter.membersOf tool)) (adapter.toolClass tool) = .ok c := by
  obtain ⟨schema, wrapped, converted⟩ := convertTool_eq_ok h
  cases usable : adapter.fault? with
  | some fault =>
      unfold wrapper at wrapped
      rw [usable] at wrapped
      cases wrapped
  | none =>
      rw [wrapper_of_usable usable] at wrapped
      cases wrapped
      exact ⟨rfl, converted⟩

/-- The class of a tool is called what the adapter calls it, if that has a name. -/
theorem className_wrapper (p : Progress) {rootName : String} (own : Entries Json)
    (named : rootName ≠ "") : (p.className rootName own .root).identifier = rootName := by
  have given : Walk.givenClassName? rootName (Walk.textAt "title" (.obj own)) .root
      = some (Walk.rootClassName rootName (Walk.textAt "title" (.obj own))) :=
    if_pos (by simpa [Site.root] using named)
  rw [Progress.className, given]
  rfl

/-- **Every tool becomes a class that tells the tool**, whatever the adapter calls things: its type
is that class, the first field of the class is the literal name of the tool, and the arguments have
the only other one. A tool without arguments is converted if and only if the keys of the adapter are
usable names of different fields. -/
theorem convertTool_discriminates (adapter : ToolAdapter) (tool : Tool) :
    (∀ c, adapter.convertTool tool = .ok c → ∃ d, c.root = .classRef d.name ∧
      (Identifier.pascal (adapter.toolClass tool) ≠ "" →
        d.name = Identifier.pascal (adapter.toolClass tool)) ∧
      .ofClass d ∈ c.models ∧ adapter.Discriminates tool d.fields) ∧
    (tool.inputSchema? = none → ((∃ c, adapter.convertTool tool = .ok c) ↔
      Identifier.isUsable adapter.nameField = true ∧
        Identifier.isUsable adapter.argsField = true ∧
        Identifier.camel adapter.nameField ≠ Identifier.camel adapter.argsField)) := by
  constructor
  · intro c h
    obtain ⟨usable, converted⟩ := convertTool_usable h
    obtain ⟨p, q, definitions, walked, models, -⟩ := convert_ok converted
    obtain ⟨d, root, mem, fields, name⟩ := walked_wrapper usable definitions walked
    exact ⟨d, root, fun named => name.trans (className_wrapper p _ named), models ▸ mem, fields⟩
  · intro bare
    rw [← fault?_eq_none_iff]
    constructor
    · rintro ⟨c, h⟩
      exact (convertTool_usable h).1
    · intro usable
      have wrapped : adapter.wrapper tool
          = .ok (wrapperObject [] [(adapter.nameField, adapter.discriminator tool)]) := by
        unfold wrapper
        rw [usable, bare]
      rw [convertTool_of_wrapper wrapped]
      exact convert_bareWrapper_ok usable

/-- A tool with nullable arguments and a definition that is named like the tool's own class. -/
def searchTool : Tool :=
  { name := "search", description? := some "Finds pages"
    inputSchema? := some (.obj [("type", .arr [.str "object", .str "null"]),
      ("$defs", .obj [("SearchTool", .obj [("properties", .obj [])])]),
      ("properties", .obj [("with", .obj [("$ref", .str "#/$defs/SearchTool")])])]) }

theorem convertTool_discriminates_search :
    (∃ c d, ({ nameField := "tool-name" } : ToolAdapter).convertTool searchTool = .ok c ∧
      c.root = .classRef "SearchTool" ∧ .ofClass d ∈ c.models ∧ d.name = "SearchTool" ∧
      ({ nameField := "tool-name" } : ToolAdapter).Discriminates searchTool d.fields) ∧
    ∃ c, ({ nameField := "tool-name" } : ToolAdapter).convertTool { name := "stop" } = .ok c := by
  have made : (({ nameField := "tool-name" } : ToolAdapter).convertTool searchTool).toOption.map
      (·.models.length) = some 4 := by decide +kernel
  obtain ⟨c, converted, -⟩ := exists_of_toOption made
  obtain ⟨d, root, named, mem, fields⟩ := (convertTool_discriminates _ _).1 c converted
  have name : d.name = "SearchTool" := (named (by decide +kernel)).trans (by decide +kernel)
  rw [name] at root
  refine ⟨⟨c, d, converted, root, mem, name, fields⟩, ?_⟩
  exact ((convertTool_discriminates _ _).2 rfl).mpr ⟨by decide +kernel, by decide +kernel,
    by decide +kernel⟩

end ToolAdapter

end SchemaLoom
