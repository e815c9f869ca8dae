import SchemaLoom.Proofs.Model.Inhabits
import SchemaLoom.Proofs.Tool.Discriminated
import SchemaLoom.Proofs.Tool.Registered

set_option autoImplicit false

/-! # The class of a choice

The class that lets tools be picked has one field, whose type offers the types of the tools as they
are. These are the names of classes, never optional, so the field always has to be given. It is made
where there is a tool and the key of the field is usable, and nothing else is asked for: where the
name of the class is not usable, a class without a name is made.
-/

namespace SchemaLoom

/-- The name of the class in the data. -/
def DataClass.wireName (c : DataClass) : String := c.alias?.getD c.name

namespace ToolSelection

variable {s : ToolSelection} {tools : List DataType}

/-- The type of one of the tools: that of the only tool, or the union of several in their order. -/
inductive OneOf : List DataType → DataType → Prop where
  | only (tool : DataType) : OneOf [tool] tool
  | union (tools : List DataType) (several : 2 ≤ tools.length) : OneOf tools (.unionOf tools)

/-- The type offers the tools: a list of them where several may be picked, and else one of them. -/
def Offers (s : ToolSelection) (tools : List DataType) (type : DataType) : Prop :=
  ∃ choice, OneOf tools choice ∧ type = if s.canSelectMany then .listOf choice else choice

/-- The class lets the tools be picked: under the keys of the selection, in one field that has to be
given and whose name is one of a field. -/
structure Picks (s : ToolSelection) (tools : List DataType) (c : DataClass) : Prop where
  wireName : c.wireName = s.className
  field : ∃ field, c.fields = [field] ∧ isFieldName field.name = true ∧
    field.wireName = s.toolsField ∧ field.type.isOptional = false ∧ field.skip = false ∧
    s.Offers tools field.type

theorem choiceType_offers (some : tools ≠ []) :
    ∃ type, s.choiceType tools = .ok type ∧ s.Offers tools type := by
  cases tools with
  | nil => exact absurd rfl some
  | cons first rest =>
      cases rest with
      | nil => exact ⟨_, rfl, first, .only first, rfl⟩
      | cons second more =>
          exact ⟨_, rfl, _, .union (first :: second :: more) (by simp), rfl⟩

/-- What offers types that are not optional is not optional itself. -/
theorem Offers.isOptional_eq_false {type : DataType} (h : s.Offers tools type)
    (plain : ∀ tool ∈ tools, tool.isOptional = false) : type.isOptional = false := by
  obtain ⟨choice, one, rfl⟩ := h
  have given : choice.isOptional = false := by
    cases one with
    | only => exact plain choice List.mem_cons_self
    | union => rfl
  split
  · rfl
  · exact given

/-- The class of a choice is made from a usable key and at least one tool. Its name is not looked
at. -/
theorem choiceClass_of_usable (usable : Identifier.isUsable s.toolsField = true)
    (some : tools ≠ []) (plain : ∀ tool ∈ tools, tool.isOptional = false) :
    ∃ c, s.choiceClass tools = .ok c ∧ s.Picks tools c ∧
      c.name = Identifier.pascal s.className := by
  have named : (Identifier.resolve .camel s.toolsField).identifier ≠ "" :=
    Identifier.of_ne_empty_iff.mpr usable
  obtain ⟨type, typed, offers⟩ := choiceType_offers (s := s) some
  unfold choiceClass
  rw [typed, if_neg named]
  refine ⟨_, rfl,
    ⟨Identifier.getD_alias?_resolve .pascal s.className, _, rfl, ?_, ?_, ?_, rfl, offers⟩, rfl⟩
  · exact Identifier.isNamed_of named
  · exact Identifier.getD_alias?_resolve .camel s.toolsField
  · exact offers.isOptional_eq_false plain

/-- A choice without tools or without a usable key is refused. -/
theorem choiceClass_of_not_usable
    (refused : ¬ (Identifier.isUsable s.toolsField = true ∧ tools ≠ [])) :
    ∃ fault, s.choiceClass tools = .error (.configuration fault) := by
  unfold choiceClass
  by_cases named : (Identifier.resolve .camel s.toolsField).identifier = ""
  · rw [if_pos named]
    exact ⟨_, rfl⟩
  · have usable : Identifier.isUsable s.toolsField = true := Identifier.of_ne_empty_iff.mp named
    have none : tools = [] := by
      by_contra some
      exact refused ⟨usable, some⟩
    rw [if_neg named, none]
    exact ⟨_, rfl⟩

end ToolSelection

/-! ## Choices of tools -/

namespace ToolAdapter

variable {adapter : ToolAdapter} {tools : List Tool} {set : ToolSet}

/-- The type of a tool is the name of its class. -/
theorem convertTool_root {tool : Tool} {c : Conversion} (h : adapter.convertTool tool = .ok c) :
    ∃ name, c.root = .classRef name := by
  obtain ⟨usable, converted⟩ := convertTool_usable h
  obtain ⟨p, q, definitions, walked, -, -⟩ := convert_ok converted
  obtain ⟨d, root, -, -, -⟩ := walked_wrapper usable definitions walked
  exact ⟨d.name, root⟩

theorem convertTool_root_of_mem {conversions : List Conversion}
    (each : List.Forall₂ (fun tool c => adapter.convertTool tool = .ok c) tools conversions)
    {c : Conversion} (mem : c ∈ conversions) : ∃ name, c.root = .classRef name := by
  induction each with
  | nil => cases mem
  | cons one _ ih =>
      rcases List.mem_cons.mp mem with rfl | mem
      · exact convertTool_root one
      · exact ih mem

/-- No tool has an optional type. -/
theorem isOptional_of_mem_tools (h : adapter.convertTools tools = .ok set) :
    ∀ t ∈ set.tools, t.isOptional = false := by
  obtain ⟨conversions, each, -, roots, -⟩ := convertTools_eq_ok h
  rw [roots]
  intro t ht
  obtain ⟨c, hc, rfl⟩ := List.mem_map.mp ht
  obtain ⟨name, root⟩ := convertTool_root_of_mem each hc
  rw [root]
  rfl

/-- **The class of a choice lets the tools be picked, and its name is that of a class where the
selection names one.** It is made exactly if there is a tool and the key of the field is usable. -/
theorem convertTools_choiceClass (h : adapter.convertTools tools = .ok set) (s : ToolSelection) :
    (∀ c, s.choiceClass set.tools = .ok c → s.Picks set.tools c ∧
      (isTypeName c.name = true ↔ Identifier.isUsable s.className = true)) ∧
    ((∃ c, s.choiceClass set.tools = .ok c) ↔
      Identifier.isUsable s.toolsField = true ∧ set.tools ≠ []) ∧
    ∀ e, s.choiceClass set.tools = .error e → ∃ fault, e = .configuration fault := by
  by_cases accepted : Identifier.isUsable s.toolsField = true ∧ set.tools ≠ []
  · obtain ⟨c, made, picks, name⟩ := ToolSelection.choiceClass_of_usable (s := s) accepted.1
      accepted.2 (isOptional_of_mem_tools h)
    have named : isTypeName c.name = true ↔ Identifier.isUsable s.className = true := by
      rw [name]
      constructor
      · exact fun typed => Identifier.of_ne_empty_iff.mp
          (@Identifier.ne_empty_of_isNamed .pascal _ typed)
      · exact Identifier.isNamed_of_isUsable .pascal
    rw [made]
    refine ⟨?_, iff_of_true ⟨c, rfl⟩ accepted, nofun⟩
    rintro d ⟨⟩
    exact ⟨picks, named⟩
  · obtain ⟨fault, refused⟩ := ToolSelection.choiceClass_of_not_usable accepted
    rw [refused]
    refine ⟨nofun, iff_of_false nofun accepted, ?_⟩
    rintro e ⟨⟩
    exact ⟨fault, rfl⟩

/-- Two tools without arguments. -/
def lampTools : List Tool := [{ name := "turn-on" }, { name := "turn-off" }]

theorem convertTools_lampTools :
    ∃ set, ({} : ToolAdapter).convertTools lampTools = .ok set ∧ set.tools ≠ [] := by
  have given : (({} : ToolAdapter).convertTools lampTools).toOption.map
      (·.tools.length) = some 2 := by decide +kernel
  obtain ⟨set, converted, length⟩ := exists_of_toOption given
  refine ⟨set, converted, fun none => ?_⟩
  rw [none] at length
  cases length

/-- The selection of tools by keys that are no identifiers. -/
def stepSelection : ToolSelection := { toolsField := "next steps", className := "2 steps" }

theorem convertTools_choiceClass_lampTools : ∃ set c,
    ({} : ToolAdapter).convertTools lampTools = .ok set ∧
      stepSelection.choiceClass set.tools = .ok c ∧ stepSelection.Picks set.tools c ∧
      isTypeName c.name = true := by
  obtain ⟨set, converted, tools⟩ := convertTools_lampTools
  obtain ⟨produced, made, -⟩ := convertTools_choiceClass converted stepSelection
  obtain ⟨c, done⟩ := made.mpr ⟨by decide +kernel, tools⟩
  obtain ⟨picks, named⟩ := produced c done
  exact ⟨set, c, converted, done, picks, named.mpr (by decide +kernel)⟩

/-- Where the selection gives the class no usable name, it has none. -/
theorem choiceClass_unnamed : ∃ set c,
    ({} : ToolAdapter).convertTools lampTools = .ok set ∧
      ({ className := "***" } : ToolSelection).choiceClass set.tools = .ok c ∧
      Identifier.isUsable "***" = false ∧ c.name = "" ∧ isTypeName c.name = false := by
  obtain ⟨set, converted, tools⟩ := convertTools_lampTools
  obtain ⟨c, made, -, name⟩ := ToolSelection.choiceClass_of_usable
    (s := { className := "***" }) (by decide +kernel) tools (isOptional_of_mem_tools converted)
  have empty : c.name = "" := name.trans (by decide +kernel)
  refine ⟨set, c, converted, made, by decide +kernel, empty, ?_⟩
  rw [empty]
  rfl

end ToolAdapter

end SchemaLoom
