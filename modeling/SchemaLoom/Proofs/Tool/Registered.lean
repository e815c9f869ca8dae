import SchemaLoom.Proofs.Builder.Complete
import SchemaLoom.Proofs.Tool.Names

set_option autoImplicit false

/-! # From tools to a complete registry

The models of a list of tools are those of separate conversions, and each conversion has a model for
whatever it names. A class or an enum is looked up by its name alone, so it does no harm that two
tools use one name, or that the class of a choice is named like one of them: one of the models wins
and the name stays defined. The class of a choice itself names the classes of the tools and nothing
else.
-/

namespace SchemaLoom

/-! ## Closed lists of models -/

namespace DataModel

variable {models more : List DataModel}

theorem targetsIn_of_subset {t : DataType} (h : t.TargetsIn (· ∈ models.map key))
    (le : models ⊆ more) : t.TargetsIn (· ∈ more.map key) :=
  h.mono fun _ there => List.map_subset key le there

theorem Closed.flatten {lists : List (List DataModel)} (h : ∀ models ∈ lists, Closed models) :
    Closed lists.flatten := by
  intro c hc field hf
  obtain ⟨models, mem, there⟩ := List.mem_flatten.mp hc
  exact targetsIn_of_subset (h models mem c there field hf) fun m hm =>
    List.mem_flatten_of_mem mem hm

/-- A class may be added that names only models of the list. -/
theorem Closed.append_class (h : Closed models) {c : DataClass}
    (own : c.TargetsIn (· ∈ models.map key)) : Closed (models ++ [.ofClass c]) := by
  have le : models ⊆ models ++ [.ofClass c] := List.subset_append_left ..
  intro d hd field hf
  rcases List.mem_append.mp hd with old | new
  · exact targetsIn_of_subset (h d old field hf) le
  · cases List.mem_singleton.mp new
    exact targetsIn_of_subset (own field hf) le

/-- Keeping the first model of each kind and name loses no model that is named. -/
theorem Closed.dedupe (h : Closed models) : Closed (dedupe models) :=
  fun c hc field hf => (h c ((dedupe_sublist models).subset hc) field hf).mono fun _ =>
    mem_keys_dedupe.mpr

end DataModel

/-! ## The class of a choice -/

namespace ToolSelection

variable {s : ToolSelection} {tools : List DataType}

/-- A choice names what the tools name. -/
theorem targets_choiceType {t : DataType} (h : s.choiceType tools = .ok t) :
    t.targets = DataType.targetsOfAll tools := by
  have wrapped (choice : DataType) :
      (if s.canSelectMany then DataType.listOf choice else choice).targets = choice.targets := by
    split <;> rfl
  cases tools with
  | nil => cases h
  | cons first rest =>
      cases rest with
      | nil =>
          cases h
          rw [wrapped]
          simp [DataType.targetsOfAll]
      | cons second more =>
          cases h
          exact wrapped _

theorem choiceClass_eq_ok {c : DataClass} (h : s.choiceClass tools = .ok c) :
    ∃ type, s.choiceType tools = .ok type ∧
      (Identifier.resolve .camel s.toolsField).identifier ≠ "" ∧
      c = { name := (Identifier.resolve .pascal s.className).identifier
            alias? := (Identifier.resolve .pascal s.className).alias?
            fields := [{
              name := (Identifier.resolve .camel s.toolsField).identifier
              type := type
              alias? := (Identifier.resolve .camel s.toolsField).alias? }] } := by
  unfold choiceClass at h
  by_cases empty : (Identifier.resolve .camel s.toolsField).identifier = ""
  · simp only [if_pos empty] at h
    cases h
  · simp only [if_neg empty] at h
    cases typed : s.choiceType tools with
    | error e =>
        rw [typed] at h
        cases h
    | ok type =>
        rw [typed] at h
        cases h
        exact ⟨type, rfl, empty, rfl⟩

theorem targetsIn_choiceClass {c : DataClass} (h : s.choiceClass tools = .ok c)
    {keys : DataModel.Kind × String → Prop} (named : ∀ t ∈ tools, t.TargetsIn keys) :
    c.TargetsIn keys := by
  obtain ⟨type, typed, -, rfl⟩ := choiceClass_eq_ok h
  intro field hf key hk
  cases List.mem_singleton.mp hf
  rw [targets_choiceType typed, DataType.mem_targetsOfAll] at hk
  obtain ⟨t, ht, there⟩ := hk
  exact named t ht key there

end ToolSelection

/-! ## Lists of tools -/

namespace ToolAdapter

variable {adapter : ToolAdapter} {tools : List Tool} {set : ToolSet}

theorem convertTool_targetsPresent {tool : Tool} {c : Conversion}
    (h : adapter.convertTool tool = .ok c) : TargetsPresent c.root c.models := by
  obtain ⟨schema, -, converted⟩ := convertTool_eq_ok h
  exact .of_convert converted

theorem convertTool_targetsPresent_of_mem {conversions : List Conversion}
    (each : List.Forall₂ (fun tool c => adapter.convertTool tool = .ok c) tools conversions)
    {c : Conversion} (mem : c ∈ conversions) : TargetsPresent c.root c.models := by
  induction each with
  | nil => cases mem
  | cons one _ ih =>
      rcases List.mem_cons.mp mem with rfl | mem
      · exact convertTool_targetsPresent one
      · exact ih mem

/-- The models of tools name only models of the list, and so do the types of the tools. -/
theorem convertTools_closed (h : adapter.convertTools tools = .ok set) :
    DataModel.Closed set.models ∧
      ∀ t ∈ set.tools, t.TargetsIn (· ∈ set.models.map DataModel.key) := by
  obtain ⟨conversions, each, models, roots, -⟩ := convertTools_eq_ok h
  have present (c : Conversion) (mem : c ∈ conversions) : TargetsPresent c.root c.models :=
    convertTool_targetsPresent_of_mem each mem
  rw [models, roots]
  constructor
  · apply DataModel.Closed.flatten
    intro own mem
    obtain ⟨c, hc, rfl⟩ := List.mem_map.mp mem
    exact (present c hc).fields
  · intro t ht
    obtain ⟨c, hc, rfl⟩ := List.mem_map.mp ht
    apply DataModel.targetsIn_of_subset (present c hc).root
    intro m hm
    exact List.mem_flatten_of_mem (List.mem_map_of_mem hc) hm

/-- **The models of tools complete an empty registry**, with the class of a choice or without it,
and with all their repetitions or only the first model of each kind and name. -/
theorem convertTools_completes (h : adapter.convertTools tools = .ok set) {s : ToolSelection}
    {c : DataClass} (choice : s.choiceClass set.tools = .ok c) :
    ∀ models ∈ [set.models, set.models ++ [.ofClass c]],
      Registry.CompletedBy models ∧ Registry.CompletedBy (DataModel.dedupe models) := by
  obtain ⟨tools, types⟩ := convertTools_closed h
  have both : DataModel.Closed (set.models ++ [.ofClass c]) :=
    tools.append_class (ToolSelection.targetsIn_choiceClass choice types)
  have closed : ∀ models ∈ [set.models, set.models ++ [.ofClass c]], DataModel.Closed models := by
    intro models mem
    rcases List.mem_pair.mp mem with rfl | rfl
    · exact tools
    · exact both
  intro models mem
  constructor
  · exact Registry.completedBy_of_closed (closed models mem)
  · exact Registry.completedBy_of_closed (closed models mem).dedupe

/-- Two tools whose classes have one name; the arguments of the first name themselves in a list. -/
def clashingTools : List Tool :=
  [{ name := "get-user", inputSchema? := some (.obj [("type", .str "object"),
      ("properties", .obj [("friends", .obj [("type", .str "array"),
        ("items", .obj [("$ref", .str "#")])])])]) },
    { name := "get_user" }]

/-- The class of the choice has the name of the two classes as well. -/
theorem convertTools_completes_clashingTools : ∃ set c,
    ({} : ToolAdapter).convertTools clashingTools = .ok set ∧
      ({ className := "GetUserTool" } : ToolSelection).choiceClass set.tools = .ok c ∧
      c.name = "GetUserTool" ∧ Registry.CompletedBy (set.models ++ [.ofClass c]) := by
  have named : ((({} : ToolAdapter).convertTools clashingTools).bind fun set =>
      (({ className := "GetUserTool" } : ToolSelection).choiceClass set.tools).map
        DataClass.name).toOption = some "GetUserTool" := by decide +kernel
  cases converted : ({} : ToolAdapter).convertTools clashingTools with
  | error e =>
      rw [converted] at named
      cases named
  | ok set =>
      cases choice : ({ className := "GetUserTool" } : ToolSelection).choiceClass set.tools with
      | error e =>
          simp only [converted, choice, Except.bind, Except.map, Except.toOption] at named
          cases named
      | ok c =>
          simp only [converted, choice, Except.bind, Except.map, Except.toOption] at named
          have both : set.models ++ [.ofClass c] ∈ [set.models, set.models ++ [.ofClass c]] := by
            simp
          exact ⟨set, c, rfl, choice, Option.some.inj named,
            (convertTools_completes converted choice _ both).1⟩

end ToolAdapter

end SchemaLoom
