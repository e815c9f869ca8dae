import SchemaLoom.Proofs.Model.Reused
import SchemaLoom.Tool.Convert

set_option autoImplicit false

/-! # Names that several tools use

The tools of a list are converted apart from each other, and what they give is written one after
the other. So is what they warn of: a name that a tool uses for two different models by itself is
reported, and no other. Where two tools use one name for different models, nothing tells of it, and
the later model goes when only the first of every kind and name is kept.
-/

namespace SchemaLoom

open DataModel (Reused)

/-! ## Lists of models -/

namespace DataModel

/-- Of the models of the name, those on the one side are those on the other side. -/
def Agree (name : String) (models more : List DataModel) : Prop :=
  ∀ m ∈ models, ∀ m' ∈ more, m.kind = m'.kind → m.name = name → m'.name = name → m = m'

variable {name : String} {models more : List DataModel}

theorem not_reused_append : ¬ Reused name (models ++ more) ↔
    ¬ Reused name models ∧ ¬ Reused name more ∧ Agree name models more := by
  constructor
  · intro once
    refine ⟨fun own => once (own.mono (List.subset_append_left ..)),
      fun own => once (own.mono (List.subset_append_right ..)), ?_⟩
    intro m hm m' hm' kind first second
    by_contra differ
    exact once ⟨m, List.mem_append_left _ hm, m', List.mem_append_right _ hm', kind, first, second,
      differ⟩
  · rintro ⟨left, right, agree⟩ ⟨m, hm, m', hm', kind, first, second, differ⟩
    rcases List.mem_append.mp hm with hm | hm
    · rcases List.mem_append.mp hm' with hm' | hm'
      · exact left ⟨m, hm, m', hm', kind, first, second, differ⟩
      · exact differ (agree m hm m' hm' kind first second)
    · rcases List.mem_append.mp hm' with hm' | hm'
      · exact differ (agree m' hm' m hm kind.symm second first).symm
      · exact right ⟨m, hm, m', hm', kind, first, second, differ⟩

/-- Models written one after the other reuse no name if none of the lists does and any two agree. -/
theorem not_reused_flatten {lists : List (List DataModel)} : ¬ Reused name lists.flatten ↔
    (∀ models ∈ lists, ¬ Reused name models) ∧ lists.Pairwise (Agree name) := by
  induction lists with
  | nil => simp [not_reused_nil]
  | cons first rest ih =>
      have agree : Agree name first rest.flatten ↔ ∀ models ∈ rest, Agree name first models := by
        constructor
        · intro h models mem m hm m' hm'
          exact h m hm m' (List.mem_flatten_of_mem mem hm')
        · intro h m hm m' hm'
          obtain ⟨models, mem, there⟩ := List.mem_flatten.mp hm'
          exact h models mem m hm m' there
      rw [List.flatten_cons, not_reused_append, ih, agree, List.forall_mem_cons,
        List.pairwise_cons]
      tauto

end DataModel

open DataModel (Agree)

/-! ## Lists of tools -/

namespace ToolAdapter

variable {adapter : ToolAdapter} {tools : List Tool} {set : ToolSet}

/-- What tools give is what each of them gives, one after the other. -/
theorem convertTools_eq_ok (h : adapter.convertTools tools = .ok set) :
    ∃ conversions, List.Forall₂ (fun tool c => adapter.convertTool tool = .ok c) tools conversions ∧
      set.models = (conversions.map Conversion.models).flatten ∧
      set.tools = conversions.map Conversion.root ∧
      set.warnings = (conversions.map Conversion.warnings).flatten := by
  induction tools generalizing set with
  | nil =>
      cases h
      exact ⟨[], .nil, rfl, rfl, rfl⟩
  | cons tool rest ih =>
      unfold convertTools at h
      cases one : adapter.convertTool tool with
      | error e =>
          rw [one] at h
          cases h
      | ok c =>
          cases more : adapter.convertTools rest with
          | error e =>
              rw [one, more] at h
              cases h
          | ok others =>
              rw [one, more] at h
              cases h
              obtain ⟨conversions, each, models, types, warnings⟩ := ih more
              refine ⟨c :: conversions, .cons one each, ?_, ?_, ?_⟩
              · exact congrArg (c.models ++ ·) models
              · exact congrArg (c.root :: ·) types
              · exact congrArg (c.warnings ++ ·) warnings

/-- A tool that is converted has a wrapper, and it is the wrapper that is converted. -/
theorem convertTool_eq_ok {tool : Tool} {c : Conversion} (h : adapter.convertTool tool = .ok c) :
    ∃ schema, adapter.wrapper tool = .ok schema ∧
      convert schema (adapter.toolClass tool) = .ok c := by
  unfold convertTool at h
  cases wrapped : adapter.wrapper tool with
  | error e =>
      rw [wrapped] at h
      cases h
  | ok schema =>
      rw [wrapped] at h
      exact ⟨schema, rfl, h⟩

/-- The conversion of a tool warns of exactly the names that its models reuse. -/
theorem convertTool_told {tool : Tool} {c : Conversion} (h : adapter.convertTool tool = .ok c)
    (name : String) : .nameReused name ∈ c.warnings ↔ Reused name c.models := by
  obtain ⟨schema, -, converted⟩ := convertTool_eq_ok h
  exact convert_told converted name

theorem convertTool_told_of_mem {conversions : List Conversion}
    (each : List.Forall₂ (fun tool c => adapter.convertTool tool = .ok c) tools conversions)
    {c : Conversion} (mem : c ∈ conversions) (name : String) :
    .nameReused name ∈ c.warnings ↔ Reused name c.models := by
  induction each with
  | nil => cases mem
  | cons one _ ih =>
      rcases List.mem_cons.mp mem with rfl | mem
      · exact convertTool_told one name
      · exact ih mem

/-- **Tools warn of a reused name exactly where one of them reuses it by itself.** Their models
reuse further names where two tools do not agree on a name, and of these nothing is said. -/
theorem convertTools_nameReused_iff (h : adapter.convertTools tools = .ok set) :
    ∃ conversions, List.Forall₂ (fun tool c => adapter.convertTool tool = .ok c) tools conversions ∧
      set.models = (conversions.map Conversion.models).flatten ∧
      ∀ name,
        (.nameReused name ∈ set.warnings ↔ ∃ c ∈ conversions, Reused name c.models) ∧
        (Reused name set.models ↔ .nameReused name ∈ set.warnings ∨
          ¬ (conversions.map Conversion.models).Pairwise (Agree name)) := by
  obtain ⟨conversions, each, models, -, warnings⟩ := convertTools_eq_ok h
  refine ⟨conversions, each, models, fun name => ?_⟩
  have warned : .nameReused name ∈ set.warnings ↔ ∃ c ∈ conversions, Reused name c.models := by
    rw [warnings, ← List.flatMap_def, List.mem_flatMap]
    exact exists_congr fun c => and_congr_right fun mem => convertTool_told_of_mem each mem name
  refine ⟨warned, ?_⟩
  rw [warned, models, ← not_iff_not, DataModel.not_reused_flatten]
  simp only [List.forall_mem_map, not_or, not_exists, not_and, not_not]

/-- A tool with an argument that is named like the class of the tool. -/
def nestedNames : Tool :=
  { name := "pick", inputSchema? := some (.obj [("properties", .obj [("pickTool",
    .obj [("properties", .obj [("id", .obj [("type", .str "integer")])])])])]) }

theorem convertTools_nameReused_iff_nestedNames :
    ∃ set, ({} : ToolAdapter).convertTools [nestedNames] = .ok set ∧
      Reused "PickTool" set.models ∧ .nameReused "PickTool" ∈ set.warnings := by
  have warned : (({} : ToolAdapter).convertTools [nestedNames]).toOption.map ToolSet.warnings
      = some [.nameReused "PickTool"] := by decide +kernel
  obtain ⟨set, converted, warnings⟩ := exists_of_toOption warned
  have told : .nameReused "PickTool" ∈ set.warnings := by
    rw [warnings]
    exact List.mem_singleton_self _
  obtain ⟨conversions, -, -, exactly⟩ := convertTools_nameReused_iff converted
  exact ⟨set, converted, (exactly "PickTool").2.mpr (Or.inl told), told⟩

/-- The class of a tool `get-user` or `get_user` without arguments. -/
def getUserTool (toolName : String) : DataModel :=
  .ofClass
    { name := "GetUserTool"
      fields := [{ name := "name", type := .of (.literalString toolName) }] }

/-- The names of two tools may give one class name. Neither tool reuses it by itself. -/
theorem convertTools_nameReused_silent : ∃ set,
    ({} : ToolAdapter).convertTools [{ name := "get-user" }, { name := "get_user" }] = .ok set ∧
      Reused "GetUserTool" set.models ∧ .nameReused "GetUserTool" ∉ set.warnings := by
  have given : (({} : ToolAdapter).convertTools
      [{ name := "get-user" }, { name := "get_user" }]).toOption.map
        (fun set => (set.models, set.warnings))
      = some ([getUserTool "get-user", getUserTool "get_user"], []) := by decide +kernel
  obtain ⟨set, converted, both⟩ := exists_of_toOption given
  obtain ⟨models, warnings⟩ := Prod.mk.inj both
  refine ⟨set, converted, ?_, ?_⟩
  · rw [models]
    exact ⟨_, List.mem_cons_self, _, List.mem_cons_of_mem _ List.mem_cons_self, rfl, rfl, rfl,
      by decide⟩
  · rw [warnings]
    exact List.not_mem_nil

end ToolAdapter

end SchemaLoom
