import SchemaLoom.Proofs.Baml.Agreement
import SchemaLoom.Proofs.Builder.Complete
import SchemaLoom.Proofs.Builder.Dangling
import SchemaLoom.Proofs.Builder.Deduped

set_option autoImplicit false

/-! # What a name stands for

A field type calls classes and enums by name alone. After a conversion that warns of no reused name,
such a name stands for one definition of either kind: the models of the kind that have the name are
equal, and the registry holds their entry. The kinds themselves have one space of names each. A title
may name a class in one place and an enum in another, which no warning is about; both are registered,
and only there does a name stand for two definitions.
-/

namespace SchemaLoom

/-! ## Names in commands -/

theorem FieldType.NamesAt.mem_targets {type : FieldType} {address : List Nat} {name : String}
    (h : type.NamesAt address name) : name ∈ type.targets := by
  have search := findsFirst_targets (fun other => decide (other = name)) type
  cases found : type.targets.find? fun other => decide (other = name) with
  | none =>
      rw [found] at search
      exact (search address name ⟨h, decide_eq_true rfl⟩).elim
  | some other =>
      have same : other = name := by simpa using List.find?_some found
      rw [← same]
      exact List.mem_of_find?_eq_some found

/-- The command gives a property a type in which the name occurs, at any depth. -/
inductive BuildCommand.Names : BuildCommand → String → Prop where
  | property {owner name : String} {type : FieldType} {address : List Nat} {target : String}
      (named : type.NamesAt address target) : Names (.addProperty owner name type) target

/-- A name in a command of a plan is one that a field of a class refers to. -/
theorem Plan.exists_field_of_names {models : List DataModel} {command : BuildCommand}
    {target : String} (planned : command ∈ (Plan.ofModels models).commands)
    (named : command.Names target) :
    ∃ c, .ofClass c ∈ models ∧ ∃ field ∈ c.fields, ∃ key ∈ field.type.targets, key.2 = target := by
  cases named with
  | @property owner name type address _ named =>
      rw [Plan.ofModels_eq] at planned
      obtain ⟨m, hm, made⟩ := List.mem_flatMap.mp planned
      have added : BuildCommand.addProperty owner name type
          ∈ (Plan.ofModel m).commands.filter BuildCommand.addsPart :=
        List.mem_filter.mpr ⟨made, rfl⟩
      rw [Plan.filter_ofModel] at added
      obtain ⟨part, hpart, same⟩ := List.mem_map.mp added
      cases m with
      | ofClass c =>
          obtain ⟨field, hfield, rfl⟩ := List.mem_map.mp hpart
          cases same
          have target := named.mem_targets
          rw [FieldType.targets_ofDataType] at target
          obtain ⟨key, hkey, name⟩ := List.mem_map.mp target
          exact ⟨c, hm, field, List.mem_of_mem_filter hfield, key, hkey, name⟩
      | ofEnum e =>
          obtain ⟨value, -, rfl⟩ := List.mem_map.mp hpart
          cases same

/-! ## Names in a registry -/

namespace DataModel

/-- A class and an enum of the list have the name. -/
def SharedByKinds (name : String) (models : List DataModel) : Prop :=
  (.classes, name) ∈ models.map key ∧ (.enums, name) ∈ models.map key

/-- The parts of a list that are made of the models of one kind have the names of these models. -/
theorem mem_map_name_filterMap {α : Type} {part? : DataModel → Option α} {nameOf : α → String}
    {kind : Kind}
    (same : ∀ m : DataModel, (part? m).map nameOf = if m.kind = kind then some m.name else none)
    {name : String} {models : List DataModel} :
    name ∈ (models.filterMap part?).map nameOf ↔ (kind, name) ∈ models.map key := by
  rw [List.map_filterMap, List.mem_filterMap, List.mem_map]
  refine exists_congr fun m => and_congr_right fun _ => ?_
  rw [same, key, Prod.mk.injEq]
  by_cases own : m.kind = kind
  · simp [own]
  · simp [own]

end DataModel

namespace Registry

open DataModel (Agreeing SharedByKinds)

theorem mem_names_classes_merge {name : String} {models : List DataModel} :
    name ∈ Entries.names (({} : Registry).merge models).classes ↔
      (.classes, name) ∈ models.map DataModel.key := by
  have listed : name ∈ (DataModel.classes models).map DataClass.name ↔
      (.classes, name) ∈ models.map DataModel.key :=
    DataModel.mem_map_name_filterMap fun m => by cases m <;> rfl
  rw [merge, Entries.names_insertAll, Entries.names_map, ← listed]
  simp [Entries.names]

theorem mem_names_enums_merge {name : String} {models : List DataModel} :
    name ∈ Entries.names (({} : Registry).merge models).enums ↔
      (.enums, name) ∈ models.map DataModel.key := by
  have listed : name ∈ (DataModel.enums models).map DataEnum.name ↔
      (.enums, name) ∈ models.map DataModel.key :=
    DataModel.mem_map_name_filterMap fun m => by cases m <;> rfl
  rw [merge, Entries.names_insertAll, Entries.names_map, ← listed]
  simp [Entries.names]

/-- The entry of a model stays where every further model of its kind and name is the model itself. -/
theorem Holds.merge {r : Registry} {m : DataModel} {models : List DataModel} (h : r.Holds m)
    (same : ∀ other ∈ models, m.key = other.key → other = m) : (r.merge models).Holds m := by
  induction models generalizing r with
  | nil => exact h
  | cons first rest ih =>
      rw [merge_cons]
      refine ih ?_ fun other mem => same other (List.mem_cons_of_mem _ mem)
      by_cases again : m.key = first.key
      · rw [same first List.mem_cons_self again]
        exact holds_withModel_self
      · exact h.withModel again

/-- Models that agree where they share kind and name are all held in the end. -/
theorem holds_merge (r : Registry) {models : List DataModel} (agreeing : Agreeing models)
    {m : DataModel} (hm : m ∈ models) : (r.merge models).Holds m := by
  induction models generalizing r with
  | nil => cases hm
  | cons first rest ih =>
      rw [merge_cons]
      rcases List.mem_cons.mp hm with rfl | later
      -- Only models of its own kind and name are written over it, and these are the model again.
      · refine holds_withModel_self.merge fun other mem same => ?_
        exact agreeing other (List.mem_cons_of_mem _ mem) m List.mem_cons_self
          (congrArg Prod.fst same).symm (congrArg Prod.snd same).symm
      · refine ih _ (fun a ha b hb => ?_) later
        exact agreeing a (List.mem_cons_of_mem _ ha) b (List.mem_cons_of_mem _ hb)

/-- What a name of the models stands for in a registry: a class or an enum, both exactly where the
models have both, and the entry of any model of the name. -/
structure Resolves (r : Registry) (models : List DataModel) (name : String) : Prop where
  defined : name ∈ Entries.names r.classes ∨ name ∈ Entries.names r.enums
  both : (name ∈ Entries.names r.classes ∧ name ∈ Entries.names r.enums) ↔
    SharedByKinds name models
  held : ∀ m ∈ models, m.name = name → r.Holds m

/-- **By-name references stand for one definition of either kind.** If a conversion warns of no reused
name, every name in a command of the plan of its models is registered, as a class and as an enum at
once only if the models have a class and an enum of the name, and what is registered is the entry of
every model of that kind and name. -/
theorem configure_resolves {document : Json} {rootName : String} {c : Conversion}
    (converted : convert document rootName = .ok c)
    (silent : ∀ name, .nameReused name ∉ c.warnings) {command : BuildCommand}
    (planned : command ∈ (Plan.ofModels c.models).commands) {target : String}
    (named : command.Names target) :
    ∃ r warnings, ({} : Registry).configure c.models = (r, .ok warnings) ∧
      r.Resolves c.models target := by
  refine ⟨_, _, configure_eq {} c.models, ?_⟩
  have agreeing : Agreeing c.models := .of_not_reused fun name => by
    rw [← convert_told converted name]
    exact silent name
  obtain ⟨owner, howner, field, hfield, ⟨kind, name⟩, hkey, rfl⟩ :=
    Plan.exists_field_of_names planned named
  have present := (TargetsPresent.of_convert converted).fields owner howner field hfield _ hkey
  constructor
  · rw [mem_names_classes_merge, mem_names_enums_merge]
    cases kind with
    | classes => exact Or.inl present
    | enums => exact Or.inr present
  · rw [mem_names_classes_merge, mem_names_enums_merge]
    exact Iff.rfl
  · exact fun m hm _ => holds_merge {} agreeing hm

/-- A report with a status that one of two words gives, and with details of the same title. -/
def statusReport : Json :=
  .obj [("properties", .obj [
    ("status", .obj [("title", .str "Status"), ("enum", .arr [.str "open", .str "closed"])]),
    ("detail", .obj [("title", .str "Status"),
      ("properties", .obj [("note", .obj [("type", .str "string")])])])])]

/-- The models of the report: an enum and a class are called `Status`. -/
def statusModels : List DataModel :=
  [.ofClass { name := "Report", fields := [
      { name := "status", type := .leaf (.enumRef "Status") true },
      { name := "detail", type := .leaf (.classRef "Status") true }] },
    .ofEnum { name := "Status", values := [
      { name := "Open", alias? := some "open" }, { name := "Closed", alias? := some "closed" }] },
    .ofClass { name := "Status", fields := [{ name := "note", type := .leaf .string true }] }]

theorem convert_statusReport : ∃ c, convert statusReport "Report" = .ok c ∧
    c.warnings = [] ∧ c.models = statusModels := by
  have made : (convert statusReport "Report").toOption.map (fun c => (c.warnings, c.models))
      = some ([], statusModels) := by
    decide +kernel
  obtain ⟨c, converted, same⟩ := exists_of_toOption made
  exact ⟨c, converted, congrArg Prod.fst same, congrArg Prod.snd same⟩

/-- The command for the status, whose type names `Status`. -/
def statusCommand : BuildCommand :=
  .addProperty "Report" "status" (.optional (.leaf (.named "Status")))

theorem statusCommand_mem : statusCommand ∈ (Plan.ofModels statusModels).commands :=
  List.mem_of_getElem? (i := 1) rfl

theorem statusCommand_names : statusCommand.Names "Status" := .property (.inner .named)

theorem configure_resolves_statusReport : ∃ c, convert statusReport "Report" = .ok c ∧
    (∀ name, .nameReused name ∉ c.warnings) ∧
    statusCommand ∈ (Plan.ofModels c.models).commands ∧ statusCommand.Names "Status" ∧
    ∃ r warnings, ({} : Registry).configure c.models = (r, .ok warnings) ∧
      r.Resolves c.models "Status" := by
  obtain ⟨c, converted, warnings, models⟩ := convert_statusReport
  have silent (name : String) : .nameReused name ∉ c.warnings := by
    rw [warnings]
    exact List.not_mem_nil
  have planned : statusCommand ∈ (Plan.ofModels c.models).commands := by
    rw [models]
    exact statusCommand_mem
  exact ⟨c, converted, silent, planned, statusCommand_names,
    configure_resolves converted silent planned statusCommand_names⟩

/-- The name in the command for the status is that of a class and of an enum. -/
theorem statusReport_named_twice : ∃ c, convert statusReport "Report" = .ok c ∧
    (∀ name, .nameReused name ∉ c.warnings) ∧
    ∃ command ∈ (Plan.ofModels c.models).commands, command.Names "Status" ∧
    ∃ r warnings, ({} : Registry).configure c.models = (r, .ok warnings) ∧
      "Status" ∈ Entries.names r.classes ∧ "Status" ∈ Entries.names r.enums := by
  obtain ⟨c, converted, warnings, models⟩ := convert_statusReport
  refine ⟨c, converted, fun name => ?_, ?_⟩
  · rw [warnings]
    exact List.not_mem_nil
  · rw [models]
    refine ⟨statusCommand, statusCommand_mem, statusCommand_names, _, _, configure_eq {} _, ?_⟩
    decide +kernel

end Registry

end SchemaLoom
