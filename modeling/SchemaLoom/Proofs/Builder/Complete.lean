import SchemaLoom.Proofs.Builder.Merge
import SchemaLoom.Proofs.References.Closed

set_option autoImplicit false

/-! # Complete registries

A registry is complete when every name that a property refers to is the name of a class or an enum,
which is what `finish` looks up. Turning a type into a field type keeps the names it refers to, and
every entry that a plan leaves is the entry of a model of the list. So if the fields of the models
name only models of the list, a registry that was empty is complete once they are registered.
-/

namespace SchemaLoom

/-! ## Names in field types -/

namespace FieldType

@[simp] theorem targets_toOptional (type : FieldType) : type.toOptional.targets = type.targets := by
  cases type <;> simp [toOptional, targets]

@[simp] theorem targets_withOptional (o : Bool) (type : FieldType) :
    (type.withOptional o).targets = type.targets := by
  cases o <;> simp [withOptional]

theorem targets_ofLeaf (l : Leaf) : (ofLeaf l).targets = (l.target?.toList).map Prod.snd := by
  cases l <;> simp [ofLeaf, targets, Leaf.target?]

mutual

/-- The field type refers to the names of the models that the type names, in the same order. -/
theorem targets_ofDataType (context : String) :
    ∀ t : DataType, (ofDataType context t).1.targets = t.targets.map Prod.snd
  | .leaf l o => by
      simp only [ofDataType, targets_withOptional, DataType.targets]
      exact targets_ofLeaf l
  | .list item o => by
      simp only [ofDataType, targets_withOptional, targets, DataType.targets]
      exact targets_ofDataType context item
  | .union members o => by
      simp only [ofDataType, targets_withOptional, targets, DataType.targets]
      exact targets_ofDataTypes context members

theorem targets_ofDataTypes (context : String) :
    ∀ types : List DataType, targetsOfAll (ofDataTypes context types).1
      = (DataType.targetsOfAll types).map Prod.snd
  | [] => rfl
  | t :: rest => by
      simp only [ofDataTypes, targetsOfAll, DataType.targetsOfAll, List.map_append]
      rw [targets_ofDataType context t, targets_ofDataTypes context rest]

end

end FieldType

/-! ## What is looked up at the end -/

namespace Registry

variable {r : Registry}

theorem danglingOf?_eq_none_iff {property : PropertyEntry} :
    r.danglingOf? property = none ↔
      ∀ type, property.type? = some type → ∀ target ∈ type.targets, r.defines target = true := by
  unfold danglingOf?
  cases property.type? with
  | none => simp
  | some type => simp [List.find?_eq_none]

theorem danglingIn?_eq_none_iff {owner : String} {properties : Entries PropertyEntry} :
    r.danglingIn? owner properties = none ↔ ∀ e ∈ properties, r.danglingOf? e.2 = none := by
  induction properties with
  | nil => simp [danglingIn?]
  | cons e rest ih =>
      obtain ⟨name, property⟩ := e
      rw [danglingIn?, List.forall_mem_cons, ← ih]
      cases r.danglingOf? property <;> simp

theorem firstDangling?_eq_none_iff {classes : Entries ClassEntry} :
    r.firstDangling? classes = none ↔
      ∀ e ∈ classes, ∀ p ∈ e.2.properties, r.danglingOf? p.2 = none := by
  induction classes with
  | nil => simp [firstDangling?]
  | cons e rest ih =>
      obtain ⟨name, entry⟩ := e
      have here : r.danglingIn? name entry.properties = none ↔ _ := danglingIn?_eq_none_iff
      rw [firstDangling?, List.forall_mem_cons, ← ih, ← here]
      cases r.danglingIn? name entry.properties <;> simp

/-- A registry is complete exactly where no property refers to a name that nothing has. -/
theorem finish_eq_ok_iff : r.finish = .ok () ↔
    ∀ e ∈ r.classes, ∀ p ∈ e.2.properties, r.danglingOf? p.2 = none := by
  rw [← firstDangling?_eq_none_iff]
  unfold finish
  cases r.firstDangling? r.classes <;> simp

/-! ## Registering closed lists -/

/-- Every entry of a class is that of a class of the list, or was there before. -/
theorem mem_classes_merge {models : List DataModel} {e : String × ClassEntry}
    (h : e ∈ (r.merge models).classes) :
    e ∈ r.classes ∨ ∃ c, .ofClass c ∈ models ∧ e.2 = .ofClass c := by
  rcases Entries.mem_of_mem_insertAll h with before | new
  · exact Or.inl before
  · obtain ⟨c, hc, rfl⟩ := List.mem_map.mp new
    obtain ⟨m, hm, is⟩ := List.mem_filterMap.mp hc
    cases m with
    | ofClass d =>
        cases is
        exact Or.inr ⟨c, hm, rfl⟩
    | ofEnum _ => cases is

/-- Every property of the entry of a class is that of a field. -/
theorem mem_properties_ofClass {c : DataClass} {p : String × PropertyEntry}
    (h : p ∈ (ClassEntry.ofClass c).properties) :
    ∃ field ∈ c.fields, p.2 = .ofField c.name field := by
  have inserted : p ∈ Entries.insertAll [] (PropertyEntry.ofFields c.name c.fields) := by
    rwa [Entries.insertAll_nil_eq_lastWins]
  rcases Entries.mem_of_mem_insertAll inserted with before | new
  · cases before
  · obtain ⟨field, hf, rfl⟩ := List.mem_map.mp new
    exact ⟨field, List.mem_of_mem_filter hf, rfl⟩

/-- The name of a model of the list is defined. -/
theorem defines_merge {models : List DataModel} {m : DataModel} (h : m ∈ models) :
    (r.merge models).defines m.name = true := by
  cases m with
  | ofClass c =>
      have there : c ∈ DataModel.classes models := List.mem_filterMap.mpr ⟨_, h, rfl⟩
      have named : Entries.contains c.name (r.merge models).classes = true := by
        apply Entries.contains_insertAll
        rw [Entries.names_map]
        exact List.mem_map_of_mem there
      exact Bool.or_eq_true_iff.mpr (Or.inl named)
  | ofEnum e =>
      have there : e ∈ DataModel.enums models := List.mem_filterMap.mpr ⟨_, h, rfl⟩
      have named : Entries.contains e.name (r.merge models).enums = true := by
        apply Entries.contains_insertAll
        rw [Entries.names_map]
        exact List.mem_map_of_mem there
      exact Bool.or_eq_true_iff.mpr (Or.inr named)

end Registry

/-- Every model that a field of a class of the list names is in the list. -/
def DataModel.Closed (models : List DataModel) : Prop :=
  ∀ c, .ofClass c ∈ models → c.TargetsIn (· ∈ models.map DataModel.key)

namespace Registry

/-- An empty registry takes the models without an error and is complete afterwards. -/
def CompletedBy (models : List DataModel) : Prop :=
  ∃ r, ({} : Registry).configure models = (r, .ok (Plan.ofModels models).warnings) ∧
    r.finish = .ok ()

/-- **Models whose fields name only models of the list complete an empty registry.** Which of
several models of one name wins does not matter, as its name is defined by any of them. -/
theorem completedBy_of_closed {models : List DataModel} (closed : DataModel.Closed models) :
    CompletedBy models := by
  refine ⟨({} : Registry).merge models, configure_eq {} models, ?_⟩
  rw [finish_eq_ok_iff]
  intro e he p hp
  rcases mem_classes_merge he with before | ⟨c, hc, entry⟩
  · cases before
  · rw [entry] at hp
    obtain ⟨field, hf, property⟩ := mem_properties_ofClass hp
    rw [danglingOf?_eq_none_iff, property]
    rintro type typed target ht
    cases typed
    rw [FieldType.targets_ofDataType] at ht
    obtain ⟨key, hkey, rfl⟩ := List.mem_map.mp ht
    obtain ⟨m, hm, rfl⟩ := List.mem_map.mp (closed c hc field hf key hkey)
    exact defines_merge hm

end Registry

end SchemaLoom
