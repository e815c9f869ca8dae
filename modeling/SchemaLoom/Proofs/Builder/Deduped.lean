import SchemaLoom.Proofs.Builder.Merge
import SchemaLoom.Proofs.Model.Repeated
import SchemaLoom.Proofs.Model.Reused

set_option autoImplicit false

/-! # Registering every model once

A conversion may give a model more than once. Registering it again starts its type over in its old
place, so a registry that holds the entry of a model is the same after the model is registered
again (`Registry.withModel_of_holds`). While a list is registered model by model, the registry holds
the entry of every model whose kind and name have been seen, as long as models that share them are
equal; hence the models that `DataModel.dedupe` leaves out are those that change nothing.
-/

namespace SchemaLoom

/-- Giving a name the value that it has changes nothing. -/
theorem Entries.insert_of_get? {α : Type} {name : String} {value : α} {entries : Entries α}
    (h : get? name entries = some value) : insert name value entries = entries := by
  induction entries with
  | nil => cases h
  | cons e rest ih =>
      obtain ⟨n, a⟩ := e
      by_cases same : n = name
      · subst same
        rw [get?_cons_self] at h
        cases h
        simp [insert]
      · rw [get?_cons_of_ne same] at h
        rw [insert, if_neg same, ih h]

/-! ## The first of every kind and name -/

namespace DataModel

/-- The models of a list before which no other one has their kind and name. -/
def firsts (models : List DataModel) : List DataModel :=
  (models.zipIdx.filter fun (m, i) => ∀ before ∈ models.take i, before.key ≠ m.key).map Prod.fst

/-- Models that share kind and name are equal. -/
def Agreeing (models : List DataModel) : Prop :=
  ∀ m ∈ models, ∀ m' ∈ models, m.kind = m'.kind → m.name = m'.name → m = m'

instance (models : List DataModel) : Decidable (Agreeing models) :=
  inferInstanceAs (Decidable (∀ m ∈ models, ∀ m' ∈ models, _))

theorem Agreeing.of_not_reused {models : List DataModel}
    (once : ∀ name, ¬ Reused name models) : Agreeing models := by
  intro m hm m' hm' kind name
  by_contra differ
  exact once m'.name ⟨m, hm, m', hm', kind, name, rfl, differ⟩

/-- What is kept is told by the place alone: the key has not been seen, and it is new there. -/
theorem keepFirst_eq_filter (seen : List (Kind × String)) (models : List DataModel) :
    keepFirst seen models = (models.zipIdx.filter fun (m, i) =>
      m.key ∉ seen ∧ ∀ before ∈ models.take i, before.key ≠ m.key).map Prod.fst := by
  induction models generalizing seen with
  | nil => rfl
  | cons m rest ih =>
      -- Behind the first model, a key is new if it is new in the rest and not the one of the first.
      have later : ((rest.zipIdx 1).filter fun (m', i) =>
            m'.key ∉ seen ∧ ∀ before ∈ (m :: rest).take i, before.key ≠ m'.key).map Prod.fst
          = keepFirst (m.key :: seen) rest := by
        rw [ih, List.zipIdx_succ, List.filter_map, List.map_map]
        refine congrArg (List.map _) (List.filter_congr ?_)
        rintro ⟨m', i⟩ -
        show decide _ = decide _
        rw [decide_eq_decide, List.take_succ_cons, List.forall_mem_cons, List.mem_cons, not_or,
          Ne, eq_comm]
        tauto
      by_cases h : m.key ∈ seen
      · have same : keepFirst (m.key :: seen) rest = keepFirst seen rest := by
          rw [ih, ih]
          refine congrArg (List.map _) (List.filter_congr ?_)
          rintro ⟨m', i⟩ -
          show decide _ = decide _
          have known : m'.key = m.key → m'.key ∈ seen := fun eq => eq ▸ h
          rw [decide_eq_decide, List.mem_cons]
          tauto
        rw [keepFirst, if_pos h, ← same, ← later, List.zipIdx_cons, List.filter_cons_of_neg]
        simp [h]
      · rw [keepFirst, if_neg h, ← later, List.zipIdx_cons, List.filter_cons_of_pos]
        · rfl
        · simp [h]

theorem dedupe_eq_firsts (models : List DataModel) : dedupe models = firsts models := by
  rw [dedupe, keepFirst_eq_filter, firsts]
  congr 2
  funext ⟨m, i⟩
  simp

theorem keepFirst_keepFirst (seen : List (Kind × String)) (models : List DataModel) :
    keepFirst seen (keepFirst seen models) = keepFirst seen models := by
  induction models generalizing seen with
  | nil => rfl
  | cons m rest ih =>
      by_cases h : m.key ∈ seen
      · rw [keepFirst, if_pos h, ih]
      · rw [keepFirst, if_neg h, keepFirst, if_neg h, ih]

end DataModel

/-! ## Registries that hold models -/

namespace Registry

open DataModel (Agreeing)

/-- The registry with the entry of a model. -/
def withModel (r : Registry) : DataModel → Registry
  | .ofClass c => r.withClass c.name (.ofClass c)
  | .ofEnum e => r.withEnum e.name (.ofEnum e)

/-- The registry has the entry of the model under its name. -/
def Holds (r : Registry) : DataModel → Prop
  | .ofClass c => Entries.get? c.name r.classes = some (.ofClass c)
  | .ofEnum e => Entries.get? e.name r.enums = some (.ofEnum e)

variable {r : Registry} {m m' : DataModel}

theorem merge_cons (r : Registry) (m : DataModel) (rest : List DataModel) :
    r.merge (m :: rest) = (r.withModel m).merge rest := by
  cases m <;> rfl

theorem withModel_of_holds (h : r.Holds m) : r.withModel m = r := by
  cases m with
  | ofClass c => rw [withModel, withClass, Entries.insert_of_get? h]
  | ofEnum e => rw [withModel, withEnum, Entries.insert_of_get? h]

theorem holds_withModel_self : (r.withModel m).Holds m := by
  cases m with
  | ofClass c => exact Entries.get?_insert_self ..
  | ofEnum e => exact Entries.get?_insert_self ..

/-- A model of another kind or name takes nothing away. -/
theorem Holds.withModel (h : r.Holds m') (other : m'.key ≠ m.key) : (r.withModel m).Holds m' := by
  have differ (kind : m'.kind = m.kind) : m'.name ≠ m.name :=
    fun name => other (Prod.ext kind name)
  cases m with
  | ofClass c =>
      cases m' with
      | ofClass c' => exact (Entries.get?_insert_of_ne (differ rfl) _ _).trans h
      | ofEnum e' => exact h
  | ofEnum e =>
      cases m' with
      | ofClass c' => exact h
      | ofEnum e' => exact (Entries.get?_insert_of_ne (differ rfl) _ _).trans h

/-- Models whose keys have been seen may be left out where the registry holds their entries. -/
theorem merge_keepFirst {models : List DataModel} (agreeing : Agreeing models)
    {seen : List (DataModel.Kind × String)} (held : ∀ m ∈ models, m.key ∈ seen → r.Holds m) :
    r.merge (DataModel.keepFirst seen models) = r.merge models := by
  induction models generalizing r seen with
  | nil => rfl
  | cons m rest ih =>
      have others : Agreeing rest := fun a ha b hb =>
        agreeing a (List.mem_cons_of_mem _ ha) b (List.mem_cons_of_mem _ hb)
      by_cases h : m.key ∈ seen
      · rw [DataModel.keepFirst, if_pos h, merge_cons,
          withModel_of_holds (held m List.mem_cons_self h)]
        exact ih others fun a ha => held a (List.mem_cons_of_mem _ ha)
      · rw [DataModel.keepFirst, if_neg h, merge_cons, merge_cons]
        -- From here on the registry holds the entry of `m`, and of all it held before.
        refine ih others fun a ha known => ?_
        by_cases same : a.key = m.key
        · have equal : a = m := agreeing a (List.mem_cons_of_mem _ ha) m List.mem_cons_self
            (congrArg Prod.fst same) (congrArg Prod.snd same)
          rw [equal]
          exact holds_withModel_self
        · have before : a.key ∈ seen := (List.mem_cons.mp known).resolve_left same
          exact (held a (List.mem_cons_of_mem _ ha) before).withModel same

/-- Both lists register without failure, and an empty registry becomes the same of either. -/
def Interchangeable (models more : List DataModel) : Prop :=
  ∃ r warnings warnings', ({} : Registry).configure models = (r, .ok warnings) ∧
    ({} : Registry).configure more = (r, .ok warnings')

theorem interchangeable_dedupe {models : List DataModel} (agreeing : Agreeing models) :
    Interchangeable models (DataModel.dedupe models) := by
  have merged : ({} : Registry).merge (DataModel.dedupe models) = ({} : Registry).merge models :=
    merge_keepFirst agreeing nofun
  have deduped := configure_eq {} (DataModel.dedupe models)
  rw [merged] at deduped
  exact ⟨_, _, _, configure_eq {} models, deduped⟩

end Registry

open DataModel (Agreeing dedupe firsts)

/-- **Keeping the first model of every kind and name does not change what is registered**, if models
that share them are equal, as those of a conversion are that warns of no reused name. What is kept
are the models before which no other one has their kind and name, and keeping the first ones again
changes nothing. -/
theorem configure_dedupe :
    (∀ models, Agreeing models → Registry.Interchangeable models (dedupe models)) ∧
    (∀ document rootName c, convert document rootName = .ok c →
      (∀ name, .nameReused name ∉ c.warnings) →
        Registry.Interchangeable c.models (dedupe c.models)) ∧
    ∀ models, dedupe models = firsts models ∧ dedupe (dedupe models) = dedupe models := by
  refine ⟨fun models => Registry.interchangeable_dedupe, ?_, fun models => ?_⟩
  · intro document rootName c converted silent
    refine Registry.interchangeable_dedupe (.of_not_reused fun name => ?_)
    rw [← convert_told converted name]
    exact silent name
  · exact ⟨DataModel.dedupe_eq_firsts models, DataModel.keepFirst_keepFirst [] models⟩

/-- The class `Comment` is made twice, which nobody sees in the registry. -/
theorem configure_dedupe_commentThread : ∃ c, convert commentThread "Thread" = .ok c ∧
    (∀ name, .nameReused name ∉ c.warnings) ∧ Agreeing c.models ∧ dedupe c.models ≠ c.models ∧
    Registry.Interchangeable c.models (dedupe c.models) := by
  have seen : (convert commentThread "Thread").toOption.map
      (fun c => (c.warnings, decide (Agreeing c.models), decide (dedupe c.models = c.models)))
      = some (List.replicate 2 (.unresolvedCycle "Comment" "#/$defs/Comment"), true, false) := by
    decide +kernel
  obtain ⟨c, converted, same⟩ := exists_of_toOption seen
  obtain ⟨warnings, agree, fewer⟩ : _ ∧ _ ∧ _ := by simpa using same
  have silent (name : String) : .nameReused name ∉ c.warnings := by
    rw [warnings]
    simp
  have both : Registry.Interchangeable c.models (dedupe c.models) ∧
      Registry.Interchangeable c.models (dedupe c.models) :=
    ⟨configure_dedupe.1 c.models agree, configure_dedupe.2.1 _ _ c converted silent⟩
  exact ⟨c, converted, silent, agree, fewer, both.1⟩

end SchemaLoom
