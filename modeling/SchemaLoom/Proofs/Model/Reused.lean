import Mathlib.Data.List.InsertIdx
import SchemaLoom.Proofs.Walk.Keeps

set_option autoImplicit false

/-! # Names that are used twice

A conversion may make several models of one kind and name; where they are equal nothing is lost
when only the first is kept. A model is compared with the others at the moment when it is put into
its place, and at no other. This is enough: no model is ever taken away again, so of two different
models the one that comes later finds the other one there, whichever stands first in the list. The
invariant `Progress.Told` says that the warnings so far name exactly the names that the models so
far use for more than one model.
-/

namespace SchemaLoom

/-- Two different models of one kind have the name. -/
def DataModel.Reused (name : String) (models : List DataModel) : Prop :=
  ∃ m ∈ models, ∃ m' ∈ models, m.kind = m'.kind ∧ m.name = name ∧ m'.name = name ∧ m ≠ m'

namespace DataModel

variable {name : String} {models more : List DataModel}

theorem Reused.mono (h : Reused name models) (le : models ⊆ more) : Reused name more := by
  obtain ⟨m, hm, m', hm', rest⟩ := h
  exact ⟨m, le hm, m', le hm', rest⟩

theorem not_reused_nil : ¬ Reused name [] := by
  rintro ⟨m, hm, -⟩
  cases hm

/-- A name that is not reused has one model of every kind, and this one is kept. -/
theorem mem_dedupe_of_not_reused {m : DataModel} (hm : m ∈ models)
    (once : ¬ Reused m.name models) : m ∈ dedupe models := by
  have kept : m.key ∈ (dedupe models).map key := mem_keys_dedupe.mpr (List.mem_map_of_mem hm)
  obtain ⟨m', hm', same⟩ := List.mem_map.mp kept
  have kind : m'.kind = m.kind := congrArg Prod.fst same
  have name : m'.name = m.name := congrArg Prod.snd same
  by_cases equal : m' = m
  · rwa [equal] at hm'
  · have there : m' ∈ models := (dedupe_sublist models).subset hm'
    exact absurd ⟨m', there, m, hm, kind, name, rfl, equal⟩ once

end DataModel

open DataModel (Reused)

namespace Progress

/-- Of exactly those names that are used for different models, there is a warning. -/
def Told (p : Progress) : Prop :=
  ∀ name, .nameReused name ∈ p.warnings ↔ Reused name p.models

variable {p q : Progress}

theorem clashes_eq_true {m : DataModel} :
    p.clashes m = true ↔ ∃ other ∈ p.models, other.kind = m.kind ∧ other.name = m.name ∧
      other ≠ m := by
  simp [clashes, DataModel.key, Prod.ext_iff, and_assoc]

/-- With one more model a name is reused that was so before, or the name of the new model if it
clashes. -/
theorem reused_insertIdx {slot : Nat} {m : DataModel} (inside : slot ≤ p.models.length)
    (name : String) : Reused name (p.models.insertIdx slot m) ↔
      Reused name p.models ∨ (p.clashes m = true ∧ name = m.name) := by
  have mem (a : DataModel) : a ∈ p.models.insertIdx slot m ↔ a = m ∨ a ∈ p.models :=
    List.mem_insertIdx inside
  rw [clashes_eq_true]
  constructor
  · rintro ⟨a, ha, b, hb, kind, first, second, differ⟩
    rcases (mem a).mp ha with newA | oldA
    · rcases (mem b).mp hb with newB | oldB
      · exact absurd (newA.trans newB.symm) differ
      · subst newA
        exact Or.inr ⟨⟨b, oldB, kind.symm, second.trans first.symm, differ.symm⟩, first.symm⟩
    · rcases (mem b).mp hb with newB | oldB
      · subst newB
        exact Or.inr ⟨⟨a, oldA, kind, first.trans second.symm, differ⟩, second.symm⟩
      · exact Or.inl ⟨a, oldA, b, oldB, kind, first, second, differ⟩
  · rintro (before | ⟨⟨other, ho, kind, same, differ⟩, rfl⟩)
    · exact before.mono fun a ha => (mem a).mpr (Or.inr ha)
    · exact ⟨other, (mem other).mpr (Or.inr ho), m, (mem m).mpr (Or.inl rfl), kind, same, rfl,
        differ⟩

namespace Told

/-- Warnings of other kinds change nothing while the models stay. -/
theorem of_warnings (h : p.Told) {more : List Warning} (models : q.models = p.models)
    (warnings : q.warnings = p.warnings ++ more) (other : ∀ name, .nameReused name ∉ more) :
    q.Told := by
  intro name
  rw [models, warnings, List.mem_append, ← h name]
  exact or_iff_left (other name)

/-- A model that is put into a place of the list is compared with all others. -/
theorem place (h : p.Told) {slot : Nat} (inside : slot ≤ p.models.length) (m : DataModel) :
    (p.place slot m).Told := by
  intro name
  rw [warnings_place, models_place, List.mem_append, p.mem_placeWarnings, h name,
    reused_insertIdx inside, Warning.nameReused.injEq]

theorem afterName (h : p.Told) (stem : String) (given : Option Identifier.Resolved) :
    (p.afterName stem given).Told := by
  refine h.of_warnings (models_afterName ..) (warnings_afterName ..) fun name mem => ?_
  cases p.mem_nameWarnings _ _ mem

theorem opened (h : p.Told) (rootName : String) (schema : Entries Json) (site : Site) :
    (p.opened rootName schema site).Told := by
  refine h.of_warnings (models_opened ..) (warnings_opened ..) fun name mem => ?_
  rcases p.mem_openWarnings _ _ _ mem with made | ⟨more, -⟩
  · cases made
  · cases more

theorem closed (h : p.Told) {slot : Nat} (inside : slot ≤ p.models.length) (path : String)
    (c : DataClass) : (p.closed path slot c).Told := by
  have marked : (p.stopBuilding path).Told := h
  exact marked.place inside _

theorem afterConst (h : p.Told) (value : Json) (site : Site) :
    (Walk.afterConst p value site).Told := by
  refine h.of_warnings (Walk.models_afterConst ..) (Walk.warnings_afterConst ..) fun name mem => ?_
  obtain ⟨_, -, -, other⟩ := Walk.mem_constWarnings _ _ mem
  cases other

theorem afterEnum (h : p.Told) (schema : Json) (name : Identifier.Resolved)
    (values : List EnumMember) : (Walk.afterEnum p schema name values).Told := by
  refine (h.afterName _ _).place ?_ _
  exact Nat.le_of_eq (congrArg List.length (models_afterName ..)).symm

end Told

end Progress

variable {document : Json} {rootName : String}

/-- **A walk keeps the warnings exact.** -/
theorem Walked.told {schema : Json} {site : Site} {p q : Progress} {type : DataType}
    (h : Walked document rootName schema site p type q) : p.Told → q.Told := by
  refine Walked.induct (motive := fun _ _ p _ q => p.Told → q.Told) ?_ h
  intro _ site p _ q rule told
  cases rule with
  | plain => exact told
  | const => exact told.afterConst _ _
  | enum => exact told.afterEnum _ _ _
  | known => exact told
  | forward => exact told.of_warnings rfl rfl (by simp)
  | expand _ _ _ _ _ part => exact part.2 told
  | single _ part => exact part.2 told
  | union _ parts => exact parts.invariant Progress.Told (fun part => part.2) told
  | @object object _ _ _ _ r _ _ _ parts =>
      -- The slot was taken before the fields, whose models have come after it.
      have fields := (Progress.Keeps.of_chain parts fun part => part.1.keeps).models.length_le
      rw [Progress.models_opened] at fields
      have visited : r.Told :=
        parts.invariant Progress.Told (fun part => part.2) (told.opened rootName object site)
      exact visited.closed fields _ _
  | items _ part => exact part.2 told

theorem DefinitionsWalked.told {definitions : List (String × Json)} {p q : Progress}
    (h : DefinitionsWalked document rootName definitions p q) (told : p.Told) : q.Told := by
  induction h with
  | nil => exact told
  | cons head _ ih => exact ih (head.told told)

theorem Progress.Told.initial : Progress.initial.Told := by
  intro name
  constructor
  · intro mem
    cases mem
  · intro reused
    exact absurd reused DataModel.not_reused_nil

/-- A conversion warns of exactly the names that its models reuse. -/
theorem convert_told {c : Conversion} (h : convert document rootName = .ok c) (name : String) :
    .nameReused name ∈ c.warnings ↔ Reused name c.models := by
  obtain ⟨p, q, definitions, walked, models, warnings⟩ := convert_ok h
  rw [models, warnings]
  exact walked.told (definitions.told .initial) name

/-- **A conversion warns of a reused name exactly where two different models of one kind have it**,
so that without the warning only repetitions go when the first model of every kind and name is
kept. -/
theorem convert_nameReused_iff {c : Conversion} (h : convert document rootName = .ok c)
    (name : String) :
    (.nameReused name ∈ c.warnings ↔ Reused name c.models) ∧
      (.nameReused name ∉ c.warnings →
        ∀ m ∈ c.models, m.name = name → m ∈ DataModel.dedupe c.models) := by
  refine ⟨convert_told h name, ?_⟩
  rintro silent m hm rfl
  rw [convert_told h] at silent
  exact DataModel.mem_dedupe_of_not_reused hm silent

/-- An object with a property that is named like the object itself. -/
def namesake : Json :=
  .obj [("properties", .obj [("node", .obj [("properties",
    .obj [("label", .obj [("type", .str "string")])])]), ("mode", .obj [("title", .str "Mode"),
      ("enum", .arr [.str "on", .str "off"])])])]

/-- The two classes `Node` differ, and there is one enum `Mode`. -/
theorem convert_nameReused_iff_namesake : ∃ c, convert namesake "Node" = .ok c ∧
    Reused "Node" c.models ∧ .nameReused "Mode" ∉ c.warnings ∧
      ∀ m ∈ c.models, m.name = "Mode" → m ∈ DataModel.dedupe c.models := by
  have warned : (convert namesake "Node").toOption.map Conversion.warnings
      = some [.nameReused "Node"] := by decide +kernel
  obtain ⟨c, converted, warnings⟩ := exists_of_toOption warned
  have silent : .nameReused "Mode" ∉ c.warnings := by
    rw [warnings]
    decide
  refine ⟨c, converted, ?_, silent, (convert_nameReused_iff converted "Mode").2 silent⟩
  refine (convert_nameReused_iff converted "Node").1.mp ?_
  rw [warnings]
  exact List.mem_singleton_self _

end SchemaLoom
