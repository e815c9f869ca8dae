import SchemaLoom.Model.DataType

set_option autoImplicit false

/-! # Data models

A data model is a class with fields or an enum with values. Where the identifier of a part differs
from its name in the data, the name is kept as its alias.
-/

namespace SchemaLoom

/-- A field of a class. A skipped field takes no value and is left out where models are used. -/
structure DataField where
  name : String
  type : DataType
  description? : Option String := none
  alias? : Option String := none
  skip : Bool := false
  deriving DecidableEq, Repr

/-- A class of objects. -/
structure DataClass where
  name : String
  fields : List DataField
  description? : Option String := none
  alias? : Option String := none
  deriving DecidableEq, Repr

/-- A value of an enum. -/
structure EnumMember where
  name : String
  alias? : Option String := none
  description? : Option String := none
  skip : Bool := false
  deriving DecidableEq, Repr

/-- An enum. -/
structure DataEnum where
  name : String
  values : List EnumMember
  description? : Option String := none
  alias? : Option String := none
  deriving DecidableEq, Repr

/-- A class or an enum. -/
inductive DataModel where
  | ofClass (c : DataClass)
  | ofEnum (e : DataEnum)
  deriving DecidableEq, Repr

/-- The first field of a name. -/
def DataClass.field? (c : DataClass) (name : String) : Option DataField :=
  c.fields.find? fun field => field.name = name

namespace DataModel

/-- The two kinds of models. -/
inductive Kind where
  | classes
  | enums
  deriving DecidableEq, Repr

/-- The kind of a model. -/
def kind : DataModel → Kind
  | .ofClass _ => .classes
  | .ofEnum _ => .enums

/-- The name of a model. -/
def name : DataModel → String
  | .ofClass c => c.name
  | .ofEnum e => e.name

/-- The class of a model. -/
def class? : DataModel → Option DataClass
  | .ofClass c => some c
  | .ofEnum _ => none

/-- What tells models apart where each is needed once: a class and an enum may share a name. -/
def key (m : DataModel) : Kind × String := (m.kind, m.name)

/-- The models whose key has not been seen before, neither in `seen` nor earlier in the list. -/
def keepFirst (seen : List (Kind × String)) : List DataModel → List DataModel
  | [] => []
  | m :: rest =>
      if m.key ∈ seen then keepFirst seen rest else m :: keepFirst (m.key :: seen) rest

/-- The first model of every kind and name, in order. -/
def dedupe (models : List DataModel) : List DataModel := keepFirst [] models

theorem keepFirst_sublist (seen : List (Kind × String)) (models : List DataModel) :
    (keepFirst seen models).Sublist models := by
  induction models generalizing seen with
  | nil => exact List.Sublist.refl _
  | cons m rest ih =>
      by_cases h : m.key ∈ seen
      · rw [keepFirst, if_pos h]
        exact (ih seen).cons m
      · rw [keepFirst, if_neg h]
        exact (ih _).cons_cons m

/-- A model is only left out where its key has been seen. -/
theorem mem_keys_keepFirst {models : List DataModel} {m : DataModel} (hm : m ∈ models)
    {seen : List (Kind × String)} (unseen : m.key ∉ seen) :
    m.key ∈ (keepFirst seen models).map key := by
  induction models generalizing seen with
  | nil => cases hm
  | cons first rest ih =>
      by_cases h : first.key ∈ seen
      · rw [keepFirst, if_pos h]
        have other : m ≠ first := fun same => unseen (same ▸ h)
        exact ih ((List.mem_cons.1 hm).resolve_left other) unseen
      · rw [keepFirst, if_neg h, List.map_cons, List.mem_cons]
        by_cases same : m.key = first.key
        · exact .inl same
        · have other : m ≠ first := fun eq => same (eq ▸ rfl)
          refine .inr (ih ((List.mem_cons.1 hm).resolve_left other) ?_)
          simp [same, unseen]

theorem dedupe_sublist (models : List DataModel) : (dedupe models).Sublist models :=
  keepFirst_sublist [] models

/-- Every kind and name keeps a model. -/
theorem mem_keys_dedupe {models : List DataModel} {k : Kind × String} :
    k ∈ (dedupe models).map key ↔ k ∈ models.map key := by
  constructor
  · exact fun h => List.map_subset key (dedupe_sublist models).subset h
  · intro h
    obtain ⟨m, hm, rfl⟩ := List.mem_map.1 h
    exact mem_keys_keepFirst hm (by simp)

end DataModel

end SchemaLoom
