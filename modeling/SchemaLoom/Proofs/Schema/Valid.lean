import SchemaLoom.Schema.Convert

set_option autoImplicit false

/-! # Values that are valid at a schema

What a schema means, shape by shape. A schema that stands for others, by a reference, by the only
member of its `allOf` or by alternatives, admits what they admit, so validity is the least relation
that is closed under the rules below: a schema that refers to itself and to nothing else admits no
value.

Only what a conversion reads counts: bounds, patterns and the like are not looked at, and the keys
of an object that are not declared are free.
-/

namespace SchemaLoom

/-! ## Equality of values -/

/-- Two numbers are the same: two integers, or two doubles, of which the two zeros are the same. -/
def JsonNumber.Same : JsonNumber → JsonNumber → Prop
  | .int a, .int b => a = b
  | .double a, .double b =>
      a = b ∨ (a.toNat % 0x8000000000000000 = 0 ∧ b.toNat % 0x8000000000000000 = 0)
  | _, _ => False

/-- Two values are the same, whatever the order of their members. -/
inductive Json.Same : Json → Json → Prop where
  | null : Same .null .null
  | bool (b : Bool) : Same (.bool b) (.bool b)
  | num {n m : JsonNumber} (same : n.Same m) : Same (.num n) (.num m)
  | str (text : String) : Same (.str text) (.str text)
  | arr {items others : List Json} (length : items.length = others.length)
      (each : ∀ (i : Nat) (a b : Json), items[i]? = some a → others[i]? = some b → Same a b) :
      Same (.arr items) (.arr others)
  | obj {members others : Entries Json}
      (keys : ∀ key, Entries.contains key members = Entries.contains key others)
      (each : ∀ key a b, Entries.get? key members = some a → Entries.get? key others = some b →
        Same a b) :
      Same (.obj members) (.obj others)

/-! ## Plain values -/

/-- The values of a type of plain values. -/
def Scalar.Admits : Scalar → Json → Prop
  | .string, value => ∃ text, value = .str text
  | .int, value => ∃ n, value = .num (.int n)
  | .float, value => ∃ n, value = .num n
  | .bool, value => ∃ b, value = .bool b

/-! ## Schemas -/

/-- The properties that an object declares. -/
def declared (schema : Entries Json) : Entries Json :=
  match Entries.get? "properties" schema with
  | some (.obj properties) => properties
  | _ => []

theorem get?_properties_of_mem_declared {schema : Entries Json} {property : String × Json}
    (h : property ∈ declared schema) :
    Entries.get? "properties" schema = some (.obj (declared schema)) := by
  unfold declared at h ⊢
  split at h
  · next found => simp only [found]
  · cases h

/-- A value is valid at a schema of a document. -/
inductive Valid (document : Json) : Json → Json → Prop where
  | nullable {schema : Json} {shape : Shape} (shaped : classify schema = .ok ⟨shape, true⟩) :
      Valid document schema .null
  | any {schema value : Json} {nullable : Bool} (shaped : classify schema = .ok ⟨.any, nullable⟩) :
      Valid document schema value
  | null {schema : Json} {nullable : Bool} (shaped : classify schema = .ok ⟨.null, nullable⟩) :
      Valid document schema .null
  | ref {schema target value : Json} {reference : String} {nullable : Bool}
      (shaped : classify schema = .ok ⟨.ref reference, nullable⟩)
      (resolved : Pointer.resolve? document reference = some target)
      (valid : Valid document target value) : Valid document schema value
  | single {schema member value : Json} {nullable : Bool}
      (shaped : classify schema = .ok ⟨.single member, nullable⟩)
      (valid : Valid document member value) : Valid document schema value
  | union {schema member value : Json} {keyword : UnionKeyword} {alternatives : List Json}
      {nullable : Bool} (shaped : classify schema = .ok ⟨.union keyword alternatives, nullable⟩)
      (mem : member ∈ alternatives) (valid : Valid document member value) :
      Valid document schema value
  | const {schema constant value : Json} {nullable : Bool}
      (shaped : classify schema = .ok ⟨.const constant, nullable⟩) (same : constant.Same value) :
      Valid document schema value
  | listed {schema : Json} {literals : List Json} {text : String} {nullable : Bool}
      (shaped : classify schema = .ok ⟨.enum literals, nullable⟩) (mem : .str text ∈ literals) :
      Valid document schema (.str text)
  | listedNull {schema : Json} {literals : List Json} {nullable : Bool}
      (shaped : classify schema = .ok ⟨.enum literals, nullable⟩) (mem : .null ∈ literals) :
      Valid document schema .null
  /-- Required keys that are declared are present, and declared keys that are present are valid. -/
  | object {schema : Json} {object members : Entries Json} {nullable : Bool}
      (shaped : classify schema = .ok ⟨.object object, nullable⟩)
      (required : ∀ key ∈ Walk.requiredKeys object, Entries.contains key (declared object) →
        Entries.contains key members)
      (valid : ∀ key property value, Entries.get? key (declared object) = some property →
        Entries.get? key members = some value → Valid document property value) :
      Valid document schema (.obj members)
  | array {schema : Json} {items : List Json} {nullable : Bool}
      (shaped : classify schema = .ok ⟨.array none, nullable⟩) :
      Valid document schema (.arr items)
  | items {schema item : Json} {items : List Json} {nullable : Bool}
      (shaped : classify schema = .ok ⟨.array (some item), nullable⟩)
      (valid : ∀ value ∈ items, Valid document item value) : Valid document schema (.arr items)
  | scalar {schema value : Json} {kind : Scalar} {nullable : Bool}
      (shaped : classify schema = .ok ⟨.scalar kind, nullable⟩) (admits : kind.Admits value) :
      Valid document schema value
  | scalarUnion {schema value : Json} {kinds : List Scalar} {kind : Scalar} {nullable : Bool}
      (shaped : classify schema = .ok ⟨.scalarUnion kinds, nullable⟩) (mem : kind ∈ kinds)
      (admits : kind.Admits value) : Valid document schema value

/-- An object is valid if its required keys are present and each declared property is met. -/
theorem Valid.of_declared {document schema : Json} {object members : Entries Json} {nullable : Bool}
    (shaped : classify schema = .ok ⟨.object object, nullable⟩)
    (required : ∀ key ∈ Walk.requiredKeys object, Entries.contains key (declared object) →
      Entries.contains key members)
    (valid : ∀ property ∈ declared object, ∀ value,
      Entries.get? property.1 members = some value → Valid document property.2 value) :
    Valid document schema (.obj members) :=
  .object shaped required fun _ _ value found present =>
    valid _ (Entries.mem_of_get? found) value present

/-- The schema `false` admits no value. -/
theorem not_valid_never {document schema value : Json}
    (h : classify schema = .ok ⟨.never, false⟩) : ¬ Valid document schema value := by
  intro valid
  cases valid with
  | nullable shaped
  | any shaped | null shaped | ref shaped | single shaped | union shaped | const shaped
  | listed shaped | listedNull shaped | object shaped | array shaped | items shaped
  | scalar shaped | scalarUnion shaped =>
      rw [h] at shaped
      cases shaped

end SchemaLoom
