import SchemaLoom.Schema.Shape

set_option autoImplicit false

/-! # What the shape of a schema tells about the schema

`classify` asks the keys of a schema in a fixed order. Each shape that holds a part of the schema
holds the value of one certain key (`Shape.ReadFrom`), so later proofs look a part up instead of
opening `classify` (`classify_eq_ok`). A shape that leads somewhere else, to a target or to
alternatives, is given before the type is asked; hence what holds only of such schemas
(`classify_single`), and what a nullable object must say in its list of types
(`classify_nullable_object`).
-/

namespace SchemaLoom

namespace Shape

/-- The contents of a shape are what the schema holds under the key of the shape. -/
def ReadFrom (schema : Entries Json) : Shape → Prop
  | .ref reference => Entries.get? "$ref" schema = some (.str reference)
  | .single member => Entries.get? "allOf" schema = some (.arr [member])
  | .union keyword members => Entries.get? keyword.text schema = some (.arr members)
  | .const value => Entries.get? "const" schema = some value
  | .enum values => Entries.get? "enum" schema = some (.arr values)
  | .object own => own = schema
  | .array items => Entries.get? "items" schema = items
  | .never | .any | .null | .scalar _ | .scalarUnion _ => True

/-- Whether the shape stands for other schemas. -/
def isIndirect : Shape → Bool
  | .ref _ | .single _ | .union _ _ => true
  | _ => false

variable {schema : Entries Json} {shape : Shape} {nullable : Bool}

/-! ## Shapes that a type or a constant decides -/

/-- The shape is read from the schema and stands for no other one. -/
structure DirectFrom (schema : Entries Json) (shape : Shape) : Prop where
  read : shape.ReadFrom schema
  direct : shape.isIndirect = false

theorem directFrom_ofTypeName {name : String} {ignoreEnum : Bool}
    (h : ofTypeName name schema ignoreEnum = .ok shape) : DirectFrom schema shape := by
  unfold ofTypeName at h
  split at h
  · split at h
    · next found =>
        cases h
        exact ⟨by assumption, rfl⟩
    · cases h
      exact ⟨trivial, rfl⟩
  · split at h
    · cases h
      exact ⟨rfl, rfl⟩
    · split at h
      · cases h
        exact ⟨rfl, rfl⟩
      · split at h
        · cases h
          exact ⟨trivial, rfl⟩
        · cases h

/-- One name is never read as several scalars. -/
theorem ofTypeName_ne_scalarUnion {name : String} {ignoreEnum : Bool} {listed : List Scalar} :
    ofTypeName name schema ignoreEnum ≠ .ok (.scalarUnion listed) := by
  intro h
  unfold ofTypeName at h
  split at h
  · split at h <;> cases h
  · split at h
    · cases h
    · split at h
      · cases h
      · split at h <;> cases h

theorem directFrom_untyped : DirectFrom schema (untyped schema) := by
  unfold untyped
  split
  · exact ⟨rfl, rfl⟩
  · split
    · exact ⟨rfl, rfl⟩
    · split
      · next found =>
          split
          · exact ⟨found, rfl⟩
          · exact ⟨trivial, rfl⟩
      · exact ⟨trivial, rfl⟩

/-- Properties, items and an enumeration do not mean several scalars. -/
theorem untyped_ne_scalarUnion {listed : List Scalar} :
    untyped schema ≠ .scalarUnion listed := by
  unfold untyped
  split
  · nofun
  · split
    · nofun
    · split
      · split <;> nofun
      · nofun

/-- What a list of types says: the names are texts, `null` is told apart, and one name alone is the
type. -/
theorem ofTypeList_eq_ok {entries : List Json}
    (h : ofTypeList entries schema = .ok ⟨shape, nullable⟩) :
    ∃ names, typeNames entries = .ok names ∧ nullable = names.contains "null" ∧
      (shape = .null ∨
        (∃ name, names.filter (· ≠ "null") = [name] ∧
          ofTypeName name schema nullable = .ok shape) ∨
        ∃ listed, shape = .scalarUnion listed) := by
  unfold ofTypeList at h
  cases read : typeNames entries with
  | error fault =>
      rw [read] at h
      cases h
  | ok names =>
      rw [read] at h
      simp only [bind, Except.bind] at h
      split at h
      · cases h
        exact ⟨names, rfl, rfl, Or.inl rfl⟩
      · next name only =>
          cases named : ofTypeName name schema (names.contains "null") with
          | error fault =>
              rw [named] at h
              cases h
          | ok found =>
              rw [named] at h
              cases h
              exact ⟨names, rfl, rfl, Or.inr (Or.inl ⟨name, only, named⟩)⟩
      · cases listed : scalars (names.filter (· ≠ "null")) with
        | error fault =>
            rw [listed] at h
            cases h
        | ok found =>
            rw [listed] at h
            cases h
            exact ⟨names, rfl, rfl, Or.inr (Or.inr ⟨found, rfl⟩)⟩

theorem length_scalars {names : List String} {listed : List Scalar}
    (h : scalars names = .ok listed) : listed.length = names.length := by
  induction names generalizing listed with
  | nil =>
      cases h
      rfl
  | cons name rest ih =>
      simp only [scalars] at h
      split at h
      · cases more : scalars rest with
        | error fault =>
            rw [more] at h
            cases h
        | ok others =>
            rw [more] at h
            cases h
            rw [List.length_cons, List.length_cons, ih more]
      · cases h

/-- A list of types stands for several scalars only if it names several types besides `null`. -/
theorem two_le_length_of_ofTypeList {entries : List Json} {listed : List Scalar}
    (h : ofTypeList entries schema = .ok ⟨.scalarUnion listed, nullable⟩) : 2 ≤ listed.length := by
  unfold ofTypeList at h
  cases read : typeNames entries with
  | error fault =>
      rw [read] at h
      cases h
  | ok names =>
      rw [read] at h
      simp only [bind, Except.bind] at h
      split at h
      · cases h
      · next name only =>
          cases named : ofTypeName name schema (names.contains "null") with
          | error fault =>
              rw [named] at h
              cases h
          | ok found =>
              rw [named] at h
              cases h
              exact absurd named ofTypeName_ne_scalarUnion
      · next none one =>
          cases all : scalars (names.filter (· ≠ "null")) with
          | error fault =>
              rw [all] at h
              cases h
          | ok found =>
              rw [all] at h
              cases h
              rw [length_scalars all]
              match several : names.filter (· ≠ "null") with
              | [] => exact absurd several none
              | [name] => exact absurd several (one name)
              | first :: second :: rest => simp

theorem directFrom_ofTypeList {entries : List Json}
    (h : ofTypeList entries schema = .ok ⟨shape, nullable⟩) : DirectFrom schema shape := by
  obtain ⟨names, -, -, rfl | ⟨name, -, named⟩ | ⟨listed, rfl⟩⟩ := ofTypeList_eq_ok h
  · exact ⟨trivial, rfl⟩
  · exact directFrom_ofTypeName named
  · exact ⟨trivial, rfl⟩

/-- The ways in which a type decides. -/
theorem ofType_eq_ok (h : ofType schema = .ok ⟨shape, nullable⟩) :
    (shape = untyped schema ∧ nullable = false) ∨
      (∃ name, ofTypeName name schema false = .ok shape ∧ nullable = false) ∨
      ∃ entries, Entries.get? "type" schema = some (.arr entries) ∧
        ofTypeList entries schema = .ok ⟨shape, nullable⟩ := by
  unfold ofType at h
  split at h
  · cases h
    exact Or.inl ⟨rfl, rfl⟩
  · next name _ =>
      cases named : ofTypeName name schema false with
      | error fault =>
          rw [named] at h
          cases h
      | ok found =>
          rw [named] at h
          cases h
          exact Or.inr (Or.inl ⟨name, named, rfl⟩)
  · next entries found => exact Or.inr (Or.inr ⟨entries, found, h⟩)
  · cases h

theorem directFrom_ofConstOrType (h : ofConstOrType schema = .ok ⟨shape, nullable⟩) :
    DirectFrom schema shape := by
  unfold ofConstOrType at h
  split at h
  · next found =>
      cases h
      exact ⟨found, rfl⟩
  · rcases ofType_eq_ok h with ⟨rfl, -⟩ | ⟨name, named, -⟩ | ⟨entries, -, listed⟩
    · exact directFrom_untyped
    · exact directFrom_ofTypeName named
    · exact directFrom_ofTypeList listed

/-! ## Shapes that stand for other schemas -/

theorem readFrom_alternatives? (h : alternatives? schema = .ok (some shape)) :
    shape.ReadFrom schema := by
  unfold alternatives? at h
  split at h
  · next found =>
      cases h
      exact found
  · cases h
  · split at h
    · next found =>
        cases h
        exact found
    · cases h
    · next found =>
        cases h
        exact found
    · cases h
    · cases h

theorem isIndirect_of_alternatives? (h : alternatives? schema = .ok (some shape)) :
    shape.isIndirect = true := by
  unfold alternatives? at h
  split at h
  · cases h
    rfl
  · cases h
  · split at h <;> cases h <;> rfl

/-- The ways in which a schema object gets its shape. -/
theorem ofObject_eq_ok (h : ofObject schema = .ok ⟨shape, nullable⟩) :
    (∃ reference, shape = .ref reference ∧ nullable = false ∧
        Entries.get? "$ref" schema = some (.str reference)) ∨
      (isTyped schema = false ∧ nullable = false ∧ alternatives? schema = .ok (some shape)) ∨
      ofConstOrType schema = .ok ⟨shape, nullable⟩ := by
  unfold ofObject at h
  split at h
  · next found =>
      cases h
      exact Or.inl ⟨_, rfl, rfl, found⟩
  · cases h
  · split at h
    · exact Or.inr (Or.inr h)
    · next untyped =>
        cases listed : alternatives? schema with
        | error fault =>
            rw [listed] at h
            cases h
        | ok found =>
            rw [listed] at h
            cases found with
            | none => exact Or.inr (Or.inr h)
            | some inner =>
                cases h
                exact Or.inr (Or.inl ⟨by simpa using untyped, rfl, rfl⟩)

theorem readFrom_ofObject (h : ofObject schema = .ok ⟨shape, nullable⟩) :
    shape.ReadFrom schema := by
  rcases ofObject_eq_ok h with ⟨reference, rfl, -, found⟩ | ⟨-, -, listed⟩ | decided
  · exact found
  · exact readFrom_alternatives? listed
  · exact (directFrom_ofConstOrType decided).read

/-! ## Names of types -/

theorem typeNames_eq_ok {entries : List Json} {names : List String}
    (h : typeNames entries = .ok names) : entries = names.map Json.str := by
  induction entries generalizing names with
  | nil =>
      cases h
      rfl
  | cons entry rest ih =>
      cases entry with
      | str name =>
          simp only [typeNames] at h
          cases more : typeNames rest with
          | error fault =>
              rw [more] at h
              cases h
          | ok others =>
              rw [more] at h
              cases h
              rw [ih more, List.map_cons]
      | _ => cases h

theorem ofTypeName_object {name : String} {ignoreEnum : Bool} {own : Entries Json}
    (h : ofTypeName name schema ignoreEnum = .ok (.object own)) : name = "object" := by
  unfold ofTypeName at h
  split at h
  · split at h <;> cases h
  · split at h
    · assumption
    · split at h
      · cases h
      · split at h <;> cases h

end Shape

/-! ## Schemas -/

variable {schema : Json} {entries : Entries Json} {shape : Shape} {nullable : Bool}

/-- A schema with a shape is `true`, `false` or an object that holds the contents of the shape. -/
theorem classify_eq_ok (h : classify schema = .ok ⟨shape, nullable⟩) :
    (schema = .bool true ∧ shape = .any ∧ nullable = false) ∨
      (schema = .bool false ∧ shape = .never ∧ nullable = false) ∨
      ∃ entries, schema = .obj entries ∧ shape.ReadFrom entries := by
  unfold classify at h
  split at h
  · cases h
    exact Or.inl ⟨rfl, rfl, rfl⟩
  · cases h
    exact Or.inr (Or.inl ⟨rfl, rfl, rfl⟩)
  · next entries => exact Or.inr (Or.inr ⟨entries, rfl, Shape.readFrom_ofObject h⟩)
  · cases h

theorem classify_obj (h : classify schema = .ok ⟨shape, nullable⟩) (any : shape ≠ .any)
    (never : shape ≠ .never) : ∃ entries, schema = .obj entries ∧ shape.ReadFrom entries := by
  rcases classify_eq_ok h with ⟨-, other, -⟩ | ⟨-, other, -⟩ | found
  · exact absurd other any
  · exact absurd other never
  · exact found

/-- A reference is not nullable by itself. -/
theorem classify_ref {reference : String}
    (h : classify schema = .ok ⟨.ref reference, nullable⟩) : nullable = false := by
  obtain ⟨entries, rfl, -⟩ := classify_obj h nofun nofun
  rcases Shape.ofObject_eq_ok h with ⟨_, -, plain, -⟩ | ⟨-, plain, -⟩ | decided
  · exact plain
  · exact plain
  · cases (Shape.directFrom_ofConstOrType decided).direct

/-- A union is not nullable by itself. -/
theorem classify_union {keyword : UnionKeyword} {alternatives : List Json}
    (h : classify schema = .ok ⟨.union keyword alternatives, nullable⟩) : nullable = false := by
  obtain ⟨entries, rfl, -⟩ := classify_obj h nofun nofun
  rcases Shape.ofObject_eq_ok h with ⟨_, -, plain, -⟩ | ⟨-, plain, -⟩ | decided
  · exact plain
  · exact plain
  · cases (Shape.directFrom_ofConstOrType decided).direct

/-- Scalars that stand together are two or more. -/
theorem classify_scalarUnion {listed : List Scalar}
    (h : classify schema = .ok ⟨.scalarUnion listed, nullable⟩) : 2 ≤ listed.length := by
  obtain ⟨entries, rfl, -⟩ := classify_obj h nofun nofun
  rcases Shape.ofObject_eq_ok h with ⟨_, other, -⟩ | ⟨-, -, other⟩ | decided
  · cases other
  · cases Shape.isIndirect_of_alternatives? other
  · unfold Shape.ofConstOrType at decided
    split at decided
    · cases decided
    · rcases Shape.ofType_eq_ok decided with ⟨other, -⟩ | ⟨_, named, -⟩ | ⟨_, -, several⟩
      · exact absurd other.symm Shape.untyped_ne_scalarUnion
      · exact absurd named Shape.ofTypeName_ne_scalarUnion
      · exact Shape.two_le_length_of_ofTypeList several

/-- A node that stands for the only member of its `allOf` is not nullable and has no properties. -/
theorem classify_single {member : Json}
    (h : classify (.obj entries) = .ok ⟨.single member, nullable⟩) :
    nullable = false ∧ Entries.get? "properties" entries = none := by
  rcases Shape.ofObject_eq_ok h with ⟨_, other, -⟩ | ⟨untyped, required, -⟩ | decided
  · cases other
  · refine ⟨required, ?_⟩
    have absent : Entries.contains "properties" entries = false := by
      simp only [Shape.isTyped, Bool.or_eq_false_iff] at untyped
      exact untyped.2
    simpa [Entries.contains] using absent
  · cases (Shape.directFrom_ofConstOrType decided).direct

/-- A nullable object lists `null` and `object` as its types. -/
theorem classify_nullable_object {own : Entries Json}
    (h : classify (.obj entries) = .ok ⟨.object own, true⟩) :
    ∃ types, Entries.get? "type" entries = some (.arr types) ∧ .str "null" ∈ types ∧
      .str "object" ∈ types := by
  rcases Shape.ofObject_eq_ok h with ⟨_, other, -⟩ | ⟨-, required, -⟩ | decided
  · cases other
  · cases required
  · unfold Shape.ofConstOrType at decided
    split at decided
    · cases decided
    · rcases Shape.ofType_eq_ok decided with ⟨-, required⟩ | ⟨_, -, required⟩ |
        ⟨types, found, listed⟩
      · cases required
      · cases required
      · obtain ⟨names, read, hasNull, none | ⟨name, only, named⟩ | ⟨_, other⟩⟩ :=
          Shape.ofTypeList_eq_ok listed
        · cases none
        · have null : "null" ∈ names := List.contains_iff_mem.mp hasNull.symm
          have object : "object" ∈ names := by
            have mem : name ∈ names.filter (· ≠ "null") := by
              rw [only]
              exact List.mem_singleton_self name
            rw [← Shape.ofTypeName_object named]
            exact (List.mem_filter.mp mem).1
          rw [Shape.typeNames_eq_ok read] at found
          exact ⟨_, found, List.mem_map_of_mem null, List.mem_map_of_mem object⟩
        · cases other

/-! ## What a shape depends on -/

namespace Shape

/-- The keys that the shape of a schema depends on. -/
def keys : List String :=
  ["$ref", "type", "properties", "items", "enum", "const", "allOf", "anyOf", "oneOf"]

/-- The shape with other members of the schema itself. -/
def withOwn (own : Entries Json) : Shape → Shape
  | .object _ => .object own
  | shape => shape

variable {own own' : Entries Json}

/-- Alternatives do not come with the schema itself. -/
theorem alternatives?_withOwn {shape : Shape} (h : alternatives? own = .ok (some shape)) :
    shape.withOwn own' = shape := by
  unfold alternatives? at h
  split at h
  · cases h
    rfl
  · cases h
  · split at h <;> cases h <;> rfl

variable (same : ∀ key ∈ keys, Entries.get? key own' = Entries.get? key own)

include same

theorem contains_eq {key : String} (mem : key ∈ keys) :
    Entries.contains key own' = Entries.contains key own := by
  rw [Entries.contains, Entries.contains, same key mem]

theorem ofTypeName_withOwn (name : String) (ignoreEnum : Bool) :
    ofTypeName name own' ignoreEnum = (ofTypeName name own ignoreEnum).map (withOwn own') := by
  unfold ofTypeName
  rw [same "enum" (by decide), same "items" (by decide)]
  cases Scalar.ofTypeName? name with
  | some s =>
      dsimp only
      split <;> rfl
  | none =>
      by_cases object : name = "object"
      · simp only [if_pos object]
        rfl
      · by_cases array : name = "array"
        · simp only [if_neg object, if_pos array]
          rfl
        · by_cases null : name = "null"
          · simp only [if_neg object, if_neg array, if_pos null]
            rfl
          · simp only [if_neg object, if_neg array, if_neg null]
            rfl

theorem untyped_withOwn : untyped own' = (untyped own).withOwn own' := by
  unfold untyped
  rw [contains_eq same (by decide : "properties" ∈ keys),
    contains_eq same (by decide : "items" ∈ keys), same "items" (by decide),
    same "enum" (by decide)]
  split
  · rfl
  · split
    · rfl
    · split
      · split <;> rfl
      · rfl

theorem ofTypeList_withOwn (entries : List Json) : ofTypeList entries own'
    = (ofTypeList entries own).map fun c => ⟨c.shape.withOwn own', c.nullable⟩ := by
  unfold ofTypeList
  cases typeNames entries with
  | error fault => rfl
  | ok names =>
      simp only [bind, Except.bind]
      split
      · rfl
      · next name _ =>
          rw [ofTypeName_withOwn same]
          cases ofTypeName name own (names.contains "null") <;> rfl
      · cases scalars (names.filter (· ≠ "null")) <;> rfl

theorem ofType_withOwn : ofType own'
    = (ofType own).map fun c => ⟨c.shape.withOwn own', c.nullable⟩ := by
  unfold ofType
  rw [same "type" (by decide), untyped_withOwn same]
  split
  · rfl
  · next name _ =>
      rw [ofTypeName_withOwn same]
      cases ofTypeName name own false <;> rfl
  · exact ofTypeList_withOwn same _
  · rfl

theorem ofConstOrType_withOwn : ofConstOrType own'
    = (ofConstOrType own).map fun c => ⟨c.shape.withOwn own', c.nullable⟩ := by
  unfold ofConstOrType
  rw [same "const" (by decide)]
  split
  · rfl
  · exact ofType_withOwn same

theorem alternatives?_eq : alternatives? own' = alternatives? own := by
  unfold alternatives?
  rw [same "allOf" (by decide), same "anyOf" (by decide), same "oneOf" (by decide)]

/-- **The shape of a schema depends on these keys alone.** -/
theorem ofObject_withOwn : ofObject own'
    = (ofObject own).map fun c => ⟨c.shape.withOwn own', c.nullable⟩ := by
  have typed : isTyped own' = isTyped own := by
    rw [isTyped, contains_eq same (by decide : "type" ∈ keys),
      contains_eq same (by decide : "properties" ∈ keys), isTyped]
  unfold ofObject
  rw [same "$ref" (by decide), typed, alternatives?_eq same, ofConstOrType_withOwn same]
  split
  · rfl
  · rfl
  · split
    · rfl
    · cases listed : alternatives? own with
      | error fault => rfl
      | ok found =>
          cases found with
          | none => rfl
          | some shape =>
              show Except.ok (⟨shape, false⟩ : Classified) = .ok ⟨shape.withOwn own', false⟩
              rw [alternatives?_withOwn listed]

end Shape

/-- An object stays an object where no key changes that its shape depends on. -/
theorem classify_object_congr {own own' : Entries Json}
    (same : ∀ key ∈ Shape.keys, Entries.get? key own' = Entries.get? key own)
    (shaped : classify (.obj own) = .ok ⟨.object own, nullable⟩) :
    classify (.obj own') = .ok ⟨.object own', nullable⟩ := by
  show Shape.ofObject own' = _
  rw [Shape.ofObject_withOwn same, show Shape.ofObject own = _ from shaped]
  rfl

end SchemaLoom
