import SchemaLoom.Proofs.References.Forward

set_option autoImplicit false

/-! # Unions in normal form

No union of a conversion has `null` for a member, and none has fewer than two members. Where the
alternatives of a node are joined, `null` becomes the mark of the whole and a single other type
stands for itself; that these are the only unions besides those of scalars is an invariant of the
walk.

The invariant is a predicate of types that every step keeps (`KeptBySteps`). Such a predicate holds
of what the walk knows and of what it has put into classes, and so of the type of every node
(`Walked.type_forall`), whichever way the node has come by it.
-/

namespace SchemaLoom

namespace DataType

/-! ## Unions in a type -/

/-- The second type is the first one or occurs in it, at any depth. -/
inductive HasPart : DataType → DataType → Prop where
  | whole {t : DataType} : HasPart t t
  | item {item part : DataType} {o : Bool} (inside : HasPart item part) : HasPart (.list item o) part
  | member {members : List DataType} {t part : DataType} {o : Bool} (mem : t ∈ members)
      (inside : HasPart t part) : HasPart (.union members o) part

/-- Every union in the type has two members or more, none of which is `null`. -/
def NormalUnions (t : DataType) : Prop :=
  ∀ members o, t.HasPart (.union members o) →
    2 ≤ members.length ∧ ∀ member ∈ members, member.isNull = false

theorem normalUnions_leaf (l : Leaf) (o : Bool) : (DataType.leaf l o).NormalUnions := by
  intro members o' part
  cases part

theorem normalUnions_list {item : DataType} {o : Bool} :
    (DataType.list item o).NormalUnions ↔ item.NormalUnions := by
  constructor
  · exact fun normal members o' part => normal members o' part.item
  · intro normal members o' part
    cases part with
    | item inside => exact normal members o' inside

theorem normalUnions_union {members : List DataType} {o : Bool} :
    (DataType.union members o).NormalUnions ↔
      (2 ≤ members.length ∧ ∀ member ∈ members, member.isNull = false) ∧
        ∀ member ∈ members, member.NormalUnions := by
  constructor
  · intro normal
    refine ⟨normal members o .whole, fun member mem members' o' part => ?_⟩
    exact normal members' o' (.member mem part)
  · rintro ⟨own, each⟩ members' o' part
    cases part with
    | whole => exact own
    | member mem inside => exact each _ mem members' o' inside

theorem NormalUnions.withOptional {t : DataType} (h : t.NormalUnions) (o : Bool) :
    (t.withOptional o).NormalUnions := by
  cases t with
  | leaf l p => exact normalUnions_leaf l (p || o)
  | list item p => exact normalUnions_list.mpr (normalUnions_list.mp h)
  | union members p => exact normalUnions_union.mpr (normalUnions_union.mp h)

end DataType

/-! ## What all types of a conversion have -/

/-- Every step of a walk that makes a type keeps the predicate. -/
structure KeptBySteps (P : DataType → Prop) : Prop where
  leaf : ∀ l, P (.of l)
  optional : ∀ {type} o, P type → P (type.withOptional o)
  scalars : ∀ {kinds : List Scalar}, 2 ≤ kinds.length → P (.unionOf (kinds.map Scalar.dataType))
  list : ∀ {item}, P item → P (.listOf item)
  union : ∀ {types}, (∀ type ∈ types, P type) → P (Walk.unionOf types)

/-- The predicate holds of the types that are known and of those of the fields. -/
structure Progress.AllTypes (P : DataType → Prop) (p : Progress) : Prop where
  known : ∀ entry ∈ p.known, P entry.2
  fields : ∀ c, .ofClass c ∈ p.models → ∀ field ∈ c.fields, P field.type

section Kept

variable {P : DataType → Prop} {p q : Progress}

theorem Progress.AllTypes.congr (h : p.AllTypes P) (models : q.models = p.models)
    (known : q.known = p.known) : q.AllTypes P := by
  constructor
  · rw [known]
    exact h.known
  · rw [models]
    exact h.fields

/-- One more model whose fields have the predicate, wherever it is put. -/
theorem Progress.AllTypes.insert (h : p.AllTypes P) {slot : Nat} {m : DataModel}
    (models : q.models = p.models.insertIdx slot m) (known : q.known = p.known)
    (own : ∀ c, m = .ofClass c → ∀ field ∈ c.fields, P field.type) : q.AllTypes P := by
  constructor
  · rw [known]
    exact h.known
  · intro c mem
    rw [models] at mem
    rcases List.eq_or_mem_of_mem_insertIdx mem with new | old
    · exact own c new.symm
    · exact h.fields c old

theorem Progress.AllTypes.remember (h : p.AllTypes P) {reference : String} {type : DataType}
    (new : P type) : ((p.stopResolving reference).remember reference type).AllTypes P := by
  constructor
  · intro entry mem
    rcases Entries.mem_insert mem with rfl | old
    · exact new
    · exact h.known entry old
  · exact h.fields

/-- The types of parts that are walked one after the other have the predicate. -/
theorem Progress.AllTypes.chain (before : p.AllTypes P) {document : Json} {rootName : String}
    {parts : List (Json × Site)} {types : List DataType}
    (chain : Chain (fun schema site p type q => Walked document rootName schema site p type q ∧
      (p.AllTypes P → P type ∧ q.AllTypes P)) parts p types q) :
    (∀ type ∈ types, P type) ∧ q.AllTypes P := by
  induction chain with
  | nil => exact ⟨nofun, before⟩
  | cons head _ ih =>
      obtain ⟨first, between⟩ := head.2 before
      obtain ⟨rest, after⟩ := ih between
      exact ⟨List.forall_mem_cons.mpr ⟨first, rest⟩, after⟩

theorem Progress.AllTypes.initial : Progress.initial.AllTypes P := by
  constructor
  · intro entry mem
    cases mem
  · intro c mem
    cases mem

namespace KeptBySteps

theorem scalar (kept : KeptBySteps P) (s : Scalar) : P s.dataType := by
  cases s <;> exact kept.leaf _

/-- A node without parts and without a model has a type with the predicate. -/
theorem plainType (kept : KeptBySteps P) {schema : Json} {shape : Shape} {nullable : Bool}
    {type : DataType} (shaped : classify schema = .ok ⟨shape, nullable⟩)
    (typed : shape.plainType? = some type) : P type := by
  unfold Shape.plainType? at typed
  split at typed <;> cases typed
  · exact kept.leaf _
  · exact kept.leaf _
  · exact kept.leaf _
  · exact kept.list (kept.leaf _)
  · exact kept.scalar _
  · exact kept.scalars (classify_scalarUnion shaped)

theorem constType (kept : KeptBySteps P) {value : Json} {type : DataType}
    (typed : Walk.constType? value = some type) : P type := by
  cases value with
  | num n =>
      cases typed
      split
      · exact kept.leaf _
      · exact kept.leaf _
  | null | bool _ | str _ =>
      cases typed
      exact kept.leaf _
  | arr _ | obj _ => cases typed

end KeptBySteps

variable {document : Json} {rootName : String}

/-- **A predicate that every step keeps holds of the types of all nodes**, of those that are known
and of those of the fields. -/
theorem Walked.type_forall (kept : KeptBySteps P) {schema : Json} {site : Site} {type : DataType}
    (h : Walked document rootName schema site p type q) :
    p.AllTypes P → P type ∧ q.AllTypes P := by
  refine Walked.induct (motive := fun _ _ p type q => p.AllTypes P → P type ∧ q.AllTypes P) ?_ h
  intro schema site p type q rule before
  cases rule with
  | plain shaped typed => exact ⟨kept.optional _ (kept.plainType shaped typed), before⟩
  | const shaped typed =>
      refine ⟨kept.optional _ (kept.constType typed), before.congr ?_ ?_⟩
      · exact Walk.models_afterConst ..
      · exact Walk.known_afterConst ..
  | @enum _ _ name values _ shaped named read =>
      have after := before.insert (Walk.models_afterEnum p schema name values)
        (Walk.known_afterEnum p schema name values) fun _ other => nomatch other
      exact ⟨kept.optional _ (kept.optional _ (kept.leaf _)), after⟩
  | known shaped hit =>
      -- The type was made at another node, before this walk: it is the invariant that says more.
      exact ⟨kept.optional _ (before.known _ (Entries.mem_of_get? hit)), before⟩
  | forward => exact ⟨kept.optional _ (kept.leaf _), before.congr rfl rfl⟩
  | expand shaped miss resolved building resolving part =>
      obtain ⟨own, after⟩ := part.2 (before.congr rfl rfl)
      exact ⟨kept.optional _ own, after.remember own⟩
  | single shaped part =>
      obtain ⟨own, after⟩ := part.2 before
      exact ⟨kept.optional _ own, after⟩
  | union shaped parts =>
      obtain ⟨each, after⟩ := before.chain parts
      exact ⟨kept.optional _ (kept.union each), after⟩
  | @object object _ _ _ _ _ shaped named split parts =>
      subst named
      have opened := before.congr (p.models_opened rootName object site)
        (p.known_opened rootName object site)
      obtain ⟨each, filled⟩ := opened.chain parts
      refine ⟨kept.optional _ (kept.leaf _),
        filled.insert (Progress.models_closed ..) (Progress.known_closed ..) ?_⟩
      rintro c same field mem
      cases same
      obtain ⟨property, type, own, rfl⟩ := Walk.mem_fields mem
      exact kept.optional _ (each type (List.of_mem_zip own).2)
  | items shaped part =>
      obtain ⟨own, after⟩ := part.2 before
      exact ⟨kept.optional _ (kept.list own), after⟩

theorem DefinitionsWalked.allTypes (kept : KeptBySteps P) {definitions : List (String × Json)}
    (h : DefinitionsWalked document rootName definitions p q) (before : p.AllTypes P) :
    q.AllTypes P := by
  induction h with
  | nil => exact before
  | cons head _ ih => exact ih ((head.type_forall kept (before.congr rfl rfl)).2.congr rfl rfl)

/-- A predicate that every step keeps holds of the type of a document and of those of all fields. -/
theorem convert_type_forall (kept : KeptBySteps P) {c : Conversion}
    (h : convert document rootName = .ok c) :
    P c.root ∧ ∀ d, .ofClass d ∈ c.models → ∀ field ∈ d.fields, P field.type := by
  obtain ⟨p, q, definitions, walked, models, -⟩ := convert_ok h
  obtain ⟨root, after⟩ := walked.type_forall kept (definitions.allTypes kept .initial)
  rw [models]
  exact ⟨root, after.fields⟩

end Kept

/-! ## Joining alternatives -/

/-- The types that are not `null`, in order. -/
def DataType.others (types : List DataType) : List DataType := types.filter fun t => !t.isNull

/-- What becomes of the types of alternatives: `null` among them is a mark on the whole, the others
keep their order, and a single one of them stands for itself and keeps its own mark. -/
structure DataType.Joined (types : List DataType) (type : DataType) : Prop where
  marked : ∀ t ∈ types, t.isNull = true → type.isOptional = true
  none : others types = [] → type = .leaf .null (types.any isNull)
  one : ∀ only, others types = [only] → type = only.withOptional (types.any isNull) ∧
    (only.isOptional = true → type.isOptional = true)
  several : 2 ≤ (others types).length → type = .union (others types) (types.any isNull)

open DataType (others Joined)

theorem Walk.joined_unionOf (types : List DataType) : Joined types (unionOf types) := by
  unfold unionOf
  constructor
  · intro t mem null
    have any : types.any DataType.isNull = true := List.any_eq_true.mpr ⟨t, mem, null⟩
    rw [DataType.isOptional_withOptional, any, Bool.or_true]
  · intro none
    rw [show types.filter _ = _ from none]
    simp [DataType.withOptional]
  · intro only one
    rw [show types.filter _ = _ from one]
    refine ⟨rfl, fun own => ?_⟩
    rw [DataType.isOptional_withOptional, own, Bool.true_or]
  · intro several
    cases rest : others types with
    | nil => simp [rest] at several
    | cons first more =>
        cases more with
        | nil => simp [rest] at several
        | cons second more =>
            rw [show types.filter _ = _ from rest]
            simp [DataType.withOptional]

theorem normalUnions_keptBySteps : KeptBySteps DataType.NormalUnions where
  leaf := fun l => DataType.normalUnions_leaf l false
  optional := fun o normal => normal.withOptional o
  list := DataType.normalUnions_list.mpr
  scalars := by
    intro kinds several
    have scalar (s : Scalar) : s.dataType.isNull = false ∧ s.dataType.NormalUnions := by
      cases s <;> exact ⟨rfl, DataType.normalUnions_leaf _ _⟩
    refine DataType.normalUnions_union.mpr ⟨⟨by rwa [List.length_map], ?_⟩, ?_⟩
    · rw [List.forall_mem_map]
      exact fun s _ => (scalar s).1
    · rw [List.forall_mem_map]
      exact fun s _ => (scalar s).2
  union := by
    intro types each
    -- One case for each way to join: a union, the mark alone, and a single type with the mark.
    have joined := Walk.joined_unionOf types
    have others_mem {t : DataType} (mem : t ∈ others types) : t ∈ types ∧ t.isNull = false := by
      simpa [others] using mem
    by_cases several : 2 ≤ (others types).length
    · rw [joined.several several]
      exact DataType.normalUnions_union.mpr
        ⟨⟨several, fun t mem => (others_mem mem).2⟩, fun t mem => each t (others_mem mem).1⟩
    · by_cases empty : others types = []
      · rw [joined.none empty]
        exact DataType.normalUnions_leaf _ _
      · have left : 0 < (others types).length := List.length_pos_of_ne_nil empty
        obtain ⟨only, one⟩ := List.length_eq_one_iff.mp (by omega : (others types).length = 1)
        have mem : only ∈ others types := by
          rw [one]
          exact List.mem_singleton_self only
        rw [(joined.one only one).1]
        exact (each only (others_mem mem).1).withOptional _

/-! ## Whole conversions -/

/-- The alternatives of the node were walked one after the other, and the type that the call gives
is the one they are joined to. -/
def Call.Joins (document : Json) (rootName : String) (call : Call) (keyword : UnionKeyword)
    (alternatives : List Json) : Prop :=
  ∃ types type q, Chain (Walked document rootName)
      (Walk.memberParts keyword call.site 0 alternatives) call.start types q ∧
    call.type? document rootName = some type ∧ Joined types type

theorem Call.joins {document : Json} {rootName : String} {call : Call} {type : DataType}
    (typed : call.type? document rootName = some type) {keyword : UnionKeyword}
    {alternatives : List Json} {nullable : Bool}
    (shaped : classify call.schema = .ok ⟨.union keyword alternatives, nullable⟩) :
    call.Joins document rootName keyword alternatives := by
  obtain ⟨q, walked⟩ := Call.walked typed
  obtain ⟨core, rfl, types, chain, rfl⟩ := walked.step.outcome shaped
  rw [classify_union shaped, DataType.withOptional_false] at typed
  exact ⟨types, _, q, chain, typed, Walk.joined_unionOf types⟩

/-- **Unions are in normal form.** Every union in the type of a document or of a field has two
members or more and none of `null`, and every node with alternatives that a conversion reaches has
the type that the types of its alternatives are joined to. -/
theorem convert_unions_normal {document : Json} {rootName : String} {c : Conversion}
    (h : convert document rootName = .ok c) :
    (c.root.NormalUnions ∧
      ∀ d, .ofClass d ∈ c.models → ∀ field ∈ d.fields, field.type.NormalUnions) ∧
    ∀ call outer, call :: outer ∈ calls document rootName → ∀ keyword alternatives nullable,
      classify call.schema = .ok ⟨.union keyword alternatives, nullable⟩ →
        call.Joins document (Identifier.pascal rootName) keyword alternatives := by
  refine ⟨convert_type_forall normalUnions_keptBySteps h, ?_⟩
  intro call outer mem keyword alternatives nullable shaped
  obtain ⟨type, typed⟩ := calls_succeed h mem call List.mem_cons_self
  exact Call.joins typed shaped

/-- Whether the innermost call is for alternatives and gives the type. -/
def joinsTo (document : Json) (rootName : String) (type : DataType) : List Call → Bool
  | call :: _ =>
      match classify call.schema with
      | .ok ⟨.union _ _, _⟩ => call.type? document rootName = some type
      | _ => false
  | [] => false

/-- A setting whose value may be missing in several ways: by a reference, in alternatives of an
alternative, in a list of types, and as the only member of an `allOf`. -/
def optionalSetting : Json :=
  .obj [("$defs", .obj [("Nothing", .obj [("type", .str "null")]),
      ("Text", .obj [("anyOf", .arr [.obj [("$ref", .str "#/$defs/Nothing")],
        .obj [("oneOf", .arr [.obj [("const", .null)], .obj [("type", .arr [.str "null"])]])],
        .obj [("type", .str "string")]])])]),
    ("properties", .obj [("value", .obj [("anyOf", .arr [.obj [("$ref", .str "#/$defs/Text")],
      .obj [("type", .arr [.str "integer", .str "boolean", .str "null"])],
      .obj [("allOf", .arr [.obj [("type", .str "null")]])]])])])]

/-- The type of the value. -/
def settingType : DataType :=
  .union [.leaf .string true, .union [.of .int, .of .bool] true] true

theorem convert_unions_normal_optionalSetting : ∃ c, convert optionalSetting "Setting" = .ok c ∧
    (c.root.NormalUnions ∧
      ∀ d, .ofClass d ∈ c.models → ∀ field ∈ d.fields, field.type.NormalUnions) ∧
    ∃ call outer keyword alternatives nullable, call :: outer ∈ calls optionalSetting "Setting" ∧
      classify call.schema = .ok ⟨.union keyword alternatives, nullable⟩ ∧
      call.type? optionalSetting (Identifier.pascal "Setting") = some settingType ∧
      call.Joins optionalSetting (Identifier.pascal "Setting") keyword alternatives := by
  have ok : (convert optionalSetting "Setting").isOk = true := by decide +kernel
  have reached : (calls optionalSetting "Setting").any
      (joinsTo optionalSetting (Identifier.pascal "Setting") settingType) = true := by
    decide +kernel
  cases converted : convert optionalSetting "Setting" with
  | error e =>
      rw [converted] at ok
      cases ok
  | ok c =>
      obtain ⟨normal, joins⟩ := convert_unions_normal converted
      obtain ⟨stack, mem, passed⟩ := List.any_eq_true.mp reached
      unfold joinsTo at passed
      split at passed
      · next call outer =>
          split at passed
          · next keyword alternatives nullable shaped =>
              exact ⟨c, rfl, normal, call, outer, keyword, alternatives, nullable, mem, shaped,
                of_decide_eq_true passed,
                joins call outer mem keyword alternatives nullable shaped⟩
          · cases passed
      · cases passed

end SchemaLoom
