import SchemaLoom.Proofs.Identifier.Names
import SchemaLoom.Proofs.Results
import SchemaLoom.Proofs.Walk.Parts

set_option autoImplicit false

/-! # Contents that can be named

Of a node with a known shape, a conversion still asks that its own contents can be named: a constant
and the literals of an enumeration must be plain values, keys and texts must have identifiers, and
no two of them the same one. `Shape.Accepted` says so for every shape. Keys and texts are read from
left to right with a table of the identifiers that are taken; that reading them succeeds does not
depend on the order is proved with the table general (`enumMembers_eq_ok_iff`,
`splitFields_complete_iff`).
-/

namespace SchemaLoom

/-! ## The conditions -/

/-- Whether a value is neither an array nor an object. -/
def Json.isPlain : Json → Bool
  | .arr _ | .obj _ => false
  | _ => true

/-- The texts of the literals that have one. -/
def literalTexts (literals : List Json) : List String := literals.filterMap Json.literalText?

/-- Literals that can all be values of one enum; `null` is none, and a text may be repeated. -/
structure LegibleLiterals (literals : List Json) : Prop where
  plain : ∀ literal ∈ literals, literal.isPlain = true
  usable : ∀ text ∈ literalTexts literals, Identifier.isUsable text = true
  distinct : ∀ a ∈ literalTexts literals, ∀ b ∈ literalTexts literals,
    Identifier.pascal a = Identifier.pascal b → a = b

/-- Keys that can all be fields of one class. -/
structure LegibleKeys (keys : List String) : Prop where
  usable : ∀ key ∈ keys, Identifier.isUsable key = true
  distinct : (keys.map Identifier.camel).Nodup

/-- An object that can become a class: if it has properties, they are an object of legible keys. -/
def LegibleProperties (own : Entries Json) : Prop :=
  ∀ found, Entries.get? "properties" own = some found →
    ∃ properties, found = .obj properties ∧ LegibleKeys (Entries.names properties)

/-- What a conversion asks of the contents of a node itself. -/
def Shape.Accepted : Shape → Prop
  | .const value => value.isPlain = true
  | .enum literals => LegibleLiterals literals
  | .object own => LegibleProperties own
  | _ => True

namespace Walk

/-! ## Constants -/

theorem constType?_isSome (value : Json) : (constType? value).isSome = value.isPlain := by
  cases value <;> rfl

/-! ## Literals -/

theorem isPlain_of_literalText? {literal : Json} {text : String}
    (h : literal.literalText? = some text) : literal.isPlain = true := by
  cases literal with
  | arr | obj => cases h
  | null | bool | num | str => rfl

theorem isNull_eq_isPlain {literal : Json} (h : literal.literalText? = none) :
    literal.isNull = literal.isPlain := by
  cases literal with
  | null | arr | obj => rfl
  | bool b => cases b <;> cases h
  | num | str => cases h

/-- The identifier of a text is free, or taken by the same text. -/
def Fits (seen : Entries String) (text : String) : Prop :=
  ∀ first, Entries.get? (Identifier.pascal text) seen = some first → first = text

/-- No literal stands for another text than the one that took its identifier before. -/
def FitsTable (seen : Entries String) (literals : List Json) : Prop :=
  ∀ text ∈ literalTexts literals, Fits seen text

theorem fitsTable_nil (literals : List Json) : FitsTable [] literals := fun _ _ => nofun

/-- No other text shares the identifier of a text. -/
def ApartFrom (text : String) (literals : List Json) : Prop :=
  ∀ other ∈ literalTexts literals, Identifier.pascal text = Identifier.pascal other → text = other

variable {seen : Entries String} {literal : Json} {rest : List Json} {text : String}

theorem literalTexts_cons_of_none (h : literal.literalText? = none) (rest : List Json) :
    literalTexts (literal :: rest) = literalTexts rest := List.filterMap_cons_none h

theorem literalTexts_cons_of_some (h : literal.literalText? = some text) (rest : List Json) :
    literalTexts (literal :: rest) = text :: literalTexts rest := List.filterMap_cons_some h

theorem legible_cons_of_none (h : literal.literalText? = none) :
    (LegibleLiterals (literal :: rest) ∧ FitsTable seen (literal :: rest)) ↔
      literal.isPlain = true ∧ LegibleLiterals rest ∧ FitsTable seen rest := by
  have texts := literalTexts_cons_of_none h rest
  constructor
  · rintro ⟨legible, fits⟩
    rw [FitsTable, texts] at fits
    obtain ⟨plain, usable, distinct⟩ := legible
    rw [texts] at usable distinct
    obtain ⟨here, others⟩ := List.forall_mem_cons.mp plain
    exact ⟨here, ⟨others, usable, distinct⟩, fits⟩
  · rintro ⟨here, ⟨others, usable, distinct⟩, fits⟩
    refine ⟨⟨List.forall_mem_cons.mpr ⟨here, others⟩, ?_, ?_⟩, ?_⟩
    · rwa [texts]
    · rwa [texts]
    · rwa [FitsTable, texts]

theorem legibleLiterals_cons_of_some (h : literal.literalText? = some text) :
    LegibleLiterals (literal :: rest) ↔
      Identifier.isUsable text = true ∧ LegibleLiterals rest ∧ ApartFrom text rest := by
  have texts := literalTexts_cons_of_some h rest
  constructor
  · rintro ⟨plain, usable, distinct⟩
    rw [texts] at usable distinct
    obtain ⟨-, others⟩ := List.forall_mem_cons.mp plain
    obtain ⟨here, usable⟩ := List.forall_mem_cons.mp usable
    obtain ⟨own, distinct⟩ := List.forall_mem_cons.mp distinct
    exact ⟨here, ⟨others, usable, fun a ha b hb => distinct a ha b (List.mem_cons_of_mem _ hb)⟩,
      fun other there => own other (List.mem_cons_of_mem _ there)⟩
  · rintro ⟨here, ⟨others, usable, distinct⟩, own⟩
    refine ⟨List.forall_mem_cons.mpr ⟨isPlain_of_literalText? h, others⟩, ?_, ?_⟩
    · rw [texts]
      exact List.forall_mem_cons.mpr ⟨here, usable⟩
    · rw [texts]
      refine List.forall_mem_cons.mpr ⟨?_, fun a ha => List.forall_mem_cons.mpr ⟨?_, distinct a ha⟩⟩
      · exact List.forall_mem_cons.mpr ⟨fun _ => rfl, own⟩
      · exact fun same => (own a ha same.symm).symm

/-- A text that takes its identifier keeps the other texts away from it. -/
theorem fitsTable_cons_iff (free : Fits seen text) :
    FitsTable ((Identifier.pascal text, text) :: seen) rest ↔
      FitsTable seen rest ∧ ApartFrom text rest := by
  have each (other : String) : Fits ((Identifier.pascal text, text) :: seen) other ↔
      Fits seen other ∧ (Identifier.pascal text = Identifier.pascal other → text = other) := by
    unfold Fits
    by_cases same : Identifier.pascal text = Identifier.pascal other
    · rw [← same, Entries.get?_cons_self]
      constructor
      · intro taken
        have eq := taken text rfl
        exact ⟨fun first found => (free first found).trans eq, fun _ => eq⟩
      · rintro ⟨-, eq⟩ first found
        cases found
        exact eq rfl
    · rw [Entries.get?_cons_of_ne same]
      exact ⟨fun fits => ⟨fits, fun eq => absurd eq same⟩, fun fits => fits.1⟩
  unfold FitsTable ApartFrom
  rw [← forall₂_and]
  exact forall₂_congr fun other _ => each other

/-- A text fits in front if its identifier is not that of another one; from then on it is taken. -/
theorem legible_cons_of_some (h : literal.literalText? = some text) :
    (LegibleLiterals (literal :: rest) ∧ FitsTable seen (literal :: rest)) ↔
      Identifier.isUsable text = true ∧ Fits seen text ∧ LegibleLiterals rest ∧
        FitsTable ((Identifier.pascal text, text) :: seen) rest := by
  have table : FitsTable seen (literal :: rest) ↔ Fits seen text ∧ FitsTable seen rest := by
    rw [FitsTable, literalTexts_cons_of_some h, List.forall_mem_cons]
    rfl
  rw [legibleLiterals_cons_of_some h, table]
  constructor
  · rintro ⟨⟨usable, others, apart⟩, free, fits⟩
    exact ⟨usable, free, others, (fitsTable_cons_iff free).mpr ⟨fits, apart⟩⟩
  · rintro ⟨usable, free, others, taken⟩
    obtain ⟨fits, apart⟩ := (fitsTable_cons_iff free).mp taken
    exact ⟨⟨usable, others, apart⟩, free, fits⟩

/-- A table that has a text for its identifier gains nothing from it. -/
theorem fitsTable_cons_of_seen (found : Entries.get? (Identifier.pascal text) seen = some text) :
    FitsTable ((Identifier.pascal text, text) :: seen) rest ↔ FitsTable seen rest := by
  have own : Fits seen text := fun first again => Option.some.inj (again.symm.trans found)
  rw [fitsTable_cons_iff own, and_iff_left_iff_imp]
  exact fun fits other there same => fits other there text (same ▸ found)

/-- **Literals are read as values of an enum if they are legible** and fit the table. -/
theorem enumMembers_eq_ok_iff (owner path : String) (seen : Entries String)
    (literals : List Json) :
    (∃ out, enumMembers owner path seen literals = .ok out) ↔
      LegibleLiterals literals ∧ FitsTable seen literals := by
  induction literals generalizing seen with
  | nil =>
      have nothing : LegibleLiterals [] := ⟨nofun, nofun, nofun⟩
      exact ⟨fun _ => ⟨nothing, nofun⟩, fun _ => ⟨_, rfl⟩⟩
  | cons literal rest ih =>
      cases read : literal.literalText? with
      | none =>
          simp only [enumMembers, read]
          rw [legible_cons_of_none read, isNull_eq_isPlain read, ← ih]
          cases literal.isPlain with
          | false => simp
          | true =>
              rw [if_pos rfl, eq_self, true_and]
              simpa only [and_true] using exists_map_eq_ok (P := fun _ => True)
      | some text =>
          have named : (Identifier.resolve .pascal text).identifier = Identifier.pascal text := rfl
          simp only [enumMembers, read, named]
          rw [legible_cons_of_some read]
          by_cases unnamed : Identifier.pascal text = ""
          · have useless : Identifier.isUsable text ≠ true :=
              fun usable => Identifier.of_ne_empty_iff.mpr usable unnamed
            simp [unnamed, useless]
          have usable : Identifier.isUsable text = true := Identifier.of_ne_empty_iff.mp unnamed
          simp only [unnamed, if_false, usable, true_and]
          cases found : Entries.get? (Identifier.pascal text) seen with
          | none =>
              simp only [Fits, found, reduceCtorEq, false_implies, implies_true, true_and, ← ih]
              simpa only [and_true] using exists_map_eq_ok (P := fun _ => True)
          | some first =>
              simp only [Fits, found, Option.some.injEq, forall_eq']
              by_cases same : first = text
              · subst same
                simp only [if_true, true_and, ih, fitsTable_cons_of_seen found]
              · simp [same]

/-! ## Keys -/

theorem fieldFault?_eq_none_iff {owner : String} {site : Site} {key : String} :
    fieldFault? owner site seen key = none ↔
      Identifier.isUsable key = true ∧ Entries.get? (Identifier.camel key) seen = none := by
  unfold fieldFault?
  by_cases unnamed : (Identifier.resolve .camel key).identifier = ""
  · have useless : Identifier.isUsable key ≠ true :=
      fun usable => Identifier.of_ne_empty_iff.mpr usable unnamed
    simp [unnamed, useless]
  · have usable : Identifier.isUsable key = true := Identifier.of_ne_empty_iff.mp unnamed
    simp only [unnamed, if_false, usable, true_and, Option.map_eq_none_iff]
    rfl

/-- **Properties all have fields if their keys are legible** and none of the identifiers is taken. -/
theorem splitFields_complete_iff (owner : String) (site : Site) (seen : Entries String)
    (properties : List (String × Json)) :
    (splitFields owner site seen properties).2 = none ↔
      LegibleKeys (Entries.names properties) ∧
        ∀ key ∈ Entries.names properties, Entries.get? (Identifier.camel key) seen = none := by
  induction properties generalizing seen with
  | nil =>
      have nothing : LegibleKeys [] := ⟨nofun, List.nodup_nil⟩
      exact ⟨fun _ => ⟨nothing, nofun⟩, fun _ => rfl⟩
  | cons property rest ih =>
      obtain ⟨key, schema⟩ := property
      have split : (splitFields owner site seen ((key, schema) :: rest)).2 = none ↔
          fieldFault? owner site seen key = none ∧
            (splitFields owner site ((Identifier.camel key, key) :: seen) rest).2 = none := by
        cases fault : fieldFault? owner site seen key with
        | none => simp [splitFields, fault, Identifier.resolve, Identifier.camel]
        | some found => simp [splitFields, fault]
      -- A later key is free in the longer table if it is free in the old one and not the new name.
      have free : (∀ other ∈ Entries.names rest,
            Entries.get? (Identifier.camel other) ((Identifier.camel key, key) :: seen) = none) ↔
          Identifier.camel key ∉ (Entries.names rest).map Identifier.camel ∧
            ∀ other ∈ Entries.names rest, Entries.get? (Identifier.camel other) seen = none := by
        simp only [Entries.get?_eq_none_iff, Entries.names, List.map_cons, List.mem_cons, not_or,
          List.mem_map, not_exists, not_and]
        exact ⟨fun h => ⟨fun other there same => (h other there).1 same,
          fun other there => (h other there).2⟩,
          fun h other there => ⟨h.1 other there, h.2 other there⟩⟩
      have names : Entries.names ((key, schema) :: rest) = key :: Entries.names rest := rfl
      rw [split, fieldFault?_eq_none_iff, ih, free, names]
      constructor
      · rintro ⟨⟨usable, here⟩, ⟨others, distinct⟩, new, frees⟩
        exact ⟨⟨List.forall_mem_cons.mpr ⟨usable, others⟩, List.nodup_cons.mpr ⟨new, distinct⟩⟩,
          List.forall_mem_cons.mpr ⟨here, frees⟩⟩
      · rintro ⟨⟨usable, distinct⟩, frees⟩
        obtain ⟨new, others⟩ := List.nodup_cons.mp distinct
        obtain ⟨usable, more⟩ := List.forall_mem_cons.mp usable
        obtain ⟨here, frees⟩ := List.forall_mem_cons.mp frees
        exact ⟨⟨usable, here⟩, ⟨more, others⟩, new, frees⟩

theorem objectSplit_complete_iff (owner : String) (own : Entries Json) (site : Site) :
    (objectSplit owner own site).2 = none ↔ LegibleProperties own := by
  unfold objectSplit LegibleProperties
  cases found : Entries.get? "properties" own with
  | none => simp
  | some value =>
      cases value with
      | obj properties =>
          simp [splitFields_complete_iff]
      | null | bool | num | str | arr => simp

/-- The keys of the fields of a class are legible. -/
theorem legibleKeys_of_split {owner : String} {own : Entries Json} {site : Site}
    {properties : List (String × Json)}
    (split : objectSplit owner own site = (properties, none)) :
    LegibleKeys (Entries.names properties) := by
  rw [objectSplit_eq_declared split]
  have legible := (objectSplit_complete_iff ..).mp (congrArg Prod.snd split)
  unfold declared
  cases found : Entries.get? "properties" own with
  | none => exact ⟨nofun, List.nodup_nil⟩
  | some value =>
      obtain ⟨properties, rfl, keys⟩ := legible value found
      exact keys

end Walk

end SchemaLoom
