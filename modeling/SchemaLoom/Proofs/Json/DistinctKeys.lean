import SchemaLoom.Json.Reading
import SchemaLoom.Proofs.Json.Within

set_option autoImplicit false

/-! # Keys that occur once

A stored object is a list of entries, so nothing in its type keeps a key from occurring twice. A
document that was read is built by `Entries.gather`, which puts a later value in the place of an
earlier one, and so every object in it has each of its keys once.
-/

namespace SchemaLoom

/-- In every object of the document each key has one value. -/
def DistinctKeys (document : Json) : Prop :=
  ∀ members, (Json.obj members).Within document → (Entries.names members).Nodup

namespace DistinctKeys

variable {document : Json}

/-- The test of one value: whether it has each of its keys once. -/
def passes : Json → Bool
  | .obj members => (Entries.names members).Nodup
  | _ => true

theorem of_everywhere (h : document.everywhere passes = true) : DistinctKeys document := by
  intro members within
  have passed : passes (.obj members) = true := within.passes h
  exact of_decide_eq_true passed

theorem of_ne_container (plain : ∀ items, document ≠ .arr items)
    (flat : ∀ members, document ≠ .obj members) : DistinctKeys document := by
  intro members within
  cases within with
  | refl => exact absurd rfl (flat members)
  | item mem _ => exact absurd rfl (plain _)
  | member mem _ => exact absurd rfl (flat _)

theorem arr {items : List Json} (h : ∀ item ∈ items, DistinctKeys item) :
    DistinctKeys (.arr items) := by
  intro members within
  cases within with
  | item mem within => exact h _ mem members within

theorem obj {entries : List (String × Json)} (distinct : (Entries.names entries).Nodup)
    (h : ∀ entry ∈ entries, DistinctKeys entry.2) : DistinctKeys (.obj entries) := by
  intro members within
  cases within with
  | refl => exact distinct
  | member mem within => exact h _ mem members within

end DistinctKeys

/-! ## Documents that were read -/

namespace Draft

mutual

/-- The value of a draft has each key of an object once. -/
theorem distinctKeys_of_toJson {place : Place} {value : Json} :
    (draft : Draft) → draft.toJson place = .ok value → DistinctKeys value
  | .null, h | .bool _, h | .num (.good _), h | .str (.good _), h => by
      cases h
      exact .of_ne_container nofun nofun
  | .num (.faulty _ _), h | .str (.faulty _ _), h | .broken _, h | .noColon _, h => by cases h
  | .arr deep items stop, h => by
      rw [toJson] at h
      split at h
      · cases h
      · cases read : toItems place 0 items with
        | error e => rw [read] at h; cases h
        | ok values =>
            rw [read] at h
            cases stopped : stop.nextFault? with
            | some fault => simp only [stopped] at h; cases h
            | none =>
                simp only [stopped] at h
                cases h
                exact .arr (distinctKeys_of_toItems items read)
  | .obj deep members stop, h => by
      rw [toJson] at h
      split at h
      · cases h
      · cases read : toMembers place members with
        | error e => rw [read] at h; cases h
        | ok values =>
            rw [read] at h
            cases stopped : stop.nextFault? with
            | some fault => simp only [stopped] at h; cases h
            | none =>
                simp only [stopped] at h
                cases h
                refine .obj (Entries.nodup_names_gather values) ?_
                intro entry mem
                exact distinctKeys_of_toMembers members read entry (Entries.mem_of_mem_gather mem)

theorem distinctKeys_of_toItems {place : Place} {i : Nat} {values : List Json} :
    (items : List Draft) → toItems place i items = .ok values →
      ∀ value ∈ values, DistinctKeys value
  | [], h, value, mem => by
      cases h
      cases mem
  | item :: rest, h, value, mem => by
      rw [toItems] at h
      cases first : item.toJson (place ++ [.index i]) with
      | error e => rw [first] at h; cases h
      | ok own =>
          rw [first] at h
          cases others : toItems place (i + 1) rest with
          | error e => simp only [others] at h; cases h
          | ok more =>
              simp only [others] at h
              cases h
              rcases List.mem_cons.mp mem with rfl | mem
              · exact distinctKeys_of_toJson item first
              · exact distinctKeys_of_toItems rest others value mem

theorem distinctKeys_of_toMembers {place : Place} {values : List (String × Json)} :
    (members : List (Token String × Draft)) → toMembers place members = .ok values →
      ∀ entry ∈ values, DistinctKeys entry.2
  | [], h, entry, mem => by
      cases h
      cases mem
  | (.faulty _ _, _) :: _, h, _, _ => by cases h
  | (.good key, draft) :: rest, h, entry, mem => by
      rw [toMembers] at h
      cases first : draft.toJson (memberPlace place key draft) with
      | error e => rw [first] at h; cases h
      | ok own =>
          rw [first] at h
          cases others : toMembers place rest with
          | error e => simp only [others] at h; cases h
          | ok more =>
              simp only [others] at h
              cases h
              rcases List.mem_cons.mp mem with rfl | mem
              · exact distinctKeys_of_toJson draft first
              · exact distinctKeys_of_toMembers rest others entry mem

end

end Draft

/-- **A document that was read has each key of an object once.** -/
theorem Json.distinctKeys_of_parseNested {limit : Nat} {text : String} {document : Json}
    (h : Json.parseNested limit text = .ok document) : DistinctKeys document := by
  unfold Json.parseNested at h
  split at h
  next draft rest scanned =>
    cases read : draft.toJson [] with
    | error e => simp only [read] at h; cases h
    | ok value =>
        simp only [read] at h
        split at h
        · cases h
          exact draft.distinctKeys_of_toJson read
        · cases h

end SchemaLoom
