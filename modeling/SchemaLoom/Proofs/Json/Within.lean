import Mathlib.Algebra.GroupWithZero.Nat
import Mathlib.Algebra.Order.BigOperators.Group.List
import Mathlib.Algebra.Order.Group.Nat
import SchemaLoom.Schema.Convert

set_option autoImplicit false

/-! # Values inside a value

`Json.Within part whole` says that a value stands somewhere in another one, at any depth. Whatever
a walk visits is within the document it walks: the parts of a node are, and so is whatever a
reference points at. `Json.PartsIn` adds what makes a descent end, namely that the parts are less
deep than the whole and together smaller.
-/

namespace SchemaLoom

namespace Json

/-- A value is the whole, or stands within one of its items or members. -/
inductive Within (part : Json) : Json → Prop where
  | refl : Within part part
  | item {items : List Json} {item : Json} (mem : item ∈ items) (within : Within part item) :
      Within part (.arr items)
  | member {members : List (String × Json)} {key : String} {value : Json}
      (mem : (key, value) ∈ members) (within : Within part value) : Within part (.obj members)

theorem Within.trans {i j k : Json} (h : Within i j) (h' : Within j k) : Within i k := by
  induction h' with
  | refl => exact h
  | item mem _ ih => exact .item mem ih
  | member mem _ ih => exact .member mem ih

theorem within_of_get? {key : String} {value : Json} {members : Entries Json}
    (h : Entries.get? key members = some value) : value.Within (.obj members) :=
  .member (Entries.mem_of_get? h) .refl

/-! ## Tests everywhere -/

mutual

/-- Whether every value within a value passes a test. -/
def everywhere (test : Json → Bool) : Json → Bool
  | .arr items => test (.arr items) && everywhereItems test items
  | .obj members => test (.obj members) && everywhereMembers test members
  | .null => test .null
  | .bool b => test (.bool b)
  | .num n => test (.num n)
  | .str text => test (.str text)

/-- Whether every value within items passes a test. -/
def everywhereItems (test : Json → Bool) : List Json → Bool
  | [] => true
  | item :: rest => item.everywhere test && everywhereItems test rest

/-- Whether every value within members passes a test. -/
def everywhereMembers (test : Json → Bool) : List (String × Json) → Bool
  | [] => true
  | (_, value) :: rest => value.everywhere test && everywhereMembers test rest

end

variable {test : Json → Bool}

theorem everywhereItems_of_mem {items : List Json} {item : Json}
    (h : everywhereItems test items = true) (mem : item ∈ items) :
    item.everywhere test = true := by
  induction items with
  | nil => cases mem
  | cons first rest ih =>
      simp only [everywhereItems, Bool.and_eq_true] at h
      rcases List.mem_cons.mp mem with rfl | mem
      · exact h.1
      · exact ih h.2 mem

theorem everywhereMembers_of_mem {members : List (String × Json)} {key : String} {value : Json}
    (h : everywhereMembers test members = true) (mem : (key, value) ∈ members) :
    value.everywhere test = true := by
  induction members with
  | nil => cases mem
  | cons first rest ih =>
      simp only [everywhereMembers, Bool.and_eq_true] at h
      rcases List.mem_cons.mp mem with rfl | mem
      · exact h.1
      · exact ih h.2 mem

theorem test_of_everywhere {whole : Json} (h : whole.everywhere test = true) :
    test whole = true := by
  cases whole with
  | arr items =>
      simp only [everywhere, Bool.and_eq_true] at h
      exact h.1
  | obj members =>
      simp only [everywhere, Bool.and_eq_true] at h
      exact h.1
  | null | bool | num | str => exact h

/-- A test that is passed everywhere is passed by whatever stands within. -/
theorem Within.passes {part whole : Json} (within : part.Within whole)
    (h : whole.everywhere test = true) : test part = true := by
  induction within with
  | refl => exact test_of_everywhere h
  | item mem _ ih =>
      simp only [everywhere, Bool.and_eq_true] at h
      exact ih (everywhereItems_of_mem h.2 mem)
  | member mem _ ih =>
      simp only [everywhere, Bool.and_eq_true] at h
      exact ih (everywhereMembers_of_mem h.2 mem)

/-! ## Depth and size of the parts -/

theorem depth_le_of_mem_items {items : List Json} {item : Json} (h : item ∈ items) :
    item.depth ≤ depthOfItems items := by
  induction items with
  | nil => cases h
  | cons first rest ih =>
      show item.depth ≤ max first.depth (depthOfItems rest)
      rcases List.mem_cons.mp h with rfl | h
      · omega
      · have inner := ih h
        omega

theorem depth_le_of_mem_members {members : List (String × Json)} {key : String} {value : Json}
    (h : (key, value) ∈ members) : value.depth ≤ depthOfMembers members := by
  induction members with
  | nil => cases h
  | cons first rest ih =>
      show value.depth ≤ max first.2.depth (depthOfMembers rest)
      rcases List.mem_cons.mp h with rfl | h
      · show value.depth ≤ max value.depth (depthOfMembers rest)
        omega
      · have inner := ih h
        omega

theorem sizeOfItems_eq (items : List Json) : sizeOfItems items = (items.map size).sum := by
  induction items with
  | nil => rfl
  | cons first rest ih => simp [sizeOfItems, ih]

theorem sizeOfMembers_eq (members : List (String × Json)) :
    sizeOfMembers members = (members.map fun member => member.2.size).sum := by
  induction members with
  | nil => rfl
  | cons first rest ih => simp [sizeOfMembers, ih]

theorem one_le_size (j : Json) : 1 ≤ j.size := by
  cases j <;> simp [size]

theorem Within.depth_le {part whole : Json} (h : part.Within whole) :
    part.depth ≤ whole.depth := by
  induction h with
  | refl => exact Nat.le_refl _
  | @item items item mem _ ih =>
      have outer := depth_le_of_mem_items mem
      show part.depth ≤ depthOfItems items + 1
      omega
  | @member members key value mem _ ih =>
      have outer := depth_le_of_mem_members mem
      show part.depth ≤ depthOfMembers members + 1
      omega

theorem Within.size_le {part whole : Json} (h : part.Within whole) : part.size ≤ whole.size := by
  induction h with
  | refl => exact Nat.le_refl _
  | @item items item mem _ ih =>
      have outer : item.size ≤ (items.map size).sum :=
        List.le_sum_of_mem (List.mem_map_of_mem mem)
      show part.size ≤ sizeOfItems items + 1
      rw [sizeOfItems_eq]
      omega
  | @member members key value mem _ ih =>
      have outer : value.size ≤ (members.map fun member => member.2.size).sum :=
        List.le_sum_of_mem (List.mem_map.mpr ⟨_, mem, rfl⟩)
      show part.size ≤ sizeOfMembers members + 1
      rw [sizeOfMembers_eq]
      omega

/-! ## Disjoint parts -/

/-- Values that stand in the whole side by side. -/
structure PartsIn (parts : List Json) (whole : Json) : Prop where
  within : ∀ part ∈ parts, part.Within whole
  depth : ∀ part ∈ parts, part.depth < whole.depth
  size : (parts.map Json.size).sum < whole.size

namespace PartsIn

theorem nil (whole : Json) : PartsIn [] whole where
  within := by simp
  depth := by simp
  size := one_le_size whole

theorem of_items (items : List Json) : PartsIn items (.arr items) where
  within := fun _ mem => .item mem .refl
  depth := fun _ mem => Nat.lt_succ_of_le (depth_le_of_mem_items mem)
  size := by
    show _ < sizeOfItems items + 1
    rw [sizeOfItems_eq]
    omega

theorem of_members (members : List (String × Json)) :
    PartsIn (members.map Prod.snd) (.obj members) where
  within := by
    rintro _ h
    obtain ⟨⟨key, value⟩, mem, rfl⟩ := List.mem_map.mp h
    exact .member mem .refl
  depth := by
    rintro _ h
    obtain ⟨⟨key, value⟩, mem, rfl⟩ := List.mem_map.mp h
    exact Nat.lt_succ_of_le (depth_le_of_mem_members mem)
  size := by
    show _ < sizeOfMembers members + 1
    rw [sizeOfMembers_eq, List.map_map]
    exact Nat.lt_succ_self _

theorem sublist {some all : List Json} {whole : Json} (le : some.Sublist all)
    (h : PartsIn all whole) : PartsIn some whole where
  within := fun part mem => h.within part (le.subset mem)
  depth := fun part mem => h.depth part (le.subset mem)
  size := by
    have smaller : (some.map Json.size).sum ≤ (all.map Json.size).sum :=
      (le.map Json.size).sum_le_sum (by simp)
    have bound := h.size
    omega

/-- The parts of a part are parts of the whole. -/
theorem of_within {parts : List Json} {part whole : Json} (h : PartsIn parts part)
    (within : part.Within whole) : PartsIn parts whole where
  within := fun p mem => (h.within p mem).trans within
  depth := fun p mem => Nat.lt_of_lt_of_le (h.depth p mem) within.depth_le
  size := Nat.lt_of_lt_of_le h.size within.size_le

/-- The value of a key stands in its object. -/
theorem of_get? {key : String} {value : Json} {members : Entries Json}
    (h : Entries.get? key members = some value) : PartsIn [value] (.obj members) := by
  have mem : value ∈ members.map Prod.snd :=
    List.mem_map.mpr ⟨_, Entries.mem_of_get? h, rfl⟩
  exact (of_members members).sublist (List.singleton_sublist.mpr mem)

/-- The items of the value of a key stand in its object. -/
theorem of_get?_items {key : String} {items : List Json} {members : Entries Json}
    (h : Entries.get? key members = some (.arr items)) : PartsIn items (.obj members) :=
  (of_items items).of_within (within_of_get? h)

end PartsIn

/-! ## References of the parts -/

theorem references_subset_of_mem_items {items : List Json} {item : Json} (h : item ∈ items) :
    item.references ⊆ referencesOfItems items := by
  induction items with
  | nil => cases h
  | cons first rest ih =>
      show item.references ⊆ first.references ++ referencesOfItems rest
      rcases List.mem_cons.mp h with rfl | h
      · exact List.subset_append_left _ _
      · exact List.subset_append_of_subset_right _ (ih h)

theorem mem_referencesOfMembers_cons {reference key : String} {value : Json}
    {rest : List (String × Json)} :
    reference ∈ referencesOfMembers ((key, value) :: rest) ↔
      (key = "$ref" ∧ value = .str reference) ∨ reference ∈ value.references ∨
        reference ∈ referencesOfMembers rest := by
  rw [referencesOfMembers.eq_def]
  simp only [List.mem_append, or_assoc]
  refine or_congr ?_ Iff.rfl
  split
  · simp [eq_comm]
  · next other =>
      simp only [List.not_mem_nil, false_iff]
      rintro ⟨hk, hv⟩
      exact other reference hk hv

theorem mem_referencesOfMembers {reference : String} {members : List (String × Json)} :
    reference ∈ referencesOfMembers members ↔
      ∃ e ∈ members, e = ("$ref", .str reference) ∨ reference ∈ e.2.references := by
  induction members with
  | nil => simp [referencesOfMembers]
  | cons first rest ih =>
      rw [mem_referencesOfMembers_cons, ih, List.exists_mem_cons_iff, Prod.mk.injEq, or_assoc]

theorem references_subset_of_mem_members {members : List (String × Json)} {key : String}
    {value : Json} (h : (key, value) ∈ members) :
    value.references ⊆ referencesOfMembers members := by
  induction members with
  | nil => cases h
  | cons first rest ih =>
      obtain ⟨name, inner⟩ := first
      intro reference hr
      rw [mem_referencesOfMembers_cons]
      rcases List.mem_cons.mp h with same | h
      · cases same
        exact Or.inr (Or.inl hr)
      · exact Or.inr (Or.inr (ih h hr))

theorem Within.references_subset {part whole : Json} (h : part.Within whole) :
    part.references ⊆ whole.references := by
  induction h with
  | refl => exact fun _ hr => hr
  | item mem _ ih => exact fun _ hr => references_subset_of_mem_items mem (ih hr)
  | member mem _ ih => exact fun _ hr => references_subset_of_mem_members mem (ih hr)

/-- The reference that an object holds is one of its references. -/
theorem mem_references_of_get? {members : Entries Json} {reference : String}
    (h : Entries.get? "$ref" members = some (.str reference)) :
    reference ∈ (Json.obj members).references := by
  have mem := Entries.mem_of_get? h
  clear h
  show reference ∈ referencesOfMembers members
  induction members with
  | nil => cases mem
  | cons first rest ih =>
      obtain ⟨name, inner⟩ := first
      rw [mem_referencesOfMembers_cons]
      rcases List.mem_cons.mp mem with same | mem
      · cases same
        exact Or.inl ⟨rfl, rfl⟩
      · exact Or.inr (Or.inr (ih mem))

end Json

/-! ## What pointers select -/

namespace Pointer

theorem step?_within {value selected : Json} {segment : List Char}
    (h : step? value segment = some selected) : selected.Within value := by
  cases value with
  | obj members => exact Json.within_of_get? h
  | arr items =>
      simp only [step?] at h
      cases index : index? (unescapeChars segment) with
      | none =>
          rw [index] at h
          cases h
      | some i =>
          rw [index] at h
          exact .item (List.mem_of_getElem? h) .refl
  | _ => cases h

theorem walk?_within {value selected : Json} {segments : List (List Char)}
    (h : walk? value segments = some selected) : selected.Within value := by
  induction segments generalizing value with
  | nil =>
      cases h
      exact .refl
  | cons segment rest ih =>
      rw [walk?] at h
      cases inner : step? value segment with
      | none =>
          rw [inner] at h
          cases h
      | some next =>
          rw [inner] at h
          exact (ih h).trans (step?_within inner)

/-- What a reference points at stands in the document. -/
theorem resolve?_within {document target : Json} {reference : String}
    (h : resolve? document reference = some target) : target.Within document := by
  unfold resolve? at h
  split at h
  · unfold selectChars? at h
    split at h
    · cases h
      exact .refl
    · exact walk?_within h
    · cases h
  · cases h

theorem within_of_json_get? {key : String} {value inner : Json} (h : value.get? key = some inner) :
    inner.Within value := by
  cases value with
  | obj members => exact Json.within_of_get? h
  | _ => cases h

/-- A definition is a member of what a container has. -/
theorem exists_of_mem_definitions {document schema : Json} {path : String}
    (h : (path, schema) ∈ definitions document) : ∃ container key members,
      path = root ++ "/" ++ container ++ "/" ++ escape key ∧
        document.get? container = some (.obj members) ∧ (key, schema) ∈ members := by
  obtain ⟨container, -, h⟩ := List.mem_flatMap.mp h
  unfold definitionsOf at h
  split at h
  · next members found =>
      obtain ⟨⟨key, value⟩, mem, same⟩ := List.mem_map.mp h
      cases same
      exact ⟨container, key, members, rfl, found, mem⟩
  · cases h

theorem definitions_within {document schema : Json} {path : String}
    (h : (path, schema) ∈ definitions document) : schema.Within document := by
  obtain ⟨container, key, members, -, found, mem⟩ := exists_of_mem_definitions h
  have inner : schema.Within (.obj members) := .member mem .refl
  exact inner.trans (within_of_json_get? found)

end Pointer

end SchemaLoom
