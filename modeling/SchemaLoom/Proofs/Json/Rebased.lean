import Mathlib.Data.List.Basic
import SchemaLoom.Proofs.Json.Pointers
import SchemaLoom.Schema.Convert
import SchemaLoom.Tool.Wrapper

set_option autoImplicit false

/-! # References that are moved

`Json.rebase` writes the references of a schema anew and nothing else. Where the texts under `$ref`
are taken away (`Json.unlinked`) no difference is left, and the references are the old ones, each
moved by itself, in the same order.

A pointer therefore leads in the moved schema to the moved node. Only a pointer to a text may lead
to something else, since the text may be a reference.
-/

namespace SchemaLoom

namespace Json

/-! ## What moving leaves alone -/

mutual

/-- The value with every text under the key `$ref` taken away. -/
def unlinked : Json → Json
  | .arr items => .arr (unlinkedItems items)
  | .obj members => .obj (unlinkedMembers members)
  | other => other

/-- The items with every text under the key `$ref` taken away. -/
def unlinkedItems : List Json → List Json
  | [] => []
  | item :: rest => item.unlinked :: unlinkedItems rest

/-- The members with every text under the key `$ref` taken away. -/
def unlinkedMembers : List (String × Json) → List (String × Json)
  | [] => []
  | (key, value) :: rest =>
      (key, match key, value.string? with
        | "$ref", some _ => .str ""
        | _, _ => value.unlinked) :: unlinkedMembers rest

end

/-- A member that is a reference: a text under the key `$ref`. -/
def IsReference (member : String × Json) : Prop := ∃ text, member = ("$ref", .str text)

section Members

variable {member : String × Json} (rest : List (String × Json)) (home : String)

theorem rebaseMembers_cons (h : ¬ IsReference member) :
    rebaseMembers home (member :: rest)
      = (member.1, member.2.rebase home) :: rebaseMembers home rest := by
  obtain ⟨key, value⟩ := member
  rw [rebaseMembers]
  intro text key isText
  cases value with
  | str _ =>
      subst key
      exact h ⟨_, rfl⟩
  | _ => cases isText

theorem unlinkedMembers_cons (h : ¬ IsReference member) :
    unlinkedMembers (member :: rest) = (member.1, member.2.unlinked) :: unlinkedMembers rest := by
  obtain ⟨key, value⟩ := member
  rw [unlinkedMembers]
  intro text key isText
  cases value with
  | str _ =>
      subst key
      exact h ⟨_, rfl⟩
  | _ => cases isText

theorem referencesOfMembers_cons (h : ¬ IsReference member) :
    referencesOfMembers (member :: rest) = member.2.references ++ referencesOfMembers rest := by
  obtain ⟨key, value⟩ := member
  rw [referencesOfMembers]
  · rfl
  · intro text key isText
    subst key isText
    exact h ⟨_, rfl⟩

end Members

theorem not_isReference_rebase {member : String × Json} (home : String)
    (h : ¬ IsReference member) : ¬ IsReference (member.1, member.2.rebase home) := by
  rintro ⟨text, same⟩
  obtain ⟨key, value⟩ := member
  cases value with
  | str own =>
      cases same
      exact h ⟨_, rfl⟩
  | _ => cases same

mutual

/-- Apart from its references a moved schema is the schema it was. -/
theorem unlinked_rebase (home : String) (j : Json) : (j.rebase home).unlinked = j.unlinked := by
  cases j with
  | arr items => exact congrArg Json.arr (unlinkedItems_rebaseItems home items)
  | obj members => exact congrArg Json.obj (unlinkedMembers_rebaseMembers home members)
  | null | bool | num | str => rfl

theorem unlinkedItems_rebaseItems (home : String) (items : List Json) :
    unlinkedItems (rebaseItems home items) = unlinkedItems items := by
  match items with
  | [] => rfl
  | item :: rest =>
      show (item.rebase home).unlinked :: unlinkedItems (rebaseItems home rest)
        = item.unlinked :: unlinkedItems rest
      rw [unlinked_rebase home item, unlinkedItems_rebaseItems home rest]

theorem unlinkedMembers_rebaseMembers (home : String) (members : List (String × Json)) :
    unlinkedMembers (rebaseMembers home members) = unlinkedMembers members := by
  match members with
  | [] => rfl
  | (key, value) :: rest =>
      have more := unlinkedMembers_rebaseMembers home rest
      by_cases reference : IsReference (key, value)
      · obtain ⟨text, same⟩ := reference
        cases same
        exact congrArg (("$ref", Json.str "") :: ·) more
      · rw [rebaseMembers_cons _ _ reference,
          unlinkedMembers_cons _ (not_isReference_rebase home reference),
          unlinkedMembers_cons _ reference, more, unlinked_rebase home value]

end

mutual

/-- The references of a moved schema are the old ones, each moved by itself. -/
theorem references_rebase (home : String) (j : Json) :
    (j.rebase home).references = j.references.map (Pointer.rebase home) := by
  cases j with
  | arr items => exact references_rebaseItems home items
  | obj members => exact references_rebaseMembers home members
  | null | bool | num | str => rfl

theorem references_rebaseItems (home : String) (items : List Json) :
    referencesOfItems (rebaseItems home items)
      = (referencesOfItems items).map (Pointer.rebase home) := by
  match items with
  | [] => rfl
  | item :: rest =>
      show (item.rebase home).references ++ referencesOfItems (rebaseItems home rest)
        = (item.references ++ referencesOfItems rest).map _
      rw [List.map_append, references_rebase home item, references_rebaseItems home rest]

theorem references_rebaseMembers (home : String) (members : List (String × Json)) :
    referencesOfMembers (rebaseMembers home members)
      = (referencesOfMembers members).map (Pointer.rebase home) := by
  match members with
  | [] => rfl
  | (key, value) :: rest =>
      have more := references_rebaseMembers home rest
      by_cases reference : IsReference (key, value)
      · obtain ⟨text, same⟩ := reference
        cases same
        exact congrArg (Pointer.rebase home text :: ·) more
      · rw [rebaseMembers_cons _ _ reference,
          referencesOfMembers_cons _ (not_isReference_rebase home reference),
          referencesOfMembers_cons _ reference, List.map_append, more,
          references_rebase home value]

end

mutual

/-- A schema stays as it is where each of its references does. -/
theorem rebase_eq_self {home : String} (j : Json)
    (stay : ∀ reference ∈ j.references, Pointer.rebase home reference = reference) :
    j.rebase home = j := by
  cases j with
  | arr items => exact congrArg Json.arr (rebaseItems_eq_self items stay)
  | obj members => exact congrArg Json.obj (rebaseMembers_eq_self members stay)
  | null | bool | num | str => rfl

theorem rebaseItems_eq_self {home : String} (items : List Json)
    (stay : ∀ reference ∈ referencesOfItems items, Pointer.rebase home reference = reference) :
    rebaseItems home items = items := by
  match items with
  | [] => rfl
  | item :: rest =>
      have first := rebase_eq_self item fun reference mem => stay _ (List.mem_append_left _ mem)
      have more := rebaseItems_eq_self rest fun reference mem =>
        stay _ (List.mem_append_right _ mem)
      rw [rebaseItems, first, more]

theorem rebaseMembers_eq_self {home : String} (members : List (String × Json))
    (stay : ∀ reference ∈ referencesOfMembers members, Pointer.rebase home reference = reference) :
    rebaseMembers home members = members := by
  match members with
  | [] => rfl
  | (key, value) :: rest =>
      have more := rebaseMembers_eq_self rest fun reference mem =>
        stay reference (List.mem_append_right _ mem)
      by_cases reference : IsReference (key, value)
      · obtain ⟨text, same⟩ := reference
        cases same
        show ("$ref", Json.str (Pointer.rebase home text)) :: rebaseMembers home rest = _
        rw [stay text List.mem_cons_self, more]
      · rw [referencesOfMembers_cons _ reference] at stay
        rw [rebaseMembers_cons _ _ reference, more,
          rebase_eq_self value fun r mem => stay r (List.mem_append_left _ mem)]

end

/-! ## What pointers select -/

theorem names_rebaseMembers (home : String) (members : Entries Json) :
    Entries.names (rebaseMembers home members) = Entries.names members := by
  induction members with
  | nil => rfl
  | cons member rest ih => exact congrArg (member.1 :: ·) ih

/-- What is no text stands moved under its key. -/
theorem get?_rebaseMembers {home key : String} {members : Entries Json} {value : Json}
    (found : Entries.get? key members = some value) (notText : value.isString = false) :
    Entries.get? key (rebaseMembers home members) = some (value.rebase home) := by
  induction members with
  | nil => cases found
  | cons member rest ih =>
      by_cases same : member.1 = key
      · obtain ⟨name, own⟩ := member
        cases same
        rw [Entries.get?_cons_self] at found
        cases found
        -- Only a text can be a reference.
        have reference : ¬ IsReference (name, value) := by
          rintro ⟨text, eq⟩
          cases eq
          cases notText
        rw [rebaseMembers_cons _ _ reference, Entries.get?_cons_self]
      · rw [Entries.get?_cons_of_ne same] at found
        exact (Entries.get?_cons_of_ne same _ _).trans (ih found)

theorem getElem?_rebaseItems (home : String) (items : List Json) (i : Nat) :
    (rebaseItems home items)[i]? = items[i]?.map (rebase home) := by
  induction items generalizing i with
  | nil => rfl
  | cons item rest ih =>
      cases i with
      | zero => rfl
      | succ i => exact ih i

end Json

namespace Pointer

variable {home : String} {value selected : Json}

theorem step?_rebase {segment : List Char} (found : step? value segment = some selected)
    (notText : selected.isString = false) :
    step? (value.rebase home) segment = some (selected.rebase home) := by
  cases value with
  | obj members => exact Json.get?_rebaseMembers found notText
  | arr items =>
      rw [step?] at found
      rw [Json.rebase, step?]
      cases index : index? (unescapeChars segment) with
      | none =>
          rw [index] at found
          cases found
      | some i =>
          simp only [index] at found
          simp only [Json.getElem?_rebaseItems, found, Option.map_some]
  | _ => cases found

/-- A text has no parts. -/
theorem notText_of_walk? {segments : List (List Char)}
    (found : walk? value segments = some selected) (notText : selected.isString = false) :
    value.isString = false := by
  cases segments with
  | nil =>
      cases found
      exact notText
  | cons segment rest =>
      cases value with
      | str text => cases found
      | _ => rfl

/-- **A pointer leads in a moved schema to the moved node.** -/
theorem walk?_rebase (home : String) {segments : List (List Char)}
    (found : walk? value segments = some selected) (notText : selected.isString = false) :
    walk? (value.rebase home) segments = some (selected.rebase home) := by
  induction segments generalizing value with
  | nil =>
      cases found
      rfl
  | cons segment rest ih =>
      rw [walk?] at found
      cases inner : step? value segment with
      | none =>
          rw [inner] at found
          cases found
      | some next =>
          rw [inner] at found
          rw [walk?, step?_rebase inner (notText_of_walk? found notText)]
          exact ih found

/-! ## References into definitions -/

/-- A segment with an escape is read as a key with a tilde or a slash. -/
theorem mem_unescapeChars_of_tilde {segment : List Char} (h : '~' ∈ segment) :
    '~' ∈ unescapeChars segment ∨ '/' ∈ unescapeChars segment := by
  induction segment using unescapeChars.induct with
  | case1 => cases h
  | case2 rest ih => exact Or.inl (by simp [unescapeChars])
  | case3 rest ih => exact Or.inr (by simp [unescapeChars])
  | case4 c rest zero one ih =>
      rw [unescapeChars.eq_4 _ _ zero one, List.mem_cons, List.mem_cons]
      rcases List.mem_cons.mp h with same | later
      · exact Or.inl (Or.inl same)
      · exact (ih later).imp Or.inr Or.inr

/-- Only the key itself is read as a key without tildes and slashes. -/
theorem eq_of_unescapeChars {segment key : List Char} (h : unescapeChars segment = key)
    (tilde : '~' ∉ key) (slash : '/' ∉ key) : segment = key := by
  have plain : '~' ∉ segment := by
    intro mem
    rcases mem_unescapeChars_of_tilde mem with there | there
    · exact tilde (h ▸ there)
    · exact slash (h ▸ there)
  rwa [unescapeChars_eq_self plain] at h

/-- A reference leads into definitions where its first key is that of a container. -/
theorem isIntoDefinitions_slash {rest first : List Char} {more : List (List Char)}
    (cut : Text.pieces (· = '/') rest = first :: more) :
    isIntoDefinitions ('/' :: rest) = true ↔
      String.ofList (unescapeChars first) ∈ containers := by
  have whole : Text.pieces (· = '/') ('/' :: rest) = [] :: first :: more := by
    rw [Text.pieces_cons_of_separates (by simp), cut]
  have same : isIntoDefinitions ('/' :: rest) = containers.contains (String.ofList first) := by
    rw [isIntoDefinitions, whole]
  rw [same, List.contains_iff_mem]
  constructor
  · intro mem
    have plain := (plain_of_mem_containers mem).1
    rw [String.toList_ofList] at plain
    rwa [unescapeChars_eq_self plain]
  -- No other segment is read as the key of a container, since these have nothing to escape.
  · intro mem
    have plain := plain_of_mem_containers mem
    rw [String.toList_ofList] at plain
    rwa [eq_of_unescapeChars rfl plain.1 plain.2]

theorem rebase_of_into (home : String) {pointer : List Char}
    (h : isIntoDefinitions pointer = true) :
    rebase home (String.ofList ('#' :: pointer)) = String.ofList ('#' :: pointer) := by
  simp [rebase, h]

theorem rebase_of_not_into (home : String) {pointer : List Char}
    (h : isIntoDefinitions pointer = false) :
    rebase home (String.ofList ('#' :: pointer)) = home ++ String.ofList pointer := by
  simp [rebase, h]

end Pointer

end SchemaLoom
