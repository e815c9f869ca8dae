import Mathlib.Data.List.Nodup
import SchemaLoom.Entries

set_option autoImplicit false

/-! # Many insertions

When entries are inserted one after the other, a name keeps the place where it first came and takes
the value that came last. `lastWins` says so at once, without the insertions: it goes through the
distinct names in the order of their first occurrence and looks each one up from the end.

What was there before keeps its order and stands in front (`names_insertAll`); a name that is not
inserted keeps its value (`get?_insertAll`).
-/

namespace SchemaLoom.Entries

variable {α : Type}

/-- Inserts entries one after the other. -/
def insertAll (entries : Entries α) (more : List (String × α)) : Entries α :=
  more.foldl (fun gathered (name, value) => insert name value gathered) entries

/-- The value that a name has last. -/
def last? (name : String) (entries : List (String × α)) : Option α := get? name entries.reverse

/-- The distinct names of entries in the order of their first occurrence, each with the value that
it has last. -/
def lastWins (entries : List (String × α)) : Entries α :=
  (names entries).eraseDups.filterMap fun name => (last? name entries).map (name, ·)

@[simp] theorem insertAll_nil (entries : Entries α) : insertAll entries [] = entries := rfl

@[simp] theorem insertAll_cons (entries : Entries α) (e : String × α) (rest : List (String × α)) :
    insertAll entries (e :: rest) = insertAll (insert e.1 e.2 entries) rest := rfl

/-- A value that is replaced at once leaves no trace. -/
@[simp] theorem insert_insert (name : String) (first second : α) (entries : Entries α) :
    insert name second (insert name first entries) = insert name second entries := by
  induction entries with
  | nil => simp [insert]
  | cons e rest ih =>
      obtain ⟨n, a⟩ := e
      by_cases h : n = name
      · simp [insert, h]
      · simp [insert, h, ih]

/-! ## Values -/

theorem get?_append (name : String) (entries more : Entries α) :
    get? name (entries ++ more) = (get? name entries).or (get? name more) := by
  induction entries with
  | nil => rfl
  | cons e rest ih =>
      obtain ⟨n, a⟩ := e
      by_cases h : n = name
      · simp [get?, h]
      · simpa [get?, h] using ih

theorem last?_cons (name : String) (e : String × α) (rest : List (String × α)) :
    last? name (e :: rest) = (last? name rest).or (get? name [e]) := by
  rw [last?, List.reverse_cons, get?_append]
  rfl

theorem last?_isSome {name : String} {entries : List (String × α)} :
    (last? name entries).isSome ↔ name ∈ names entries := by
  have absent : get? name entries.reverse = none ↔ name ∉ names entries.reverse := get?_eq_none_iff
  rw [last?, Option.isSome_iff_ne_none, Ne, absent, not_not]
  simp [names]

theorem names_map {β : Type} (name : β → String) (value : β → α) (items : List β) :
    names (items.map fun b => (name b, value b)) = items.map name := by
  simp [names]

theorem get?_map {β : Type} (key : String) (name : β → String) (value : β → α) (items : List β) :
    get? key (items.map fun b => (name b, value b))
      = (items.find? fun b => name b = key).map value := by
  induction items with
  | nil => rfl
  | cons b rest ih =>
      by_cases h : name b = key
      · simp [h]
      · simpa [get?, h] using ih

/-- The last value of a name is that of the last item which has the name. -/
theorem last?_map {β : Type} (key : String) (name : β → String) (value : β → α) (items : List β) :
    last? key (items.map fun b => (name b, value b))
      = (items.reverse.find? fun b => name b = key).map value := by
  rw [last?, ← List.map_reverse, get?_map]

/-- A name has the value that was inserted last, if any was, and else the one it had before. -/
theorem get?_insertAll (name : String) (entries : Entries α) (more : List (String × α)) :
    get? name (insertAll entries more) = (last? name more).or (get? name entries) := by
  induction more generalizing entries with
  | nil => rfl
  | cons e rest ih =>
      obtain ⟨n, a⟩ := e
      rw [insertAll_cons, ih, last?_cons, Option.or_assoc]
      congr 1
      by_cases h : n = name
      · subst h
        simp
      · rw [get?_insert_of_ne (Ne.symm h), get?_cons_of_ne h]
        rfl

theorem contains_insertAll {name : String} {entries : Entries α} {more : List (String × α)}
    (h : name ∈ names more) : contains name (insertAll entries more) = true := by
  rw [contains, get?_insertAll, Option.isSome_or, last?_isSome.mpr h, Bool.true_or]

/-! ## Order -/

/-- The names that were there stay in their order; new ones follow in the order in which they
first came. -/
theorem names_insertAll (entries : Entries α) (more : List (String × α)) :
    names (insertAll entries more)
      = names entries ++ ((names more).filter (· ∉ names entries)).eraseDups := by
  induction more generalizing entries with
  | nil => simp [names]
  | cons e rest ih =>
      obtain ⟨n, a⟩ := e
      have split : names ((n, a) :: rest) = n :: names rest := rfl
      rw [insertAll_cons, ih, split, names_insert]
      by_cases present : n ∈ names entries
      · have found : contains n entries = true := by
          rwa [contains, Option.isSome_iff_ne_none, Ne, get?_eq_none_iff, not_not]
        rw [if_pos found, List.filter_cons_of_neg (by simpa using present)]
      · have missing : ¬ contains n entries = true := by
          rwa [contains, Option.isSome_iff_ne_none, Ne, get?_eq_none_iff, not_not]
        -- The new name is no longer new for the rest, as after its first occurrence it is erased.
        have others : ((names rest).filter (· ∉ names entries)).filter (fun m => !m == n)
            = (names rest).filter (· ∉ names entries ++ [n]) := by
          rw [List.filter_filter]
          apply List.filter_congr
          intro m _
          by_cases same : m = n <;> simp [same]
        rw [if_neg missing, List.filter_cons_of_pos (by simpa using present), List.eraseDups_cons,
          others, List.append_assoc]
        rfl

theorem nodup_names_insertAll {entries : Entries α} (h : (names entries).Nodup)
    (more : List (String × α)) : (names (insertAll entries more)).Nodup := by
  induction more generalizing entries with
  | nil => exact h
  | cons e rest ih => exact ih (nodup_names_insert h)

theorem mem_of_mem_insertAll {entries : Entries α} {more : List (String × α)} {e : String × α}
    (h : e ∈ insertAll entries more) : e ∈ entries ∨ e ∈ more := by
  induction more generalizing entries with
  | nil => exact Or.inl h
  | cons first rest ih =>
      rcases ih h with before | later
      · rcases mem_insert before with same | before
        · exact Or.inr (same ▸ List.mem_cons_self)
        · exact Or.inl before
      · exact Or.inr (List.mem_cons_of_mem _ later)

/-! ## The closed form -/

/-- Where every name has one entry, the names in order and the value of each give the entries
back. -/
theorem filterMap_names {entries : Entries α} (distinct : (names entries).Nodup) :
    ((names entries).filterMap fun name => (get? name entries).map (name, ·)) = entries := by
  induction entries with
  | nil => rfl
  | cons e rest ih =>
      obtain ⟨n, a⟩ := e
      obtain ⟨absent, others⟩ := List.nodup_cons.mp distinct
      have lookups : ((names rest).filterMap fun name => (get? name ((n, a) :: rest)).map (name, ·))
          = (names rest).filterMap fun name => (get? name rest).map (name, ·) := by
        apply List.filterMap_congr
        intro name there
        have other : n ≠ name := fun same => absent (same ▸ there)
        rw [get?_cons_of_ne other]
      show ((n :: names rest).filterMap fun name => (get? name ((n, a) :: rest)).map (name, ·)) = _
      rw [List.filterMap_cons_some (b := (n, a)) (by simp), lookups, ih others]

/-- **Inserting entries into nothing gives every name its last value at the place of its first
occurrence.** -/
theorem insertAll_nil_eq_lastWins (entries : List (String × α)) :
    insertAll [] entries = lastWins entries := by
  have order : names (insertAll [] entries) = (names entries).eraseDups := by
    rw [names_insertAll]
    simp [names]
  have values (name : String) : get? name (insertAll [] entries) = last? name entries := by
    rw [get?_insertAll, get?_nil, Option.or_none]
  have distinct : (names (insertAll [] entries)).Nodup := by
    apply nodup_names_insertAll
    exact List.nodup_nil
  calc insertAll [] entries
      = (names (insertAll [] entries)).filterMap
          fun name => (get? name (insertAll [] entries)).map (name, ·) :=
        (filterMap_names distinct).symm
    _ = lastWins entries := by
        simp only [order, values]
        rfl

/-- The first name keeps its place and takes the later value. -/
example : lastWins [("unit", 1), ("price", 2), ("unit", 3)] = [("unit", 3), ("price", 2)] := by
  decide

end SchemaLoom.Entries
