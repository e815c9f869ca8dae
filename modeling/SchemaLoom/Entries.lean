set_option autoImplicit false

/-! # Ordered maps from names

The members of a JSON object, the classes of a registry and the tables of a conversion are all
maps from names whose order of insertion shows in the output. They are lists of named entries
with at most one entry a name: `insert` replaces the value of a present name in place and
appends an absent one, so the order is that of first insertions.

The lemmas say what each operation does to the view `get?`.
-/

namespace SchemaLoom

/-- Named entries in order of their first insertion. -/
abbrev Entries (α : Type) := List (String × α)

namespace Entries

variable {α : Type}

/-- The value of a name. -/
def get? (name : String) : Entries α → Option α
  | [] => none
  | (n, a) :: rest => if n = name then some a else get? name rest

/-- Whether a name is present. -/
def contains (name : String) (entries : Entries α) : Bool := (get? name entries).isSome

/-- The names in order. -/
def names (entries : Entries α) : List String := entries.map Prod.fst

/-- Gives `name` the value `value`: in place when the name is present, at the end otherwise. -/
def insert (name : String) (value : α) : Entries α → Entries α
  | [] => [(name, value)]
  | (n, a) :: rest => if n = name then (n, value) :: rest else (n, a) :: insert name value rest

/-- Removes the entry of a name, keeping the order of the others. -/
def erase (name : String) : Entries α → Entries α
  | [] => []
  | (n, a) :: rest => if n = name then rest else (n, a) :: erase name rest

/-- The entries with the last one moved to the front. -/
def lastFirst : Entries α → Entries α
  | [] => []
  | e :: rest => (e :: rest).getLast (List.cons_ne_nil e rest) :: (e :: rest).dropLast

/-- Takes the entry of a name out; the last entry moves into the hole it leaves. -/
def swapErase? (name : String) : Entries α → Option (α × Entries α)
  | [] => none
  | (n, a) :: rest =>
      if n = name then some (a, lastFirst rest)
      else (swapErase? name rest).map fun (found, others) => (found, (n, a) :: others)

/-- Gathers entries read one after the other: a repeated name keeps its first position and takes
its last value. -/
def gather (entries : List (String × α)) : Entries α :=
  entries.foldl (fun gathered (name, value) => insert name value gathered) []

/-! ## What the operations do to the view -/

@[simp] theorem get?_nil (name : String) : get? name ([] : Entries α) = none := rfl

@[simp] theorem get?_cons_self (name : String) (a : α) (rest : Entries α) :
    get? name ((name, a) :: rest) = some a := by simp [get?]

theorem get?_cons_of_ne {name n : String} (h : n ≠ name) (a : α) (rest : Entries α) :
    get? name ((n, a) :: rest) = get? name rest := by simp [get?, h]

@[simp] theorem get?_insert_self (name : String) (value : α) (entries : Entries α) :
    get? name (insert name value entries) = some value := by
  induction entries with
  | nil => simp [insert]
  | cons e rest ih =>
      obtain ⟨n, a⟩ := e
      by_cases h : n = name
      · simp [insert, h]
      · simpa [insert, get?, h] using ih

theorem get?_insert_of_ne {name other : String} (h : other ≠ name) (value : α)
    (entries : Entries α) : get? other (insert name value entries) = get? other entries := by
  induction entries with
  | nil => simp [insert, get?, Ne.symm h]
  | cons e rest ih =>
      obtain ⟨n, a⟩ := e
      by_cases hn : n = name
      · subst hn
        simp [insert, get?, Ne.symm h]
      · rw [insert, if_neg hn]
        by_cases ho : n = other
        · simp [get?, ho]
        · rw [get?_cons_of_ne ho, get?_cons_of_ne ho, ih]

theorem get?_erase_of_ne {name other : String} (h : other ≠ name) (entries : Entries α) :
    get? other (erase name entries) = get? other entries := by
  induction entries with
  | nil => rfl
  | cons e rest ih =>
      obtain ⟨n, a⟩ := e
      by_cases hn : n = name
      · subst hn
        rw [erase, if_pos rfl, get?_cons_of_ne (Ne.symm h)]
      · rw [erase, if_neg hn]
        by_cases ho : n = other
        · simp [get?, ho]
        · rw [get?_cons_of_ne ho, get?_cons_of_ne ho, ih]

/-- Replacing a value or appending a name never moves an entry. -/
theorem names_insert (name : String) (value : α) (entries : Entries α) :
    names (insert name value entries)
      = if contains name entries then names entries else names entries ++ [name] := by
  induction entries with
  | nil => simp [insert, names, contains]
  | cons e rest ih =>
      obtain ⟨n, a⟩ := e
      by_cases h : n = name
      · simp [insert, names, contains, get?, h]
      · simp only [names, contains] at ih
        by_cases hr : (get? name rest).isSome <;>
          simp [insert, names, contains, get?, h, hr, ih]

/-! ## What the operations do to the entries -/

theorem mem_of_get? {name : String} {a : α} {entries : Entries α}
    (h : get? name entries = some a) : (name, a) ∈ entries := by
  induction entries with
  | nil => cases h
  | cons e rest ih =>
      obtain ⟨n, b⟩ := e
      by_cases hn : n = name
      · subst hn
        rw [get?_cons_self] at h
        cases h
        exact List.mem_cons_self
      · rw [get?_cons_of_ne hn] at h
        exact List.mem_cons_of_mem _ (ih h)

/-- Where every name has one entry, an entry is found by its name. -/
theorem get?_of_mem {entries : Entries α} (distinct : (names entries).Nodup) {e : String × α}
    (h : e ∈ entries) : get? e.1 entries = some e.2 := by
  induction entries with
  | nil => cases h
  | cons first rest ih =>
      obtain ⟨n, b⟩ := first
      obtain ⟨absent, others⟩ := List.nodup_cons.1 distinct
      rcases List.mem_cons.1 h with rfl | h
      · exact get?_cons_self ..
      · have other : n ≠ e.1 := fun same => absent (same ▸ List.mem_map.2 ⟨e, h, rfl⟩)
        rw [get?_cons_of_ne other, ih others h]

theorem get?_eq_none_iff {name : String} {entries : Entries α} :
    get? name entries = none ↔ name ∉ names entries := by
  induction entries with
  | nil => simp [names]
  | cons e rest ih =>
      obtain ⟨n, b⟩ := e
      by_cases hn : n = name
      · simp [names, get?, hn]
      · rw [get?_cons_of_ne hn, ih]
        simp [names, Ne.symm hn]

theorem mem_names_insert {name other : String} {value : α} {entries : Entries α} :
    other ∈ names (insert name value entries) ↔ other = name ∨ other ∈ names entries := by
  by_cases same : other = name
  · subst same
    have present : get? other (insert other value entries) ≠ none := by simp
    rw [Ne, get?_eq_none_iff] at present
    simpa using present
  · have view := get?_insert_of_ne same value entries
    have here : get? other (insert name value entries) = none
        ↔ other ∉ names (insert name value entries) := get?_eq_none_iff
    rw [view, get?_eq_none_iff] at here
    simp [same, Decidable.not_iff_not.mp here]

theorem mem_insert {name : String} {value : α} {entries : Entries α} {e : String × α}
    (h : e ∈ insert name value entries) : e = (name, value) ∨ e ∈ entries := by
  induction entries with
  | nil => exact .inl (List.mem_singleton.1 h)
  | cons first rest ih =>
      obtain ⟨n, b⟩ := first
      by_cases hn : n = name
      · rw [insert, if_pos hn] at h
        rcases List.mem_cons.1 h with rfl | h
        · exact .inl (by rw [hn])
        · exact .inr (List.mem_cons_of_mem _ h)
      · rw [insert, if_neg hn] at h
        rcases List.mem_cons.1 h with rfl | h
        · exact .inr List.mem_cons_self
        · exact (ih h).imp_right (List.mem_cons_of_mem _)

theorem erase_sublist (name : String) (entries : Entries α) :
    (erase name entries).Sublist entries := by
  induction entries with
  | nil => exact List.Sublist.refl _
  | cons e rest ih =>
      obtain ⟨n, b⟩ := e
      by_cases hn : n = name
      · rw [erase, if_pos hn]
        exact List.sublist_cons_self _ _
      · rw [erase, if_neg hn]
        exact ih.cons_cons _

theorem nodup_names_insert {name : String} {value : α} {entries : Entries α}
    (h : (names entries).Nodup) : (names (insert name value entries)).Nodup := by
  rw [names_insert]
  by_cases present : contains name entries
  · rwa [if_pos present]
  · rw [if_neg present]
    have absent : name ∉ names entries := by
      rw [← get?_eq_none_iff]
      simpa [contains] using present
    refine List.nodup_append.2 ⟨h, List.pairwise_singleton _ _, ?_⟩
    intro n hn m hm
    rw [List.mem_singleton.1 hm]
    exact fun same => absent (same ▸ hn)

theorem nodup_names_gather (entries : List (String × α)) : (names (gather entries)).Nodup := by
  have more (gathered : Entries α) (h : (names gathered).Nodup) :
      (names (entries.foldl (fun gathered (name, value) => insert name value gathered)
        gathered)).Nodup := by
    induction entries generalizing gathered with
    | nil => exact h
    | cons e rest ih => exact ih _ (nodup_names_insert h)
  exact more [] List.nodup_nil

theorem mem_of_mem_gather {entries : List (String × α)} {e : String × α}
    (h : e ∈ gather entries) : e ∈ entries := by
  have more (entries : List (String × α)) (gathered : Entries α)
      (h : e ∈ entries.foldl (fun gathered (name, value) => insert name value gathered) gathered) :
      e ∈ gathered ∨ e ∈ entries := by
    induction entries generalizing gathered with
    | nil => exact .inl h
    | cons first rest ih =>
        rcases ih _ h with before | later
        · rcases mem_insert before with same | before
          · exact .inr (same ▸ List.mem_cons_self)
          · exact .inl before
        · exact .inr (List.mem_cons_of_mem _ later)
  exact (more entries [] h).resolve_left List.not_mem_nil

theorem nodup_names_erase {name : String} {entries : Entries α} (h : (names entries).Nodup) :
    (names (erase name entries)).Nodup :=
  h.sublist ((erase_sublist name entries).map Prod.fst)

/-- Where every name has one entry, an erased name has none. -/
theorem ne_of_mem_erase {name : String} {entries : Entries α} (h : (names entries).Nodup)
    {e : String × α} (he : e ∈ erase name entries) : e.1 ≠ name := by
  induction entries with
  | nil => cases he
  | cons first rest ih =>
      obtain ⟨n, b⟩ := first
      obtain ⟨absent, distinct⟩ := List.nodup_cons.1 h
      by_cases hn : n = name
      · rw [erase, if_pos hn] at he
        intro same
        exact absent (List.mem_map.2 ⟨e, he, same.trans hn.symm⟩)
      · rw [erase, if_neg hn] at he
        rcases List.mem_cons.1 he with rfl | he
        · exact hn
        · exact ih distinct he

theorem get?_erase_self {name : String} {entries : Entries α} (h : (names entries).Nodup) :
    get? name (erase name entries) = none := by
  rw [get?_eq_none_iff]
  intro there
  obtain ⟨e, he, same⟩ := List.mem_map.1 there
  exact ne_of_mem_erase h he same

end Entries

end SchemaLoom
