import SchemaLoom.Entries

set_option autoImplicit false

/-! # Entries of some names

Where entries are kept by their names, the view of a name is that of all entries or none. An entry
that is inserted and taken off again leaves the entries of the other names (`filter_erase_insert`),
so it takes an older entry of its name off as well.
-/

namespace SchemaLoom.Entries

variable {α : Type}

/-- An entry that is filtered out may be inserted or not. -/
theorem filter_insert_of_not (keeps : String → Bool) {name : String} (drops : keeps name = false)
    (value : α) (entries : Entries α) :
    (insert name value entries).filter (keeps ·.1) = entries.filter (keeps ·.1) := by
  induction entries with
  | nil => simp [insert, drops]
  | cons e rest ih =>
      obtain ⟨n, a⟩ := e
      by_cases same : n = name
      · subst same
        simp [insert, drops]
      · rw [insert, if_neg same, List.filter_cons, List.filter_cons, ih]

theorem get?_filter (keeps : String → Bool) (name : String) (entries : Entries α) :
    get? name (entries.filter (keeps ·.1)) = if keeps name then get? name entries else none := by
  induction entries with
  | nil => simp
  | cons e rest ih =>
      obtain ⟨n, a⟩ := e
      cases kept : keeps n with
      | true =>
          rw [List.filter_cons_of_pos (by exact kept)]
          by_cases same : n = name
          · subst same
            simp [get?, kept]
          · rw [get?_cons_of_ne same, get?_cons_of_ne same, ih]
      | false =>
          rw [List.filter_cons_of_neg (by simp [kept]), ih]
          by_cases same : n = name
          · subst same
            simp [kept]
          · rw [get?_cons_of_ne same]

/-- Where every name has one entry, the entries of the other names are left. -/
theorem erase_eq_filter {name : String} {entries : Entries α} (distinct : (names entries).Nodup) :
    erase name entries = entries.filter (·.1 ≠ name) := by
  induction entries with
  | nil => rfl
  | cons e rest ih =>
      obtain ⟨n, a⟩ := e
      obtain ⟨absent, others⟩ := List.nodup_cons.mp distinct
      by_cases same : n = name
      · subst same
        have kept : rest.filter (·.1 ≠ n) = rest := by
          refine List.filter_eq_self.mpr fun other mem => ?_
          have apart : other.1 ≠ n := fun same => absent (List.mem_map.mpr ⟨other, mem, same⟩)
          simpa using apart
        rw [erase, if_pos rfl, List.filter_cons_of_neg (by simp), kept]
      · rw [erase, if_neg same, List.filter_cons_of_pos (by simpa using same), ih others]

/-- **An entry that is inserted and taken off again takes an older one of its name along.** -/
theorem filter_erase_insert {entries : Entries α} (distinct : (names entries).Nodup)
    (keeps : String → Bool) (name : String) (value : α) :
    erase name ((insert name value entries).filter (keeps ·.1))
      = entries.filter fun e => e.1 ≠ name && keeps e.1 := by
  have inserted : (names (insert name value entries)).Nodup := nodup_names_insert distinct
  have some : (names ((insert name value entries).filter (keeps ·.1))).Nodup :=
    inserted.sublist (List.filter_sublist.map Prod.fst)
  have drops : (decide (name ≠ name) && keeps name) = false := by simp
  rw [erase_eq_filter some, List.filter_filter]
  exact filter_insert_of_not (fun n => n ≠ name && keeps n) drops value entries

end SchemaLoom.Entries
