import SchemaLoom.Proofs.Entries.Filtered
import SchemaLoom.Proofs.Entries.LastWins
import SchemaLoom.Proofs.Json.DistinctKeys
import SchemaLoom.Proofs.Json.Relative
import SchemaLoom.Proofs.Results

set_option autoImplicit false

/-! # Reading stored values

The draft of a stored value is without faults. A skipping reader passes over it, and it spells the
value it was made of, provided that no object has a key twice: a document is gathered key by key, so
only such a value comes back as it was.

The second half says when a record is read, one lemma for each kind of item and of member. A member
either denotes a field, which must not have come before, or is passed over.
-/

namespace SchemaLoom

/-! ## Gathered entries -/

namespace Entries

variable {α : Type}

theorem insert_of_not_mem {name : String} {entries : Entries α} (absent : name ∉ names entries)
    (value : α) : insert name value entries = entries ++ [(name, value)] := by
  induction entries with
  | nil => rfl
  | cons e rest ih =>
      obtain ⟨n, a⟩ := e
      have other : n ≠ name := fun same => absent (same ▸ List.mem_cons_self)
      rw [insert, if_neg other, ih fun there => absent (List.mem_cons_of_mem _ there)]
      rfl

/-- Where the kept names come once, gathering keeps their entries as they are. -/
theorem filter_insertAll {keeps : String → Bool} {entries : Entries α}
    {more : List (String × α)}
    (once : (names (entries.filter (keeps ·.1) ++ more.filter (keeps ·.1))).Nodup) :
    (insertAll entries more).filter (keeps ·.1)
      = entries.filter (keeps ·.1) ++ more.filter (keeps ·.1) := by
  induction more generalizing entries with
  | nil => simp
  | cons e rest ih =>
      obtain ⟨n, a⟩ := e
      rw [insertAll_cons]
      cases kept : keeps n with
      | false =>
          rw [List.filter_cons_of_neg (by simp [kept])] at once ⊢
          rw [← filter_insert_of_not keeps kept a entries] at once ⊢
          exact ih once
      | true =>
          rw [List.filter_cons_of_pos (by simp [kept])] at once ⊢
          -- A kept name comes once, so it is new and its entry goes to the end.
          have absent : n ∉ names entries := fun there => by
            obtain ⟨e, mem, rfl⟩ := List.mem_map.mp there
            have before : e.1 ∈ names (entries.filter (keeps ·.1)) :=
              List.mem_map_of_mem (List.mem_filter.mpr ⟨mem, kept⟩)
            rw [names, List.map_append] at once
            exact (List.nodup_append.mp once).2.2 e.1 before e.1 List.mem_cons_self rfl
          have grown : (insert n a entries).filter (keeps ·.1)
              = entries.filter (keeps ·.1) ++ [(n, a)] := by
            rw [insert_of_not_mem absent, List.filter_append]
            simp [kept]
          rw [List.append_cons, ← grown] at once ⊢
          exact ih once

theorem filter_gather {keeps : String → Bool} {entries : List (String × α)}
    (once : (names (entries.filter (keeps ·.1))).Nodup) :
    (gather entries).filter (keeps ·.1) = entries.filter (keeps ·.1) :=
  @filter_insertAll α keeps [] entries once

/-- Entries of different names are gathered as they are. -/
theorem gather_eq_self {entries : Entries α} (distinct : (names entries).Nodup) :
    gather entries = entries := by
  have all := @filter_gather α (fun _ => true) entries (by simpa using distinct)
  simpa using all

end Entries

/-! ## Drafts of stored values -/

namespace DistinctKeys

theorem of_item {items : List Json} {item : Json} (h : DistinctKeys (.arr items))
    (mem : item ∈ items) : DistinctKeys item :=
  fun members within => h members (.item mem within)

theorem of_member {members : List (String × Json)} {key : String} {value : Json}
    (h : DistinctKeys (.obj members)) (mem : (key, value) ∈ members) : DistinctKeys value :=
  fun own within => h own (.member mem within)

theorem nodup_names {members : List (String × Json)} (h : DistinctKeys (.obj members)) :
    (Entries.names members).Nodup :=
  h members .refl

theorem of_within {document part : Json} (h : DistinctKeys document)
    (within : part.Within document) : DistinctKeys part :=
  fun members inside => h members (inside.trans within)

end DistinctKeys

namespace Draft

mutual

/-- A stored value can be passed over. -/
theorem skipFault?_ofJson : (value : Json) → (ofJson value).skipFault? = none
  | .null | .bool _ | .num _ | .str _ => rfl
  | .arr items => by
      rw [ofJson, skipFault?, skipFaultOfItems?_ofItems items]
      rfl
  | .obj members => by
      rw [ofJson, skipFault?, skipFaultOfMembers?_ofMembers members]
      rfl

theorem skipFaultOfItems?_ofItems :
    (items : List Json) → skipFaultOfItems? (ofItems items) = none
  | [] => rfl
  | item :: rest => by
      rw [ofItems, skipFaultOfItems?, skipFault?_ofJson item, skipFaultOfItems?_ofItems rest]
      rfl

theorem skipFaultOfMembers?_ofMembers :
    (members : List (String × Json)) → skipFaultOfMembers? (ofMembers members) = none
  | [] => rfl
  | (key, value) :: rest => by
      rw [ofMembers, skipFaultOfMembers?, skipFault?_ofJson value,
        skipFaultOfMembers?_ofMembers rest]
      rfl

end

mutual

/-- A stored value without repeated keys comes back as it is. -/
theorem toJson_ofJson (place : Place) :
    (value : Json) → DistinctKeys value → (ofJson value).toJson place = .ok value
  | .null, _ | .bool _, _ | .num _, _ | .str _, _ => rfl
  | .arr items, h => by
      simp only [ofJson, toJson, Bool.false_eq_true, if_false]
      rw [toItems_ofItems place 0 items fun item mem => h.of_item mem]
      rfl
  | .obj members, h => by
      simp only [ofJson, toJson, Bool.false_eq_true, if_false]
      rw [toMembers_ofMembers place members fun member mem => h.of_member mem]
      show Except.ok (Json.obj (Entries.gather members)) = _
      rw [Entries.gather_eq_self h.nodup_names]

theorem toItems_ofItems (place : Place) (i : Nat) :
    (items : List Json) → (∀ item ∈ items, DistinctKeys item) →
      toItems place i (ofItems items) = .ok items
  | [], _ => rfl
  | item :: rest, h => by
      obtain ⟨own, others⟩ := List.forall_mem_cons.mp h
      rw [ofItems, toItems, toJson_ofJson _ item own, toItems_ofItems place (i + 1) rest others]
      rfl

theorem toMembers_ofMembers (place : Place) :
    (members : List (String × Json)) → (∀ member ∈ members, DistinctKeys member.2) →
      toMembers place (ofMembers members) = .ok members
  | [], _ => rfl
  | (key, value) :: rest, h => by
      obtain ⟨own, others⟩ := List.forall_mem_cons.mp h
      rw [ofMembers, toMembers, toJson_ofJson _ value own,
        toMembers_ofMembers place rest others]
      rfl

end

end Draft

/-! ## Readers of stored values -/

namespace Reader

variable {α : Type} {reader : Reader α} {means : Json → α → Prop} {place : Place} {value : Json}
  {items : List Json}

theorem string_ofJson {text : String} :
    string place (.ofJson value) = .ok text ↔ value = .str text := by
  cases value
  case str own =>
      show Except.ok own = _ ↔ _
      simp
  all_goals exact iff_of_false (by rintro ⟨⟩) (by rintro ⟨⟩)

theorem optional_ofJson {a? : Option α} :
    reader.optional place (.ofJson value) = .ok a? ↔ value = .null ∧ a? = none ∨
      value ≠ .null ∧ ∃ a, reader place (.ofJson value) = .ok a ∧ a? = some a := by
  cases value
  case null =>
      show Except.ok none = _ ↔ _
      simp [eq_comm]
  all_goals
    refine bind_eq_ok_iff.trans ?_
    simp [pure, Except.pure, eq_comm]

theorem list_ofJson_arr :
    reader.list place (.ofJson (.arr items)) = reader.items place 0 (Draft.ofItems items) := by
  simp only [Draft.ofJson, list, Bool.false_eq_true, if_false, ArrayStop.nextFault?]
  exact bind_pure _

/-- Items are read one after the other. -/
theorem items_ofItems
    (reads : ∀ item ∈ items, ∀ place a, reader place (.ofJson item) = .ok a ↔ means item a)
    {i : Nat} {values : List α} : reader.items place i (Draft.ofItems items) = .ok values ↔
      List.Forall₂ means items values := by
  induction items generalizing i values with
  | nil => simp [Draft.ofItems, Reader.items, eq_comm]
  | cons item rest ih =>
      obtain ⟨own, others⟩ := List.forall_mem_cons.mp reads
      rw [Draft.ofItems, Reader.items, bind_cons_eq_ok_iff, List.forall₂_cons_left_iff]
      simp only [own, ih others, exists_and_left]

/-- The fault is at the first item that has no meaning, or below it. -/
theorem items_ofItems_error (place : Place) (relative : reader.IsRelative)
    (reads : ∀ item ∈ items, ∀ place a, reader place (.ofJson item) = .ok a ↔ means item a)
    {n : Nat} {bad : Json} (there : items[n]? = some bad) (meaningless : ∀ a, ¬ means bad a)
    (before : ∀ k < n, ∀ item, items[k]? = some item → ∃ a, means item a) {i : Nat} :
    ∃ e below, reader.items place i (Draft.ofItems items) = .error e ∧
      e.place = place ++ .index (i + n) :: below := by
  induction items generalizing i n with
  | nil => simp at there
  | cons item rest ih =>
      obtain ⟨own, others⟩ := List.forall_mem_cons.mp reads
      rw [Draft.ofItems, Reader.items]
      cases n with
      | zero =>
          obtain rfl : item = bad := by simpa using there
          cases read : reader (place ++ [.index i]) (.ofJson item) with
          | ok a => exact absurd ((own _ a).mp read) (meaningless a)
          | error e =>
              obtain ⟨below, located⟩ := (relative _).place_of_error read
              exact ⟨e, below, rfl, by simpa using located⟩
      | succ n =>
          obtain ⟨a, given⟩ := before 0 n.succ_pos item rfl
          rw [(own _ a).mpr given]
          obtain ⟨e, below, failed, located⟩ := ih others (n := n) (i := i + 1)
            (by simpa using there)
            fun k less item mem => before (k + 1) (by omega) item (by simpa using mem)
          refine ⟨e, below, ?_, by rw [located, Nat.add_right_comm, Nat.add_assoc]⟩
          show (reader.items place (i + 1) (Draft.ofItems rest) >>= fun more => .ok (a :: more)) = _
          rw [failed]
          rfl

end Reader

namespace Layout

variable {ρ : Type} {layout : Layout ρ} {place : Place} {field : Field ρ} {draft : Draft}
  {record result : ρ}

/-! ## Items of a record -/

section Items

variable {stop : ArrayStop} {total i : Nat} {fields : List (Field ρ)} {drafts : List Draft}

theorem readItems_done : layout.readItems place stop total i [] [] record = .ok result ↔
    stop.closeFault? = none ∧ record = result := by
  rw [readItems]
  cases stop.closeFault? <;> simp

/-- A record has no item beyond its fields. -/
theorem readItems_beyond :
    layout.readItems place stop total i [] (draft :: drafts) record ≠ .ok result := by
  rw [readItems]
  split <;> simp

/-- A field without an item keeps its initial value, if it may. -/
theorem readItems_absent : layout.readItems place stop total i (field :: fields) [] record
      = .ok result ↔ stop.nextFault? = none ∧ field.required = false ∧
        layout.readItems place stop total (i + 1) fields [] record = .ok result := by
  rw [readItems]
  cases stop.nextFault? with
  | some fault => simp
  | none => cases field.required <;> simp

theorem readItems_field : layout.readItems place stop total i (field :: fields) (draft :: drafts)
      record = .ok result ↔ ∃ change, field.read (place ++ [.index i]) draft = .ok change ∧
        layout.readItems place stop total (i + 1) fields drafts (change record) = .ok result := by
  rw [readItems]
  exact bind_eq_ok_iff

end Items

/-! ## Members of a record -/

/-- The field that a key denotes. -/
def field? (layout : Layout ρ) (key : String) : Option (Field ρ) :=
  layout.fields.find? fun field => field.matches key

section Members

variable {stop : ObjectStop} {seen : List String} {rest : List (Token String × Draft)}
  {key : String}

/-- At the end every field that is required must have come. -/
theorem readMembers_nil : layout.readMembers place stop seen [] record = .ok result ↔
    stop.nextFault? = none ∧ (∀ field ∈ layout.fields, field.required = true → field.name ∈ seen) ∧
      record = result := by
  unfold readMembers
  cases stop.nextFault? with
  | some fault => simp
  | none =>
      cases missing :
          layout.fields.find? fun field => field.required && !seen.contains field.name with
      | some field =>
          have absent := List.find?_some missing
          have mem := List.mem_of_find?_eq_some missing
          simp only [Bool.and_eq_true, Bool.not_eq_true', List.contains_eq_mem,
            decide_eq_false_iff_not] at absent
          refine iff_of_false (by rintro ⟨⟩) ?_
          rintro ⟨-, all, -⟩
          exact absent.2 (all field mem absent.1)
      | none =>
          have all : ∀ field ∈ layout.fields, field.required = true → field.name ∈ seen := by
            simpa using missing
          simp only [Except.ok.injEq, true_and]
          exact ⟨fun same => ⟨all, same⟩, fun h => h.2⟩

/-- A member that denotes a field is read for it, if none was before. -/
theorem readMembers_field
    (denotes : layout.field? key = some field) :
    layout.readMembers place stop seen ((.good key, draft) :: rest) record = .ok result ↔
      field.name ∉ seen ∧ ∃ change, field.read (memberPlace place key draft) draft = .ok change ∧
        layout.readMembers place stop (field.name :: seen) rest (change record) = .ok result := by
  rw [field?] at denotes
  rw [readMembers]
  simp only [denotes]
  by_cases again : field.name ∈ seen
  · simp [again]
  · simp only [List.contains_eq_mem, again, decide_false, Bool.false_eq_true, if_false,
      not_false_eq_true, true_and]
    exact bind_eq_ok_iff

/-- A member that denotes no field is passed over, if the layout lets it. -/
theorem readMembers_unknown
    (denotes : layout.field? key = none) :
    layout.readMembers place stop seen ((.good key, draft) :: rest) record = .ok result ↔
      layout.skipsUnknown = true ∧ draft.skipFault? = none ∧
        layout.readMembers place stop seen rest record = .ok result := by
  rw [field?] at denotes
  rw [readMembers]
  simp only [denotes]
  cases layout.skipsUnknown with
  | false => simp
  | true => cases draft.skipFault? <;> simp

/-- A key that is not read is the end of reading. -/
theorem readMembers_faulty {strict : SyntaxError} {skipping : Option SyntaxError} :
    layout.readMembers place stop seen ((.faulty strict skipping, draft) :: rest) record
      ≠ .ok result := by
  rw [readMembers]
  simp

end Members

end Layout

end SchemaLoom
