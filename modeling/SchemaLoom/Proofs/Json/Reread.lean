import SchemaLoom.Proofs.Json.Relative
import SchemaLoom.Proofs.Json.Stored

set_option autoImplicit false

/-! # Reading a text and reading its document

The same reader serves a text and the document of the text, but it need not look at all of the text.
It passes over the values of keys that it does not know, and it leaves what follows the first value.
A reader is *faithful* if this is the only difference: where it reads a draft, the draft spells a
document provided that the parts which it passed over do, and reading the document gives the same
(`Faithful`). Readers made of faithful parts are faithful, down to the records.

So a text that was read is a document, and one that is read alike, exactly if only blanks follow its
first value and what was passed over has a value (`Faithful.rereads_iff`).
-/

namespace SchemaLoom

/-! ## Drafts that spell a value -/

theorem exists_forall₂_iff {α β : Type} {R : α → β → Prop} {xs : List α} :
    (∃ ys, List.Forall₂ R xs ys) ↔ ∀ x ∈ xs, ∃ y, R x y := by
  induction xs with
  | nil => simp
  | cons x rest ih =>
      simp only [List.forall₂_cons_left_iff, List.forall_mem_cons, ← ih]
      constructor
      · rintro ⟨_, y, ys, own, others, rfl⟩
        exact ⟨⟨y, own⟩, ys, others⟩
      · rintro ⟨⟨y, own⟩, ys, others⟩
        exact ⟨_, y, ys, own, others, rfl⟩

/-- The draft spells the value. -/
def Draft.Spells (draft : Draft) (value : Json) : Prop := draft.toJson [] = .ok value

/-- The member spells the entry. -/
def Draft.SpellsMember (member : Token String × Draft) (entry : String × Json) : Prop :=
  member.1 = .good entry.1 ∧ member.2.Spells entry.2

namespace Draft

variable {place : Place} {value : Json}

/-- What a draft spells does not depend on its place. -/
theorem toJson_eq_ok_iff {draft : Draft} : draft.toJson place = .ok value ↔ draft.Spells value :=
  ⟨fun read => (relative_toJson draft).eq_ok read [],
    fun read => (relative_toJson draft).eq_ok read place⟩

theorem toItems_eq_ok_iff {i : Nat} {items : List Draft} {values : List Json} :
    toItems place i items = .ok values ↔ List.Forall₂ Spells items values := by
  induction items generalizing i values with
  | nil => simp [toItems, eq_comm]
  | cons item rest ih =>
      rw [toItems, bind_cons_eq_ok_iff, List.forall₂_cons_left_iff]
      simp only [toJson_eq_ok_iff, ih, exists_and_left]

theorem toMembers_eq_ok_iff {members : List (Token String × Draft)}
    {entries : List (String × Json)} :
    toMembers place members = .ok entries ↔ List.Forall₂ SpellsMember members entries := by
  induction members generalizing entries with
  | nil => simp [toMembers, eq_comm]
  | cons member rest ih =>
      obtain ⟨key | ⟨strict, skipping⟩, draft⟩ := member
      · rw [toMembers, bind_cons_eq_ok_iff, List.forall₂_cons_left_iff]
        simp only [toJson_eq_ok_iff, ih, exists_and_left, SpellsMember]
        constructor
        · rintro ⟨value, spelled, more, others, rfl⟩
          exact ⟨(key, value), ⟨rfl, spelled⟩, more, others, rfl⟩
        · rintro ⟨⟨_, value⟩, ⟨⟨⟩, spelled⟩, more, others, rfl⟩
          exact ⟨value, spelled, more, others, rfl⟩
      · rw [toMembers, List.forall₂_cons_left_iff]
        refine iff_of_false (by rintro ⟨⟩) ?_
        rintro ⟨_, _, ⟨⟨⟩, -⟩, -, -⟩

/-- An array is spelled by items that are, if it ends as it should. -/
theorem spells_arr {deep : Bool} {items : List Draft} {stop : ArrayStop} :
    (arr deep items stop).Spells value ↔ deep = false ∧ stop.nextFault? = none ∧
      ∃ values, List.Forall₂ Spells items values ∧ value = .arr values := by
  rw [Spells, toJson]
  cases deep with
  | true => simp
  | false =>
      simp only [Bool.false_eq_true, if_false, bind_eq_ok_iff, toItems_eq_ok_iff, true_and]
      cases stop.nextFault? <;> simp [pure, Except.pure, eq_comm]

theorem spells_obj {deep : Bool} {members : List (Token String × Draft)} {stop : ObjectStop} :
    (obj deep members stop).Spells value ↔ deep = false ∧ stop.nextFault? = none ∧
      ∃ entries, List.Forall₂ SpellsMember members entries ∧
        value = .obj (Entries.gather entries) := by
  rw [Spells, toJson]
  cases deep with
  | true => simp
  | false =>
      simp only [Bool.false_eq_true, if_false, bind_eq_ok_iff, toMembers_eq_ok_iff, true_and]
      cases stop.nextFault? <;> simp [pure, Except.pure, eq_comm]

theorem exists_spells_arr {items : List Draft} {stop : ArrayStop} :
    (∃ value, (arr false items stop).Spells value) ↔ stop.nextFault? = none ∧
      ∀ item ∈ items, ∃ value, item.Spells value := by
  simp only [spells_arr, true_and, ← exists_forall₂_iff]
  constructor
  · rintro ⟨_, closed, values, spelled, -⟩
    exact ⟨closed, values, spelled⟩
  · rintro ⟨closed, values, spelled⟩
    exact ⟨_, closed, values, spelled, rfl⟩

theorem exists_spells_obj {members : List (Token String × Draft)} {stop : ObjectStop} :
    (∃ value, (obj false members stop).Spells value) ↔ stop.nextFault? = none ∧
      ∀ member ∈ members, (∃ key, member.1 = .good key) ∧ ∃ value, member.2.Spells value := by
  have entry (member : Token String × Draft) : (∃ entry, SpellsMember member entry) ↔
      (∃ key, member.1 = .good key) ∧ ∃ value, member.2.Spells value :=
    ⟨fun ⟨entry, named, spelled⟩ => ⟨⟨entry.1, named⟩, entry.2, spelled⟩,
      fun ⟨⟨key, named⟩, value, spelled⟩ => ⟨(key, value), named, spelled⟩⟩
  simp only [spells_obj, true_and, ← entry, ← exists_forall₂_iff]
  constructor
  · rintro ⟨_, closed, entries, spelled, -⟩
    exact ⟨closed, entries, spelled⟩
  · rintro ⟨closed, entries, spelled⟩
    exact ⟨_, closed, entries, spelled, rfl⟩

theorem spells_null {draft : Draft} : draft.Spells .null ↔ draft = .null := by
  rcases draft with _ | _ | ⟨_ | _⟩ | ⟨_ | _⟩ | _ | _ | _ | _
  case arr => simp [spells_arr]
  case obj => simp [spells_obj]
  all_goals simp [Spells, toJson]

end Draft

/-! ## Faithful readers -/

namespace Reader

variable {α ρ : Type}

/-- The reader agrees with reading the document that the draft spells, and it looks at all of the
draft but the parts it passes over. -/
structure Faithful (reader : Reader α) (passes : Draft → Draft → Prop) : Prop where
  relative : reader.IsRelative
  spells : ∀ {draft : Draft} {a : α}, reader [] draft = .ok a →
    ((∃ value, draft.Spells value) ↔ ∀ part, passes draft part → ∃ value, part.Spells value)
  agrees : ∀ {draft : Draft} {a : α} {value : Json}, reader [] draft = .ok a →
    draft.Spells value → reader [] (.ofJson value) = .ok a

/-- The reader looks at all of a draft. -/
abbrev Exact (reader : Reader α) : Prop := reader.Faithful fun _ _ => False

variable {reader : Reader α} {passes : Draft → Draft → Prop} {place : Place} {draft : Draft}
  {a : α} {value : Json}

theorem IsRelative.eq_ok_iff (relative : reader.IsRelative) (place : Place) :
    reader place draft = .ok a ↔ reader [] draft = .ok a :=
  ⟨fun read => (relative draft).eq_ok read [], fun read => (relative draft).eq_ok read place⟩

/-- What an exact reader reads is spelled. -/
theorem Exact.spells_of_read (exact : reader.Exact) (read : reader place draft = .ok a) :
    ∃ value, draft.Spells value :=
  (exact.spells ((exact.relative.eq_ok_iff place).mp read)).mpr fun _ passed => passed.elim

theorem Faithful.agrees_at (faithful : reader.Faithful passes) {other : Place}
    (read : reader place draft = .ok a) (spelled : draft.Spells value) :
    reader other (.ofJson value) = .ok a :=
  (faithful.relative.eq_ok_iff other).mpr
    (faithful.agrees ((faithful.relative.eq_ok_iff place).mp read) spelled)

/-- What is to be shown of a reader that passes over nothing. -/
theorem Exact.intro (relative : reader.IsRelative)
    (rereads : ∀ {draft : Draft} {a : α}, reader [] draft = .ok a →
      ∃ value, draft.Spells value ∧ reader [] (.ofJson value) = .ok a) : reader.Exact where
  relative := relative
  spells read := by
    obtain ⟨value, spelled, -⟩ := rereads read
    exact iff_of_true ⟨value, spelled⟩ fun _ passed => passed.elim
  agrees read spelled := by
    obtain ⟨value, spelled', again⟩ := rereads read
    obtain rfl : value = _ := Except.ok.inj (spelled'.symm.trans spelled)
    exact again

theorem exact_string : string.Exact := .intro isRelative_string fun {draft text} read => by
  rcases draft with _ | _ | ⟨_ | _⟩ | ⟨_ | _⟩ | _ | _ | _ | _
  case str.good =>
      cases read
      exact ⟨.str _, rfl, rfl⟩
  all_goals cases read

theorem exact_bool : bool.Exact := .intro isRelative_bool fun {draft flag} read => by
  rcases draft with _ | _ | ⟨_ | _⟩ | ⟨_ | _⟩ | _ | _ | _ | _
  case bool =>
      cases read
      exact ⟨.bool _, rfl, rfl⟩
  all_goals cases read

theorem exact_json : json.Exact := .intro isRelative_json fun {draft value} read => by
  have spelled : draft.Spells value := by
    rw [json] at read
    cases own : draft.toJson [] with
    | error e =>
        rw [own] at read
        cases read
    | ok value' =>
        rw [own] at read
        cases read
        exact own
  refine ⟨value, spelled, ?_⟩
  rw [json, Draft.toJson_ofJson [] value (draft.distinctKeys_of_toJson spelled)]

theorem Exact.optional (exact : reader.Exact) : reader.optional.Exact :=
  .intro exact.relative.optional fun {draft a?} read => by
    by_cases null : draft = .null
    · subst null
      cases read
      exact ⟨.null, rfl, rfl⟩
    -- What is not `null` is left to the reader, and so is its value, which is not `null` either.
    · have inner : ∃ a, reader [] draft = .ok a ∧ a? = some a := by
        cases draft
        case null => exact absurd rfl null
        all_goals
          obtain ⟨a, inner, same⟩ := bind_eq_ok_iff.mp read
          exact ⟨a, inner, (Except.ok.inj same).symm⟩
      obtain ⟨a, inner, rfl⟩ := inner
      obtain ⟨value, spelled⟩ := exact.spells_of_read inner
      refine ⟨value, spelled, optional_ofJson.mpr (.inr ⟨?_, a, exact.agrees inner spelled, rfl⟩)⟩
      rintro rfl
      exact null (Draft.spells_null.mp spelled)

theorem Exact.map (exact : reader.Exact) (change : α → ρ) :
    Exact fun place draft => do
      let a ← reader place draft
      return change a :=
  .intro (exact.relative.map change) fun {draft b} read => by
    obtain ⟨a, inner, same⟩ := bind_eq_ok_iff.mp read
    obtain ⟨value, spelled⟩ := exact.spells_of_read inner
    exact ⟨value, spelled, bind_eq_ok_iff.mpr ⟨a, exact.agrees inner spelled, same⟩⟩

/-! ## Lists -/

/-- A list passes over what its items pass over. -/
inductive PassesInItem (passes : Draft → Draft → Prop) : Draft → Draft → Prop where
  | intro {deep : Bool} {items : List Draft} {stop : ArrayStop} {item part : Draft}
      (mem : item ∈ items) (passed : passes item part) :
      PassesInItem passes (.arr deep items stop) part

/-- Only an array is read as a list. -/
theorem exists_of_list_eq_ok {as : List α} (read : reader.list place draft = .ok as) :
    ∃ drafts stop, draft = .arr false drafts stop ∧ stop.nextFault? = none ∧
      reader.items place 0 drafts = .ok as := by
  rcases draft with _ | _ | ⟨_ | _⟩ | ⟨_ | _⟩ | _ | _ | ⟨_ | _, drafts, stop⟩ | _
  case arr.false =>
      obtain ⟨values, items, stopped⟩ := bind_eq_ok_iff.mp read
      cases closed : stop.nextFault? with
      | some fault =>
          rw [closed] at stopped
          cases stopped
      | none =>
          rw [closed] at stopped
          cases stopped
          exact ⟨drafts, stop, rfl, closed, items⟩
  all_goals cases read

theorem items_eq_ok_iff (relative : reader.IsRelative) {i : Nat} {drafts : List Draft}
    {values : List α} : reader.items place i drafts = .ok values ↔
      List.Forall₂ (fun draft a => reader [] draft = .ok a) drafts values := by
  induction drafts generalizing i values with
  | nil => simp [items, eq_comm]
  | cons draft rest ih =>
      rw [items, bind_cons_eq_ok_iff, List.forall₂_cons_left_iff]
      simp only [relative.eq_ok_iff (place ++ _), ih, exists_and_left]

theorem Faithful.items_agree (faithful : reader.Faithful passes) {drafts : List Draft} {as : List α}
    {values : List Json} (read : List.Forall₂ (fun draft a => reader [] draft = .ok a) drafts as)
    (spelled : List.Forall₂ Draft.Spells drafts values) {i : Nat} :
    reader.items place i (Draft.ofItems values) = .ok as := by
  induction read generalizing i values with
  | nil =>
      cases spelled
      rfl
  | cons own others ih =>
      obtain _ | ⟨spelled, more⟩ := spelled
      rw [Draft.ofItems, items, bind_cons_eq_ok_iff]
      exact ⟨_, faithful.agrees_at own spelled, _, ih more, rfl⟩

theorem Faithful.list (faithful : reader.Faithful passes) :
    reader.list.Faithful (PassesInItem passes) where
  relative := faithful.relative.list
  spells {draft as} read := by
    obtain ⟨items, stop, rfl, closed, read⟩ := exists_of_list_eq_ok read
    have each := exists_forall₂_iff.mp ⟨as, (items_eq_ok_iff faithful.relative).mp read⟩
    rw [Draft.exists_spells_arr]
    simp only [closed, true_and]
    constructor
    · rintro spelled part ⟨mem, passed⟩
      obtain ⟨a, read⟩ := each _ mem
      exact (faithful.spells read).mp (spelled _ mem) part passed
    · intro spelled item mem
      obtain ⟨a, read⟩ := each item mem
      exact (faithful.spells read).mpr fun part passed => spelled part ⟨mem, passed⟩
  agrees {draft as value} read spelled := by
    obtain ⟨items, stop, rfl, -, read⟩ := exists_of_list_eq_ok read
    obtain ⟨-, -, values, each, rfl⟩ := Draft.spells_arr.mp spelled
    rw [list_ofJson_arr]
    exact faithful.items_agree ((items_eq_ok_iff faithful.relative).mp read) each

end Reader

/-! ## Records -/

namespace Layout

variable {ρ : Type} {layout : Layout ρ} {place : Place} {record result : ρ}

/-- Whether a key denotes a field. -/
def knows (layout : Layout ρ) (key : String) : Bool := (layout.field? key).isSome

theorem knows_of_some {key : String} {field : Field ρ}
    (denotes : layout.field? key = some field) :
    layout.knows key = true := by
  rw [knows, denotes, Option.isSome_some]

theorem knows_of_none {key : String}
    (denotes : layout.field? key = none) :
    layout.knows key = false := by
  rw [knows, denotes, Option.isSome_none]

/-- A record passes over the values of keys that denote no field. -/
inductive PassesOver (layout : Layout ρ) : Draft → Draft → Prop where
  | intro {deep : Bool} {members : List (Token String × Draft)} {stop : ObjectStop} {key : String}
      {part : Draft} (mem : (.good key, part) ∈ members) (unknown : layout.knows key = false) :
      PassesOver layout (.obj deep members stop) part

theorem nextFault?_of_closeFault? {stop : ArrayStop} (closed : stop.closeFault? = none) :
    stop.nextFault? = none := by
  cases stop <;> first | rfl | cases closed

/-- Items that are read as a record are all spelled, and their values are read alike. -/
theorem readItems_reread {fields : List (Field ρ)} (each : ∀ field ∈ fields, field.read.Exact)
    {stop : ArrayStop} {total i : Nat} {drafts : List Draft}
    (read : layout.readItems place stop total i fields drafts record = .ok result) :
    stop.nextFault? = none ∧ (∀ draft ∈ drafts, ∃ value, draft.Spells value) ∧
      ∀ {values : List Json}, List.Forall₂ Draft.Spells drafts values →
        ∀ {other : Place} {total' : Nat},
          layout.readItems other .stored total' i fields (Draft.ofItems values) record
            = .ok result := by
  induction fields generalizing i drafts record with
  | nil =>
      cases drafts with
      | nil =>
          obtain ⟨closed, rfl⟩ := readItems_done.mp read
          refine ⟨nextFault?_of_closeFault? closed, nofun, ?_⟩
          rintro _ ⟨⟩ other total'
          exact readItems_done.mpr ⟨rfl, rfl⟩
      | cons draft rest => exact absurd read readItems_beyond
  | cons field fields ih =>
      obtain ⟨own, others⟩ := List.forall_mem_cons.mp each
      cases drafts with
      | nil =>
          obtain ⟨closed, optional, read⟩ := readItems_absent.mp read
          obtain ⟨-, -, agrees⟩ := ih others read
          refine ⟨closed, nofun, ?_⟩
          rintro _ ⟨⟩ other total'
          exact readItems_absent.mpr ⟨rfl, optional, agrees .nil⟩
      | cons draft rest =>
          obtain ⟨change, changed, read⟩ := readItems_field.mp read
          obtain ⟨closed, spelled, agrees⟩ := ih others read
          refine ⟨closed, List.forall_mem_cons.mpr ⟨own.spells_of_read changed, spelled⟩, ?_⟩
          rintro _ (_ | ⟨first, more⟩) other total'
          exact readItems_field.mpr ⟨change, own.agrees_at changed first, agrees more⟩

/-- Members that are read as a record are spelled where they denote a field, and what the members
spell is read alike. -/
theorem readMembers_reread (each : ∀ field ∈ layout.fields, field.read.Exact) {stop : ObjectStop}
    {seen : List String} {members : List (Token String × Draft)}
    (read : layout.readMembers place stop seen members record = .ok result) :
    stop.nextFault? = none ∧
      (∀ member ∈ members, ∃ key, member.1 = .good key ∧
        (layout.knows key = true → ∃ value, member.2.Spells value) ∧
        (layout.knows key = false → layout.skipsUnknown = true)) ∧
      ∀ {entries : List (String × Json)}, List.Forall₂ Draft.SpellsMember members entries →
        ∀ {other : Place},
          layout.readMembers other .closed seen (Draft.ofMembers entries) record = .ok result := by
  induction members generalizing seen record with
  | nil =>
      obtain ⟨closed, complete, rfl⟩ := readMembers_nil.mp read
      refine ⟨closed, nofun, ?_⟩
      rintro _ ⟨⟩ other
      exact readMembers_nil.mpr ⟨rfl, complete, rfl⟩
  | cons member rest ih =>
      obtain ⟨key | ⟨strict, skipping⟩, draft⟩ := member
      · cases denotes : layout.field? key with
        | some field =>
            have own := each field (List.mem_of_find?_eq_some denotes)
            obtain ⟨fresh, change, changed, read⟩ := (readMembers_field denotes).mp read
            obtain ⟨closed, spelled, agrees⟩ := ih read
            refine ⟨closed, List.forall_mem_cons.mpr ⟨⟨key, rfl, fun _ =>
              own.spells_of_read changed, by simp [knows_of_some denotes]⟩, spelled⟩, ?_⟩
            rintro _ (_ | ⟨⟨named, first⟩, more⟩) other
            cases named
            exact (readMembers_field denotes).mpr
              ⟨fresh, change, own.agrees_at changed first, agrees more⟩
        | none =>
            obtain ⟨skips, passed, read⟩ := (readMembers_unknown denotes).mp read
            obtain ⟨closed, spelled, agrees⟩ := ih read
            refine ⟨closed, List.forall_mem_cons.mpr ⟨⟨key, rfl,
              by simp [knows_of_none denotes], fun _ => skips⟩, spelled⟩, ?_⟩
            rintro _ (_ | ⟨⟨named, first⟩, more⟩) other
            cases named
            exact (readMembers_unknown denotes).mpr
              ⟨skips, Draft.skipFault?_ofJson _, agrees more⟩
      · exact absurd read readMembers_faulty

/-- Stored members are read as those among them that denote a field. -/
theorem readMembers_known {seen : List String} {entries : List (String × Json)} :
    layout.readMembers place .closed seen (Draft.ofMembers entries) record = .ok result ↔
      (layout.skipsUnknown = true ∨ ∀ entry ∈ entries, layout.knows entry.1 = true) ∧
        layout.readMembers place .closed seen
          (Draft.ofMembers (entries.filter (layout.knows ·.1))) record = .ok result := by
  induction entries generalizing seen record with
  | nil => simp
  | cons entry rest ih =>
      obtain ⟨key, value⟩ := entry
      rw [Draft.ofMembers]
      cases denotes : layout.field? key with
      | some field =>
          rw [List.filter_cons_of_pos (by exact knows_of_some denotes), Draft.ofMembers,
            readMembers_field denotes, readMembers_field denotes, List.forall_mem_cons]
          simp only [ih, knows_of_some denotes, true_and]
          constructor
          · rintro ⟨fresh, change, changed, all, read⟩
            exact ⟨all, fresh, change, changed, read⟩
          · rintro ⟨all, fresh, change, changed, read⟩
            exact ⟨fresh, change, changed, all, read⟩
      | none =>
          rw [List.filter_cons_of_neg (by simp [knows_of_none denotes]),
            readMembers_unknown denotes, ih, List.forall_mem_cons]
          simp only [Draft.skipFault?_ofJson, knows_of_none denotes, true_and, Bool.false_eq_true,
            false_and, or_false]
          exact and_congr_right fun skips => by simp [skips]

/-- What denotes a field comes once. -/
theorem nodup_of_readMembers {seen : List String} {entries : List (String × Json)}
    (read : layout.readMembers place .closed seen (Draft.ofMembers entries) record = .ok result) :
    (Entries.names (entries.filter (layout.knows ·.1))).Nodup ∧
      ∀ key ∈ Entries.names (entries.filter (layout.knows ·.1)), ∀ field,
        layout.field? key = some field → field.name ∉ seen := by
  induction entries generalizing seen record with
  | nil => exact ⟨.nil, nofun⟩
  | cons entry rest ih =>
      obtain ⟨key, value⟩ := entry
      rw [Draft.ofMembers] at read
      cases denotes : layout.field? key with
      | some field =>
          obtain ⟨fresh, change, -, read⟩ := (readMembers_field denotes).mp read
          obtain ⟨once, unseen⟩ := ih read
          rw [List.filter_cons_of_pos (by exact knows_of_some denotes), Entries.names,
            List.map_cons, List.nodup_cons, List.forall_mem_cons]
          refine ⟨⟨fun again => ?_, once⟩, ?_, ?_⟩
          -- A key that came again would denote the field again, which is seen by then.
          · exact unseen key again field denotes List.mem_cons_self
          · rintro field' denotes'
            obtain rfl : field = field' := Option.some.inj (denotes.symm.trans denotes')
            exact fresh
          · intro other mem field' denotes' before
            exact unseen other mem field' denotes' (List.mem_cons_of_mem _ before)
      | none =>
          obtain ⟨-, -, read⟩ := (readMembers_unknown denotes).mp read
          rw [List.filter_cons_of_neg (by simp [knows_of_none denotes])]
          exact ih read

/-- Members that were read are read alike after they have been gathered. -/
theorem readMembers_gather {entries : List (String × Json)}
    (read : layout.readMembers place .closed [] (Draft.ofMembers entries) record = .ok result) :
    layout.readMembers place .closed [] (Draft.ofMembers (Entries.gather entries)) record
      = .ok result := by
  -- Gathering moves only members that denote no field, and these have no part in the record.
  obtain ⟨once, -⟩ := nodup_of_readMembers read
  obtain ⟨all, known⟩ := readMembers_known.mp read
  rw [readMembers_known, Entries.filter_gather once]
  exact ⟨all.imp_right fun all entry mem => all entry (Entries.mem_of_mem_gather mem), known⟩

/-- Only an array or an object is read as a record. -/
theorem exists_of_reader_eq_ok {draft : Draft} (read : layout.reader place draft = .ok result) :
    (∃ drafts stop, draft = .arr false drafts stop ∧
      layout.readItems place stop drafts.length 0 layout.fields drafts layout.initial
        = .ok result) ∨
    ∃ members stop, draft = .obj false members stop ∧
      layout.readMembers place stop [] members layout.initial = .ok result := by
  rcases draft with
    _ | _ | ⟨_ | _⟩ | ⟨_ | _⟩ | _ | _ | ⟨_ | _, drafts, stop⟩ | ⟨_ | _, members, stop⟩
  case arr.false => exact .inl ⟨drafts, stop, rfl, read⟩
  case obj.false => exact .inr ⟨members, stop, rfl, read⟩
  all_goals cases read

/-- **A record of exact fields is read faithfully.** -/
theorem faithful_reader (each : ∀ field ∈ layout.fields, field.read.Exact) :
    layout.reader.Faithful layout.PassesOver where
  relative := isRelative_reader fun field mem => (each field mem).relative
  spells {draft result} read := by
    rcases exists_of_reader_eq_ok read with ⟨drafts, stop, rfl, read⟩ | ⟨members, stop, rfl, read⟩
    · obtain ⟨closed, spelled, -⟩ := readItems_reread each read
      refine iff_of_true (Draft.exists_spells_arr.mpr ⟨closed, spelled⟩) ?_
      rintro part ⟨⟩
    · obtain ⟨closed, spelled, -⟩ := readMembers_reread each read
      rw [Draft.exists_spells_obj]
      constructor
      · rintro ⟨-, all⟩ part ⟨mem, -⟩
        exact (all _ mem).2
      · refine fun passed => ⟨closed, fun member mem => ?_⟩
        obtain ⟨key, named, known, -⟩ := spelled member mem
        refine ⟨⟨key, named⟩, ?_⟩
        cases knows : layout.knows key with
        | true => exact known knows
        | false => exact passed member.2 ⟨by rwa [← named], knows⟩
  agrees {draft result value} read spelled := by
    rcases exists_of_reader_eq_ok read with ⟨drafts, stop, rfl, read⟩ | ⟨members, stop, rfl, read⟩
    · obtain ⟨-, -, agrees⟩ := readItems_reread each read
      obtain ⟨-, -, values, all, rfl⟩ := Draft.spells_arr.mp spelled
      exact agrees all
    · obtain ⟨-, -, agrees⟩ := readMembers_reread each read
      obtain ⟨-, -, entries, all, rfl⟩ := Draft.spells_obj.mp spelled
      exact readMembers_gather (agrees all)

/-- A record that refuses keys which denote no field is read exactly. -/
theorem exact_reader (each : ∀ field ∈ layout.fields, field.read.Exact)
    (refuses : layout.skipsUnknown = false) : layout.reader.Exact where
  relative := (faithful_reader each).relative
  agrees := (faithful_reader each).agrees
  spells {draft result} read := by
    refine ((faithful_reader each).spells read).trans
      ⟨fun _ _ passed => passed.elim, fun _ part passed => ?_⟩
    obtain ⟨mem, unknown⟩ := passed
    rcases exists_of_reader_eq_ok read with ⟨_, _, ⟨⟩, -⟩ | ⟨members, stop, same, read⟩
    cases same
    obtain ⟨-, spelled, -⟩ := readMembers_reread each read
    obtain ⟨key, named, -, skips⟩ := spelled _ mem
    cases named
    exact absurd (skips unknown) (by simp [refuses])

end Layout

/-! ## Texts -/

/-- Only blanks follow the first value of the text. -/
def EndsWithValue (text : String) : Prop :=
  skipBlanks ((Draft.scan text.toList).2.getD []) = []

/-- The text is a document that the reader reads as the value. -/
def Reader.Rereads {α : Type} (reader : Reader α) (text : String) (a : α) : Prop :=
  ∃ document, Json.parse text = .ok document ∧ reader.ofValue document = .ok a

theorem Json.parse_eq_ok_iff {text : String} {document : Json} : Json.parse text = .ok document ↔
    (Draft.scan text.toList).1.Spells document ∧ EndsWithValue text := by
  rw [Json.parse, Json.parseNested, Draft.Spells, EndsWithValue, Draft.scan]
  rcases Draft.scanNested nestingLimit text.toList with ⟨draft, rest⟩
  dsimp only
  cases draft.toJson [] with
  | error e => simp
  | ok value => by_cases ends : skipBlanks (rest.getD []) = [] <;> simp [ends]

/-- **A text that was read is a document**, read alike, if and only if only blanks follow its first
value and what was passed over has a value. -/
theorem Reader.Faithful.rereads_iff {α : Type} {reader : Reader α} {passes : Draft → Draft → Prop}
    (faithful : reader.Faithful passes) {text : String} {a : α}
    (read : reader.ofText text = .ok a) :
    reader.Rereads text a ↔ EndsWithValue text ∧
      ∀ part, passes (Draft.scan text.toList).1 part → ∃ value, part.Spells value := by
  rw [← faithful.spells read]
  constructor
  · rintro ⟨document, parsed, -⟩
    obtain ⟨spelled, ends⟩ := Json.parse_eq_ok_iff.mp parsed
    exact ⟨ends, document, spelled⟩
  · rintro ⟨ends, document, spelled⟩
    exact ⟨document, Json.parse_eq_ok_iff.mpr ⟨spelled, ends⟩, faithful.agrees read spelled⟩

end SchemaLoom
