import SchemaLoom.Proofs.Builder.Merge

set_option autoImplicit false

/-! # What commands find

A command works on items of a registry: on a type, which is a class or an enum, or on a member of
one, which is a property or a value. A type that was added stays. A member stays until its type is
added again, since that starts the type over. So what a registry has after commands can be read off
the commands (`Registry.HasAfter`), and they need not be carried out for that.

Commands are carried out up to the first one that does not find what it looks up. It changes
nothing, and what the commands before it made stays.
-/

namespace SchemaLoom

open DataModel (Kind)

/-! ## Items -/

/-- An item of a registry: a type of a kind, or a member of such a type. -/
inductive Item where
  | type (kind : Kind) (name : String)
  | member (kind : Kind) (owner name : String)
  deriving DecidableEq, Repr

/-- The error of a command that does not find the item. -/
def Item.error : Item → BuildError
  | type .classes name => .unknownClass name
  | type .enums name => .unknownEnum name
  | member .classes owner name => .unknownProperty owner name
  | member .enums owner name => .unknownValue owner name

namespace BuildCommand

/-- The items that the command looks up. -/
def lookups : BuildCommand → List Item
  | addClass _ | addEnum _ => []
  | classDescription owner _ | classAlias owner _ | addProperty owner _ _ =>
      [.type .classes owner]
  | propertyDescription owner property _ | propertyAlias owner property _ =>
      [.type .classes owner, .member .classes owner property]
  | enumDescription name _ | enumAlias name _ | addValue name _ => [.type .enums name]
  | valueDescription enum value _ | valueAlias enum value _ | valueSkip enum value =>
      [.type .enums enum, .member .enums enum value]

/-- The item that the command adds or starts over. -/
def added? : BuildCommand → Option Item
  | addClass name => some (.type .classes name)
  | addProperty owner name _ => some (.member .classes owner name)
  | addEnum name => some (.type .enums name)
  | addValue enum value => some (.member .enums enum value)
  | _ => none

/-- The item is there no more after the command, unless the command adds it: it is a member, and its
type starts over. -/
def Drops (command : BuildCommand) : Item → Prop
  | .type _ _ => False
  | .member kind owner _ => command.added? = some (.type kind owner)

/-- Everything the command looks up is there. -/
def Finds (command : BuildCommand) (there : Item → Prop) : Prop :=
  ∀ item ∈ command.lookups, there item

/-- The item is what the command misses. It misses a member only where the type is there. -/
structure Misses (command : BuildCommand) (there : Item → Prop) (item : Item) : Prop where
  lookedUp : item ∈ command.lookups
  absent : ¬ there item
  owned : ∀ kind owner name, item = .member kind owner name → there (.type kind owner)

theorem Misses.not_finds {command : BuildCommand} {there : Item → Prop} {item : Item}
    (h : command.Misses there item) : ¬ command.Finds there :=
  fun found => h.absent (found item h.lookedUp)

end BuildCommand

/-- What is named is found, and putting another value in its place leaves the names as they are. -/
theorem Entries.exists_get?_of_mem_names {α : Type} {name : String} {entries : Entries α}
    (named : name ∈ Entries.names entries) : ∃ a, Entries.get? name entries = some a ∧
      ∀ b, Entries.names (Entries.insert name b entries) = Entries.names entries := by
  cases found : Entries.get? name entries with
  | none => exact absurd named (Entries.get?_eq_none_iff.mp found)
  | some a =>
      refine ⟨a, rfl, fun b => ?_⟩
      rw [Entries.names_insert, if_pos]
      simp [Entries.contains, found]

namespace Registry

/-- The names of the members of a type, none if there is no such type. -/
def members? (r : Registry) : Kind → String → Option (List String)
  | .classes, name =>
      (Entries.get? name r.classes).map fun entry => Entries.names entry.properties
  | .enums, name => (Entries.get? name r.enums).map fun entry => Entries.names entry.values

/-- The registry has the item. -/
def Has (r : Registry) : Item → Prop
  | .type kind name => (r.members? kind name).isSome
  | .member kind owner name => ∃ names ∈ r.members? kind owner, name ∈ names

/-- The registry has the item after commands none of which fails: it has it before them and no
command drops it, or one of the commands adds it and no later one drops it. -/
def HasAfter (r : Registry) (commands : List BuildCommand) (item : Item) : Prop :=
  (r.Has item ∧ ∀ command ∈ commands, ¬ command.Drops item) ∨
    ∃ before command after, commands = before ++ command :: after ∧
      command.added? = some item ∧ ∀ later ∈ after, ¬ later.Drops item

/-- Each of the commands in turn finds what it looks up. -/
def AllFind (r : Registry) (commands : List BuildCommand) : Prop :=
  ∀ before command after, commands = before ++ command :: after →
    command.Finds (r.HasAfter before)

/-! ## The change of a type -/

/-- The registries differ in one type at most, and the members of that one have the names. -/
structure Sets (r changed : Registry) (kind : Kind) (owner : String) (names : List String) :
    Prop where
  own : changed.members? kind owner = some names
  others : ∀ k o, ¬ (k = kind ∧ o = owner) → changed.members? k o = r.members? k o

theorem sets_withClass (r : Registry) (name : String) (entry : ClassEntry) :
    r.Sets (r.withClass name entry) .classes name (Entries.names entry.properties) := by
  constructor
  · simp [members?, withClass]
  · intro k o other
    cases k with
    | classes => simp [members?, withClass, Entries.get?_insert_of_ne fun same => other ⟨rfl, same⟩]
    | enums => rfl

theorem sets_withEnum (r : Registry) (name : String) (entry : EnumEntry) :
    r.Sets (r.withEnum name entry) .enums name (Entries.names entry.values) := by
  constructor
  · simp [members?, withEnum]
  · intro k o other
    cases k with
    | classes => rfl
    | enums => simp [members?, withEnum, Entries.get?_insert_of_ne fun same => other ⟨rfl, same⟩]

namespace Sets

variable {r changed : Registry} {kind : Kind} {owner : String} {names : List String}

theorem has_type (h : r.Sets changed kind owner names) (k : Kind) (o : String) :
    changed.Has (.type k o) ↔ (k = kind ∧ o = owner) ∨ r.Has (.type k o) := by
  by_cases same : k = kind ∧ o = owner
  · obtain ⟨rfl, rfl⟩ := same
    simp [Has, h.own]
  · simp [Has, h.others k o same, same]

theorem has_member_own (h : r.Sets changed kind owner names) (name : String) :
    changed.Has (.member kind owner name) ↔ name ∈ names := by
  simp [Has, h.own]

theorem has_member_other (h : r.Sets changed kind owner names) {k : Kind} {o : String}
    (other : ¬ (k = kind ∧ o = owner)) (name : String) :
    changed.Has (.member k o name) ↔ r.Has (.member k o name) := by
  simp [Has, h.others k o other]

end Sets

/-! ## One command -/

/-- What a command does to the items of a registry. If it finds what it looks up, it adds its item
and drops the members of a type that starts over. Otherwise its error is about what it misses. -/
def Answers (r : Registry) (command : BuildCommand) : Except BuildError Registry → Prop
  | .ok changed => command.Finds r.Has ∧
      ∀ item, changed.Has item ↔ command.added? = some item ∨ r.Has item ∧ ¬ command.Drops item
  | .error e => ∃ item, command.Misses r.Has item ∧ e = item.error

section Answers

variable {r changed : Registry} {command : BuildCommand} {kind : Kind} {owner : String}

/-- A type that is added has no members. -/
theorem answers_add (looksUp : command.lookups = [])
    (adds : command.added? = some (.type kind owner)) (sets : r.Sets changed kind owner []) :
    r.Answers command (.ok changed) := by
  refine ⟨?_, fun item => ?_⟩
  · rw [BuildCommand.Finds, looksUp]
    exact fun item mem => nomatch mem
  · rw [adds]
    cases item with
    | type k o =>
        rw [sets.has_type]
        simp [BuildCommand.Drops, eq_comm]
    | member k o name =>
        by_cases same : k = kind ∧ o = owner
        · obtain ⟨rfl, rfl⟩ := same
          rw [sets.has_member_own]
          simp [BuildCommand.Drops, adds]
        · rw [sets.has_member_other same]
          have stays : ¬ command.Drops (.member k o name) := by
            rintro drops
            rw [BuildCommand.Drops, adds] at drops
            cases drops
            exact same ⟨rfl, rfl⟩
          simp [stays]

/-- A change of a type that is there keeps the names of its members, but for a new one. -/
theorem answers_change {names more : List String} (found : command.Finds r.Has)
    (adds : ∀ item, command.added? = some item → ∃ name, item = .member kind owner name)
    (before : r.members? kind owner = some names) (sets : r.Sets changed kind owner more)
    (mem : ∀ name, name ∈ more ↔
      command.added? = some (.member kind owner name) ∨ name ∈ names) :
    r.Answers command (.ok changed) := by
  refine ⟨found, fun item => ?_⟩
  cases item with
  | type k o =>
      have not_added : command.added? ≠ some (.type k o) := fun added => by
        obtain ⟨name, same⟩ := adds _ added
        cases same
      have there : k = kind ∧ o = owner → r.Has (.type k o) := by
        rintro ⟨rfl, rfl⟩
        simp [Has, before]
      rw [sets.has_type, or_iff_right_of_imp there]
      simp [not_added, BuildCommand.Drops]
  | member k o name =>
      have stays : ¬ command.Drops (.member k o name) := fun drops => by
        obtain ⟨other, same⟩ := adds _ drops
        cases same
      by_cases same : k = kind ∧ o = owner
      · obtain ⟨rfl, rfl⟩ := same
        rw [sets.has_member_own, mem]
        simp [Has, before, stays]
      · have not_added : command.added? ≠ some (.member k o name) := fun added => by
          obtain ⟨other, is⟩ := adds _ added
          cases is
          exact same ⟨rfl, rfl⟩
        rw [sets.has_member_other same]
        simp [stays, not_added]

/-- A command that is about a type misses it where it is not there. -/
theorem answers_missing {more : List Item} (looksUp : command.lookups = .type kind owner :: more)
    (absent : r.members? kind owner = none) :
    r.Answers command (.error (Item.type kind owner).error) := by
  refine ⟨.type kind owner, ⟨by simp [looksUp], ?_, nofun⟩, rfl⟩
  simp [Has, absent]

/-- A command that is about a type alone, by its three outcomes. -/
theorem answers_type {result : Except BuildError Registry}
    (looksUp : command.lookups = [.type kind owner])
    (adds : ∀ item, command.added? = some item → ∃ name, item = .member kind owner name)
    (missing : r.members? kind owner = none → result = .error (Item.type kind owner).error)
    (done : ∀ names ∈ r.members? kind owner, ∃ changed more, result = .ok changed ∧
      r.Sets changed kind owner more ∧ ∀ name, name ∈ more ↔
        command.added? = some (.member kind owner name) ∨ name ∈ names) :
    r.Answers command result := by
  cases there : r.members? kind owner with
  | none =>
      rw [missing there]
      exact answers_missing looksUp there
  | some names =>
      obtain ⟨changed, more, rfl, sets, mem⟩ := done names there
      refine answers_change ?_ adds there sets mem
      simp [BuildCommand.Finds, looksUp, Has, there]

/-- A command that is about a member, by its three outcomes. -/
theorem answers_member {name : String} {result : Except BuildError Registry}
    (looksUp : command.lookups = [.type kind owner, .member kind owner name])
    (adds : command.added? = none)
    (missing : r.members? kind owner = none → result = .error (Item.type kind owner).error)
    (refused : ∀ names ∈ r.members? kind owner, name ∉ names →
      result = .error (Item.member kind owner name).error)
    (done : ∀ names ∈ r.members? kind owner, name ∈ names →
      ∃ changed, result = .ok changed ∧ r.Sets changed kind owner names) :
    r.Answers command result := by
  cases there : r.members? kind owner with
  | none =>
      rw [missing there]
      exact answers_missing looksUp there
  | some names =>
      by_cases named : name ∈ names
      · obtain ⟨changed, rfl, sets⟩ := done names there named
        refine answers_change ?_ (by simp [adds]) there sets (by simp [adds])
        simp [BuildCommand.Finds, looksUp, Has, there, named]
      · rw [refused names there named]
        refine ⟨.member kind owner name, ⟨by simp [looksUp], ?_, fun k o other same => ?_⟩, rfl⟩
        · simp [Has, there, named]
        · cases same
          simp [Has, there]

theorem answers_changeClass (looksUp : command.lookups = [.type .classes owner])
    (adds : ∀ item, command.added? = some item → ∃ name, item = .member .classes owner name)
    {change : ClassEntry → ClassEntry}
    (mem : ∀ entry name, name ∈ Entries.names (change entry).properties ↔
      command.added? = some (.member .classes owner name) ∨ name ∈ Entries.names entry.properties) :
    r.Answers command (r.changeClass owner fun entry => .ok (change entry)) := by
  refine answers_type looksUp adds (fun missing => ?_) fun names there => ?_
  · rw [changeClass, Option.map_eq_none_iff.mp missing]
    rfl
  · obtain ⟨entry, found, rfl⟩ := Option.map_eq_some_iff.mp there
    rw [changeClass, found]
    exact ⟨_, _, rfl, sets_withClass r owner (change entry), mem entry⟩

theorem answers_changeEnum (looksUp : command.lookups = [.type .enums owner])
    (adds : ∀ item, command.added? = some item → ∃ name, item = .member .enums owner name)
    {change : EnumEntry → EnumEntry}
    (mem : ∀ entry name, name ∈ Entries.names (change entry).values ↔
      command.added? = some (.member .enums owner name) ∨ name ∈ Entries.names entry.values) :
    r.Answers command (r.changeEnum owner fun entry => .ok (change entry)) := by
  refine answers_type looksUp adds (fun missing => ?_) fun names there => ?_
  · rw [changeEnum, Option.map_eq_none_iff.mp missing]
    rfl
  · obtain ⟨entry, found, rfl⟩ := Option.map_eq_some_iff.mp there
    rw [changeEnum, found]
    exact ⟨_, _, rfl, sets_withEnum r owner (change entry), mem entry⟩

theorem answers_changeProperty {property : String}
    (looksUp : command.lookups = [.type .classes owner, .member .classes owner property])
    (adds : command.added? = none) (change : PropertyEntry → PropertyEntry) :
    r.Answers command (r.changeProperty owner property change) := by
  refine answers_member looksUp adds (fun missing => ?_) (fun names there absent => ?_)
    fun names there named => ?_
  · rw [changeProperty, changeClass, Option.map_eq_none_iff.mp missing]
    rfl
  · obtain ⟨entry, found, rfl⟩ := Option.map_eq_some_iff.mp there
    simp only [changeProperty, changeClass, found, Entries.get?_eq_none_iff.mpr absent]
    rfl
  · obtain ⟨entry, found, rfl⟩ := Option.map_eq_some_iff.mp there
    obtain ⟨p, foundPart, kept⟩ := Entries.exists_get?_of_mem_names named
    simp only [changeProperty, changeClass, found, foundPart]
    refine ⟨_, rfl, ?_⟩
    rw [← kept (change p)]
    exact sets_withClass r owner _

theorem answers_changeValue {value : String}
    (looksUp : command.lookups = [.type .enums owner, .member .enums owner value])
    (adds : command.added? = none) (change : ValueEntry → ValueEntry) :
    r.Answers command (r.changeValue owner value change) := by
  refine answers_member looksUp adds (fun missing => ?_) (fun names there absent => ?_)
    fun names there named => ?_
  · rw [changeValue, changeEnum, Option.map_eq_none_iff.mp missing]
    rfl
  · obtain ⟨entry, found, rfl⟩ := Option.map_eq_some_iff.mp there
    simp only [changeValue, changeEnum, found, Entries.get?_eq_none_iff.mpr absent]
    rfl
  · obtain ⟨entry, found, rfl⟩ := Option.map_eq_some_iff.mp there
    obtain ⟨v, foundPart, kept⟩ := Entries.exists_get?_of_mem_names named
    simp only [changeValue, changeEnum, found, foundPart]
    refine ⟨_, rfl, ?_⟩
    rw [← kept (change v)]
    exact sets_withEnum r owner _

/-- A command either finds what it looks up or reports what it misses. -/
theorem answers_perform (r : Registry) (command : BuildCommand) :
    r.Answers command (r.perform command) := by
  cases command with
  | addClass name => exact answers_add rfl rfl (sets_withClass r name {})
  | addEnum name => exact answers_add rfl rfl (sets_withEnum r name {})
  | addProperty owner name type =>
      refine answers_changeClass rfl ?_ fun entry other => ?_
      · rintro item ⟨⟩
        exact ⟨name, rfl⟩
      · rw [Entries.mem_names_insert]
        simp [BuildCommand.added?, eq_comm]
  | addValue enum value =>
      refine answers_changeEnum rfl ?_ fun entry other => ?_
      · rintro item ⟨⟩
        exact ⟨value, rfl⟩
      · rw [Entries.mem_names_insert]
        simp [BuildCommand.added?, eq_comm]
  | classDescription | classAlias =>
      exact answers_changeClass rfl (by simp [BuildCommand.added?]) (by simp [BuildCommand.added?])
  | enumDescription | enumAlias =>
      exact answers_changeEnum rfl (by simp [BuildCommand.added?]) (by simp [BuildCommand.added?])
  | propertyDescription | propertyAlias => exact answers_changeProperty rfl rfl _
  | valueDescription | valueAlias | valueSkip => exact answers_changeValue rfl rfl _

end Answers

/-! ## Commands in a row -/

section Apply

variable {r changed : Registry} {command : BuildCommand} {rest : List BuildCommand}

theorem hasAfter_nil (r : Registry) : r.HasAfter [] = r.Has := by
  funext item
  simp [HasAfter]

/-- What is there after commands is there after the later ones in the registry that the first one
made. -/
theorem hasAfter_cons (h : r.Answers command (.ok changed)) (rest : List BuildCommand) :
    r.HasAfter (command :: rest) = changed.HasAfter rest := by
  funext item
  apply propext
  rw [HasAfter, HasAfter, h.2 item]
  constructor
  · rintro (⟨there, stays⟩ | ⟨before, adder, after, split, adds, stays⟩)
    · obtain ⟨own, others⟩ := List.forall_mem_cons.mp stays
      exact Or.inl ⟨Or.inr ⟨there, own⟩, others⟩
    · cases before with
      | nil =>
          cases split
          exact Or.inl ⟨Or.inl adds, stays⟩
      | cons first before =>
          cases split
          exact Or.inr ⟨before, adder, after, rfl, adds, stays⟩
  · rintro (⟨adds | ⟨there, own⟩, others⟩ | ⟨before, adder, after, rfl, adds, stays⟩)
    · exact Or.inr ⟨[], command, rest, rfl, adds, others⟩
    · exact Or.inl ⟨there, List.forall_mem_cons.mpr ⟨own, others⟩⟩
    · exact Or.inr ⟨command :: before, adder, after, rfl, adds, stays⟩

theorem allFind_nil (r : Registry) : r.AllFind [] := by
  intro before command after split
  cases before <;> cases split

theorem allFind_cons (h : r.Answers command (.ok changed)) (rest : List BuildCommand) :
    r.AllFind (command :: rest) ↔ changed.AllFind rest := by
  constructor
  · intro all before next after split
    rw [← hasAfter_cons h]
    exact all (command :: before) next after (by rw [split]; rfl)
  · intro all before next after split
    cases before with
    | nil =>
        cases split
        rw [hasAfter_nil]
        exact h.1
    | cons first before =>
        cases split
        rw [hasAfter_cons h]
        exact all before next after rfl

/-- **Commands are carried out up to the first that does not find what it looks up.** All of them
are carried out exactly if each in turn finds its type, and its member if it is about one. Otherwise
the error is about what the first of the others misses, a member only where the type is there, and
the registry is the one that the commands before it lead to. -/
theorem apply_stops_at_miss (r : Registry) (commands : List BuildCommand) :
    ((r.apply commands).2 = .ok () ↔ r.AllFind commands) ∧
      (¬ r.AllFind commands → ∃ before command after item,
        commands = before ++ command :: after ∧ r.AllFind before ∧
        command.Misses (r.HasAfter before) item ∧
        r.apply before = ((r.apply commands).1, .ok ()) ∧
        (r.apply commands).2 = .error item.error) := by
  induction commands generalizing r with
  | nil => exact ⟨iff_of_true rfl (allFind_nil r), fun stops => absurd (allFind_nil r) stops⟩
  | cons command rest ih =>
      have answer := r.answers_perform command
      cases done : r.perform command with
      | error e =>
          rw [done] at answer
          obtain ⟨item, misses, rfl⟩ := answer
          have fails : r.apply (command :: rest) = (r, .error item.error) := by
            rw [apply, done]
          rw [← hasAfter_nil] at misses
          have stops : ¬ r.AllFind (command :: rest) :=
            fun all => misses.not_finds (all [] command rest rfl)
          rw [fails]
          exact ⟨iff_of_false (by rintro ⟨⟩) stops,
            fun _ => ⟨[], command, rest, item, rfl, allFind_nil r, misses, rfl, rfl⟩⟩
      | ok changed =>
          rw [done] at answer
          have goesOn (more : List BuildCommand) :
              r.apply (command :: more) = changed.apply more := by
            rw [apply, done]
          obtain ⟨all, stops⟩ := ih changed
          rw [goesOn, allFind_cons answer]
          refine ⟨all, fun not_all => ?_⟩
          obtain ⟨before, next, after, item, rfl, found, misses, registry, error⟩ := stops not_all
          refine ⟨command :: before, next, after, item, rfl, ?_, ?_, ?_, error⟩
          · exact (allFind_cons answer before).mpr found
          · rwa [hasAfter_cons answer]
          · rwa [goesOn]

end Apply

/-- A person whose home is forgotten, as the class is added again. -/
def homelessPerson : List BuildCommand :=
  [.addClass "Person", .addProperty "Person" "home" (.leaf .string),
    .propertyAlias "Person" "home" "address", .addClass "Person",
    .propertyAlias "Person" "home" "address", .addEnum "Status"]

theorem apply_stops_at_miss_homelessPerson :
    (({} : Registry).apply homelessPerson).2 = .error (.unknownProperty "Person" "home") ∧
      ¬ ({} : Registry).AllFind homelessPerson ∧
      ∃ before command after item, homelessPerson = before ++ command :: after ∧
        ({} : Registry).AllFind before ∧ command.Misses (({} : Registry).HasAfter before) item ∧
        ({} : Registry).apply before = ((({} : Registry).apply homelessPerson).1, .ok ()) ∧
        (({} : Registry).apply homelessPerson).2 = .error item.error := by
  have fails : (({} : Registry).apply homelessPerson).2
      = .error (.unknownProperty "Person" "home") := rfl
  have stops : ¬ ({} : Registry).AllFind homelessPerson := fun all => by
    rw [(apply_stops_at_miss {} homelessPerson).1.mpr all] at fails
    cases fails
  exact ⟨fails, stops, (apply_stops_at_miss {} homelessPerson).2 stops⟩

end Registry

end SchemaLoom
