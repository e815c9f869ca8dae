import SchemaLoom.Proofs.Builder.Complete

set_option autoImplicit false

/-! # The first dangling reference

A registry is looked through in three nested orders: its classes, the properties of each, and from
left to right the names in the type of each. An occurrence of a name has an *address*, the indices
that lead to it from the outside in, and one occurrence comes before another where its address is
smaller in the lexicographic order of lists. So `finish` is right if it finds the dangling occurrence
of the smallest address, and each of the three searches has to find the smallest one of its own part
(`FindsFirst`) for the whole to do so.

A property without a type would be passed over in silence. No commands lead to one
(`Registry.Typed.after`).
-/

namespace SchemaLoom

/-! ## Searches in order -/

section Searches

variable {α β γ : Type}

/-- The search has found what `P` holds of at the smallest address, or nothing where `P` holds
nowhere. -/
def FindsFirst (P : List Nat → β → Prop) : Option β → Prop
  | some found => ∃ address, P address found ∧ ∀ other b, P other b → ¬ other < address
  | none => ∀ address b, ¬ P address b

/-- `P` holds inside one of the items, whose index leads the address. -/
def InItems (P : α → List Nat → β → Prop) (items : List α) (address : List Nat) (b : β) : Prop :=
  ∃ i item rest, address = i :: rest ∧ items[i]? = some item ∧ P item rest b

theorem FindsFirst.congr {P Q : List Nat → β → Prop} {found : Option β} (h : FindsFirst P found)
    (same : ∀ address b, P address b ↔ Q address b) : FindsFirst Q found := by
  have equal : P = Q := funext fun address => funext fun b => propext (same address b)
  rwa [← equal]

theorem FindsFirst.map {P : List Nat → β → Prop} {found : Option β} (h : FindsFirst P found)
    (f : β → γ) : FindsFirst (fun address c => ∃ b, P address b ∧ c = f b) (found.map f) := by
  cases found with
  | none =>
      rintro address c ⟨b, holds, -⟩
      exact h address b holds
  | some b =>
      obtain ⟨address, holds, least⟩ := h
      refine ⟨address, ⟨b, holds, rfl⟩, ?_⟩
      rintro other c ⟨b', holds', -⟩
      exact least other b' holds'

/-- A search through a list goes on behind an item in which it finds nothing. -/
theorem FindsFirst.cons {P : α → List Nat → β → Prop} {item : α} {rest : List α}
    {here later : Option β} (head : FindsFirst (P item) here)
    (tail : FindsFirst (InItems P rest) later) :
    FindsFirst (InItems P (item :: rest)) (here.or later) := by
  cases here with
  | some b =>
      obtain ⟨address, holds, least⟩ := head
      refine ⟨0 :: address, ⟨0, item, address, rfl, rfl, holds⟩, ?_⟩
      rintro other b' ⟨i, item', inner, rfl, there, holds'⟩ before
      rcases List.cons_lt_cons_iff.mp before with lower | ⟨rfl, inside⟩
      · omega
      · cases there
        exact least inner b' holds' inside
  | none =>
      -- Nothing is at an address that the first item leads, so every index is one too high.
      have skipped {i : Nat} {item' : α} {inner : List Nat} {b : β}
          (there : (item :: rest)[i]? = some item') (holds : P item' inner b) :
          ∃ j, i = j + 1 ∧ rest[j]? = some item' := by
        cases i with
        | zero =>
            cases there
            exact (head inner b holds).elim
        | succ j => exact ⟨j, rfl, there⟩
      cases later with
      | none =>
          rintro address b ⟨i, item', inner, rfl, there, holds⟩
          obtain ⟨j, rfl, later⟩ := skipped there holds
          exact tail (j :: inner) b ⟨j, item', inner, rfl, later, holds⟩
      | some b =>
          obtain ⟨address, ⟨j, item', inner, rfl, there, holds⟩, least⟩ := tail
          refine ⟨(j + 1) :: inner, ⟨j + 1, item', inner, rfl, there, holds⟩, ?_⟩
          rintro other b' ⟨k, item'', inner', rfl, there', holds'⟩ before
          obtain ⟨l, rfl, later⟩ := skipped there' holds'
          refine least (l :: inner') b' ⟨l, item'', inner', rfl, later, holds'⟩ ?_
          rw [List.cons_lt_cons_iff] at before ⊢
          rcases before with lower | ⟨same, inside⟩
          · exact Or.inl (by omega)
          · exact Or.inr ⟨by omega, inside⟩

/-- **A search through a list that finds the first one in every item finds the first one.** -/
theorem FindsFirst.findSome? {P : α → List Nat → β → Prop} {search : α → Option β}
    (items : List α) (each : ∀ item ∈ items, FindsFirst (P item) (search item)) :
    FindsFirst (InItems P items) (items.findSome? search) := by
  induction items with
  | nil =>
      rintro address b ⟨i, item, inner, -, there, -⟩
      cases there
  | cons item rest ih =>
      have head := each item List.mem_cons_self
      have tail := ih fun other mem => each other (List.mem_cons_of_mem _ mem)
      have step : (item :: rest).findSome? search
          = (search item).or (rest.findSome? search) := by
        cases found : search item <;> simp [found]
      rw [step]
      exact head.cons tail

end Searches

/-! ## Names in a field type -/

namespace FieldType

/-- The type names another one at an address: the indices of the parts that lead to the name, where
the only part of a list or of an optional type has the index 0. -/
inductive NamesAt : FieldType → List Nat → String → Prop where
  | named {name : String} : NamesAt (.leaf (.named name)) [] name
  | item {item : FieldType} {address : List Nat} {name : String}
      (inside : NamesAt item address name) : NamesAt (.list item) (0 :: address) name
  | member {members : List FieldType} {i : Nat} {type : FieldType} {address : List Nat}
      {name : String} (there : members[i]? = some type) (inside : NamesAt type address name) :
      NamesAt (.union members) (i :: address) name
  | inner {inner : FieldType} {address : List Nat} {name : String}
      (inside : NamesAt inner address name) : NamesAt (.optional inner) (0 :: address) name

/-- The name at the address passes the test. -/
def PassesAt (test : String → Bool) (type : FieldType) (address : List Nat) (name : String) :
    Prop :=
  type.NamesAt address name ∧ test name = true

variable (test : String → Bool)

theorem findsFirst_leaf (l : FieldLeaf) :
    FindsFirst (PassesAt test (.leaf l)) ((FieldType.leaf l).targets.find? test) := by
  cases l with
  | named name =>
      by_cases passes : test name = true
      · have found : (FieldType.leaf (.named name)).targets.find? test = some name := by
          simp [targets, passes]
        rw [found]
        exact ⟨[], ⟨.named, passes⟩, fun other _ _ => List.not_lt_nil other⟩
      · have missed : (FieldType.leaf (.named name)).targets.find? test = none := by
          simp [targets, passes]
        rw [missed]
        rintro address other ⟨named, passes'⟩
        cases named
        exact passes passes'
  | _ =>
      rintro address name ⟨named, -⟩
      cases named

/-- The only part of a type is searched as a list of one. -/
theorem findsFirst_only {whole part : FieldType} {found : Option String}
    (same : ∀ address name, whole.NamesAt address name
      ↔ ∃ inner, address = 0 :: inner ∧ part.NamesAt inner name)
    (h : FindsFirst (PassesAt test part) found) : FindsFirst (PassesAt test whole) found := by
  have one : FindsFirst (InItems (PassesAt test) [part]) (found.or none) :=
    h.cons fun address name inside => by
      obtain ⟨i, item, inner, -, there, -⟩ := inside
      cases there
  rw [Option.or_none] at one
  refine one.congr fun address name => ?_
  constructor
  · rintro ⟨i, item, inner, rfl, there, named, passes⟩
    cases i with
    | zero =>
        cases there
        exact ⟨(same _ _).mpr ⟨inner, rfl, named⟩, passes⟩
    | succ j => cases there
  · rintro ⟨named, passes⟩
    obtain ⟨inner, rfl, inside⟩ := (same _ _).mp named
    exact ⟨0, part, inner, rfl, rfl, inside, passes⟩

mutual

/-- The first of the targets that passes a test is the one of the smallest address. -/
theorem findsFirst_targets : ∀ type : FieldType,
    FindsFirst (PassesAt test type) (type.targets.find? test)
  | .leaf l => findsFirst_leaf test l
  | .list item => by
      refine findsFirst_only test (fun address name => ?_) (findsFirst_targets item)
      constructor
      · intro named
        cases named with
        | item inside => exact ⟨_, rfl, inside⟩
      · rintro ⟨inner, rfl, inside⟩
        exact .item inside
  | .optional inner => by
      refine findsFirst_only test (fun address name => ?_) (findsFirst_targets inner)
      constructor
      · intro named
        cases named with
        | inner inside => exact ⟨_, rfl, inside⟩
      · rintro ⟨inner, rfl, inside⟩
        exact .inner inside
  | .union members => by
      refine (findsFirst_targetsOfAll members).congr fun address name => ?_
      constructor
      · rintro ⟨i, member, inner, rfl, there, named, passes⟩
        exact ⟨.member there named, passes⟩
      · rintro ⟨named, passes⟩
        cases named with
        | member there inside => exact ⟨_, _, _, rfl, there, inside, passes⟩

theorem findsFirst_targetsOfAll : ∀ members : List FieldType,
    FindsFirst (InItems (PassesAt test) members) ((targetsOfAll members).find? test)
  | [] => by
      rintro address name ⟨i, member, inner, -, there, -⟩
      cases there
  | member :: rest => by
      rw [targetsOfAll, List.find?_append]
      exact (findsFirst_targets member).cons (findsFirst_targetsOfAll rest)

end

end FieldType

/-! ## References of a registry -/

namespace Registry

/-- A property of the registry refers to a name. The address gives the index of the class, that of
the property and the address of the name in the type; the owner is the property, led by its class. -/
inductive RefersAt (r : Registry) : List Nat → String → String → Prop where
  | property {i j : Nat} {owner : String × ClassEntry} {property : String × PropertyEntry}
      {type : FieldType} {address : List Nat} {target : String}
      (registered : r.classes[i]? = some owner) (owned : owner.2.properties[j]? = some property)
      (typed : property.2.type? = some type) (named : type.NamesAt address target) :
      RefersAt r (i :: j :: address) s!"{owner.1}.{property.1}" target

/-- The reference at the address is to a name that neither a class nor an enum has. -/
structure DanglesAt (r : Registry) (address : List Nat) (owner target : String) : Prop where
  refers : r.RefersAt address owner target
  unknown : target ∉ Entries.names r.classes ∧ target ∉ Entries.names r.enums

theorem defines_iff {r : Registry} {name : String} : r.defines name = true ↔
    name ∈ Entries.names r.classes ∨ name ∈ Entries.names r.enums := by
  have present {α : Type} (entries : Entries α) :
      Entries.contains name entries = true ↔ name ∈ Entries.names entries := by
    rw [Entries.contains, Option.isSome_iff_ne_none, Ne, Entries.get?_eq_none_iff, not_not]
  rw [defines, Bool.or_eq_true, present, present]

/-- The error is about a name at the address of the property's type. -/
def FaultsInProperty (r : Registry) (owner : String) (property : String × PropertyEntry)
    (address : List Nat) (e : BuildError) : Prop :=
  ∃ type target, property.2.type? = some type ∧ type.NamesAt address target ∧
    r.defines target = false ∧ e = .danglingReference s!"{owner}.{property.1}" target

theorem findsFirst_property (r : Registry) (owner : String) (property : String × PropertyEntry) :
    FindsFirst (r.FaultsInProperty owner property) ((r.danglingOf? property.2).map
      (.danglingReference s!"{owner}.{property.1}")) := by
  cases typed : property.2.type? with
  | none =>
      have skipped : r.danglingOf? property.2 = none := by simp [danglingOf?, typed]
      rw [skipped]
      rintro address e ⟨type, target, typed', -⟩
      rw [typed] at typed'
      cases typed'
  | some type =>
      have search : r.danglingOf? property.2 = type.targets.find? fun name => !r.defines name := by
        simp [danglingOf?, typed]
      rw [search]
      refine ((FieldType.findsFirst_targets _ type).map _).congr fun address e => ?_
      constructor
      · rintro ⟨target, ⟨named, passes⟩, rfl⟩
        exact ⟨type, target, typed, named, by simpa using passes, rfl⟩
      · rintro ⟨type', target, typed', named, unknown, rfl⟩
        rw [typed] at typed'
        cases typed'
        exact ⟨target, ⟨named, by simpa using unknown⟩, rfl⟩

theorem danglingIn?_eq_findSome? (r : Registry) (owner : String)
    (properties : Entries PropertyEntry) :
    r.danglingIn? owner properties = properties.findSome? fun property =>
      (r.danglingOf? property.2).map (.danglingReference s!"{owner}.{property.1}") := by
  induction properties with
  | nil => rfl
  | cons property rest ih =>
      obtain ⟨name, entry⟩ := property
      rw [danglingIn?, List.findSome?_cons, ih]
      cases r.danglingOf? entry <;> rfl

theorem firstDangling?_eq_findSome? (r : Registry) (classes : Entries ClassEntry) :
    r.firstDangling? classes
      = classes.findSome? fun owner => r.danglingIn? owner.1 owner.2.properties := by
  induction classes with
  | nil => rfl
  | cons owner rest ih =>
      obtain ⟨name, entry⟩ := owner
      rw [firstDangling?, List.findSome?_cons, ih]
      cases r.danglingIn? name entry.properties <;> rfl

/-- The search through a registry finds the dangling reference of the smallest address. -/
theorem findsFirst_firstDangling? (r : Registry) :
    FindsFirst (fun address e => ∃ owner target, e = .danglingReference owner target ∧
      r.DanglesAt address owner target) (r.firstDangling? r.classes) := by
  have inClass (owner : String × ClassEntry) :
      FindsFirst (InItems (r.FaultsInProperty owner.1) owner.2.properties)
        (r.danglingIn? owner.1 owner.2.properties) := by
    rw [danglingIn?_eq_findSome?]
    exact .findSome? _ fun property _ => r.findsFirst_property owner.1 property
  have whole : FindsFirst (InItems (fun owner =>
      InItems (r.FaultsInProperty owner.1) owner.2.properties) r.classes)
        (r.firstDangling? r.classes) := by
    rw [firstDangling?_eq_findSome?]
    exact .findSome? _ fun owner _ => inClass owner
  have unknown (target : String) : r.defines target = false ↔
      target ∉ Entries.names r.classes ∧ target ∉ Entries.names r.enums := by
    rw [← not_or, ← defines_iff, Bool.not_eq_true]
  refine whole.congr fun address e => ?_
  constructor
  · rintro ⟨i, owner, -, rfl, registered, j, property, rest, rfl, owned, type, target, typed, named,
      missing, rfl⟩
    exact ⟨_, target, rfl, .property registered owned typed named, (unknown target).mp missing⟩
  · rintro ⟨_, target, rfl, ⟨registered, owned, typed, named⟩, missing⟩
    exact ⟨_, _, _, rfl, registered, _, _, _, rfl, owned, _, target, typed, named,
      (unknown target).mpr missing, rfl⟩

/-! ## Registries that commands lead to -/

/-- Carries out a command, or lets it be where it fails. -/
def attempt (r : Registry) (command : BuildCommand) : Registry :=
  match r.perform command with
  | .ok changed => changed
  | .error _ => r

/-- The registry that commands make of an empty one. -/
def after (commands : List BuildCommand) : Registry := commands.foldl attempt {}

/-- Every property has a type. -/
def Typed (r : Registry) : Prop :=
  ∀ owner ∈ r.classes, ∀ property ∈ owner.2.properties, property.2.type? ≠ none

namespace Typed

variable {r changed : Registry}

/-- A class is changed to one whose properties have types. -/
theorem changeClass (h : r.Typed) {name : String}
    {change : ClassEntry → Except BuildError ClassEntry}
    (done : r.changeClass name change = .ok changed)
    (typed : ∀ entry entry', change entry = .ok entry' →
      (∀ property ∈ entry.properties, property.2.type? ≠ none) →
        ∀ property ∈ entry'.properties, property.2.type? ≠ none) : changed.Typed := by
  unfold Registry.changeClass at done
  split at done
  · next entry found =>
      cases made : change entry with
      | error e =>
          rw [made] at done
          cases done
      | ok entry' =>
          rw [made] at done
          cases done
          intro owner mem
          rcases Entries.mem_insert mem with rfl | before
          · exact typed entry entry' made (h _ (Entries.mem_of_get? found))
          · exact h owner before
  · cases done

/-- A property keeps its type where the change leaves it alone. -/
theorem changeProperty (h : r.Typed) {owner property : String}
    {change : PropertyEntry → PropertyEntry}
    (done : r.changeProperty owner property change = .ok changed)
    (kept : ∀ p, (change p).type? = p.type?) : changed.Typed := by
  refine h.changeClass done fun entry entry' made typed => ?_
  split at made
  · next p found =>
      cases made
      intro other mem
      rcases Entries.mem_insert mem with rfl | before
      · rw [kept]
        exact typed _ (Entries.mem_of_get? found)
      · exact typed other before
  · cases made

/-- No change of an enum touches a class. -/
theorem changeEnum (h : r.Typed) {name : String}
    {change : EnumEntry → Except BuildError EnumEntry}
    (done : r.changeEnum name change = .ok changed) : changed.Typed := by
  unfold Registry.changeEnum at done
  split at done
  · next entry found =>
      cases made : change entry with
      | error e =>
          rw [made] at done
          cases done
      | ok entry' =>
          rw [made] at done
          cases done
          exact h
  · cases done

/-- A command that succeeds leaves no property without a type. -/
theorem perform (h : r.Typed) {command : BuildCommand}
    (done : r.perform command = .ok changed) : changed.Typed := by
  cases command with
  | addClass name =>
      cases done
      intro owner mem
      rcases Entries.mem_insert mem with rfl | before
      · exact fun _ none => nomatch none
      · exact h owner before
  | addProperty owner name type =>
      refine h.changeClass done fun entry entry' made typed => ?_
      cases made
      intro property mem
      rcases Entries.mem_insert mem with rfl | before
      · exact Option.some_ne_none type
      · exact typed property before
  | classDescription | classAlias =>
      refine h.changeClass done fun entry entry' made typed => ?_
      cases made
      exact typed
  | propertyDescription | propertyAlias => exact h.changeProperty done fun _ => rfl
  | addEnum name =>
      cases done
      exact h
  | enumDescription | enumAlias | addValue | valueDescription | valueAlias | valueSkip =>
      exact h.changeEnum done

theorem attempt (h : r.Typed) (command : BuildCommand) : (r.attempt command).Typed := by
  unfold Registry.attempt
  split
  · next done => exact h.perform done
  · exact h

/-- **Every property of a registry that commands lead to has a type.** -/
theorem after (commands : List BuildCommand) : (Registry.after commands).Typed := by
  have more (r : Registry) (h : r.Typed) : (commands.foldl Registry.attempt r).Typed := by
    induction commands generalizing r with
    | nil => exact h
    | cons command rest ih => exact ih (r.attempt command) (h.attempt command)
  exact more {} fun _ none => nomatch none

end Typed

/-- **A registry that commands lead to is complete exactly where every name in a type of a property,
at any depth, is that of a class or of an enum**, and otherwise the first reference that dangles is
reported. Commands that fail on the way count for nothing, and no property is passed over for want
of a type. -/
theorem finish_after (commands : List BuildCommand) :
    (∀ owner ∈ (after commands).classes, ∀ property ∈ owner.2.properties,
      property.2.type? ≠ none) ∧
    ((after commands).finish = .ok () ↔
      ∀ address owner target, (after commands).RefersAt address owner target →
        target ∈ Entries.names (after commands).classes ∨
          target ∈ Entries.names (after commands).enums) ∧
    ((after commands).finish ≠ .ok () → ∃ address owner target,
      (after commands).finish = .error (.danglingReference owner target) ∧
      (after commands).DanglesAt address owner target ∧
      ∀ other owner' target', (after commands).DanglesAt other owner' target' →
        ¬ other < address) := by
  refine ⟨Typed.after commands, ?_⟩
  -- What `finish` says holds of any registry; only the types need the commands.
  generalize after commands = r
  have search := r.findsFirst_firstDangling?
  cases found : r.firstDangling? r.classes with
  | none =>
      have complete : r.finish = .ok () := by simp [finish, found]
      rw [found] at search
      refine ⟨iff_of_true complete fun address owner target refers => ?_, fun fails =>
        absurd complete fails⟩
      by_contra unknown
      exact search address _ ⟨owner, target, rfl, refers, not_or.mp unknown⟩
  | some e =>
      rw [found] at search
      obtain ⟨address, ⟨owner, target, rfl, dangles⟩, least⟩ := search
      have reported : r.finish = .error (.danglingReference owner target) := by
        simp [finish, found]
      have fails : r.finish ≠ .ok () := by simp [reported]
      refine ⟨iff_of_false fails fun all => ?_, fun _ => ⟨address, owner, target, reported, dangles,
        fun other owner' target' dangles' => least other _ ⟨owner', target', rfl, dangles'⟩⟩⟩
      exact not_or.mpr dangles.unknown (all address owner target dangles.refers)

/-- A person with pets: the class is added twice and a text goes to a class that is not there. -/
def petOwner : List BuildCommand :=
  [.addClass "Person", .addProperty "Person" "home" (.leaf (.named "House")), .addEnum "Cat",
    .addClass "Person", .classAlias "Animal" "animal",
    .addProperty "Person" "pet" (.optional (.union [.leaf (.named "Cat"),
      .list (.leaf (.named "Dog")), .leaf (.named "House")])),
    .addProperty "Person" "home" (.leaf (.named "House"))]

/-- The dog comes before the house, which the first class `Person` would have named first. -/
theorem finish_after_petOwner :
    (after petOwner).finish = .error (.danglingReference "Person.pet" "Dog") ∧
      ∃ address, (after petOwner).DanglesAt address "Person.pet" "Dog" ∧
        ∀ other owner target, (after petOwner).DanglesAt other owner target →
          ¬ other < address := by
  have reported : (after petOwner).finish = .error (.danglingReference "Person.pet" "Dog") := rfl
  have fails : (after petOwner).finish ≠ .ok () := by simp [reported]
  obtain ⟨address, owner, target, first, dangles, least⟩ := (finish_after petOwner).2.2 fails
  rw [reported] at first
  cases first
  exact ⟨reported, address, dangles, least⟩

end Registry

end SchemaLoom
