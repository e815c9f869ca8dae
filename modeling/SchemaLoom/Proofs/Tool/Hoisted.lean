import Mathlib.Data.List.Perm.Basic
import SchemaLoom.Proofs.Entries.LastWins
import SchemaLoom.Proofs.Json.Rebased

set_option autoImplicit false

/-! # What a wrapper holds

The members of a schema of arguments are split in two: the containers of definitions go to the root
of the wrapper, everything else goes below the key of the arguments and gets a title. `Hoists` says
what the split is, whatever the order: no member is lost and none is doubled. What a key selects in
the wrapper and in the arguments follows from it, since every key has one value.
-/

namespace SchemaLoom

/-! ## Entries taken out -/

namespace Entries

variable {α : Type}

theorem lastFirst_perm (entries : Entries α) : (lastFirst entries).Perm entries := by
  cases entries with
  | nil => exact .refl _
  | cons e rest =>
      have last := List.cons_ne_nil e rest
      have moved : (lastFirst (e :: rest)).Perm
          ((e :: rest).dropLast ++ [(e :: rest).getLast last]) :=
        (List.perm_append_singleton ..).symm
      rwa [List.dropLast_append_getLast last] at moved

theorem swapErase?_perm {name : String} {entries rest : Entries α} {value : α}
    (h : swapErase? name entries = some (value, rest)) : ((name, value) :: rest).Perm entries := by
  induction entries generalizing rest with
  | nil => cases h
  | cons e others ih =>
      obtain ⟨n, a⟩ := e
      by_cases same : n = name
      · subst same
        rw [swapErase?, if_pos rfl] at h
        cases h
        exact (lastFirst_perm others).cons _
      · rw [swapErase?, if_neg same] at h
        obtain ⟨⟨found, left⟩, inner, eq⟩ := Option.map_eq_some_iff.mp h
        cases eq
        exact (List.Perm.swap ..).trans ((ih inner).cons _)

theorem not_mem_names_of_swapErase? {name : String} {entries : Entries α}
    (h : swapErase? name entries = none) : name ∉ names entries := by
  rw [← get?_eq_none_iff]
  induction entries with
  | nil => rfl
  | cons e rest ih =>
      obtain ⟨n, a⟩ := e
      by_cases same : n = name
      · rw [swapErase?, if_pos same] at h
        cases h
      · rw [swapErase?, if_neg same, Option.map_eq_none_iff] at h
        rw [get?_cons_of_ne same, ih h]

/-- Where every name has one entry, the order does not matter to what is found. -/
theorem get?_of_perm {entries more : Entries α} (h : entries.Perm more)
    (distinct : (names more).Nodup) (name : String) : get? name entries = get? name more := by
  have distinct' : (names entries).Nodup := (h.map Prod.fst).nodup_iff.mpr distinct
  cases found : get? name entries with
  | some a => exact (get?_of_mem distinct (h.subset (mem_of_get? found))).symm
  | none =>
      rw [get?_eq_none_iff] at found
      exact (get?_eq_none_iff.mpr fun there => found ((h.map Prod.fst).symm.subset there)).symm

end Entries

/-! ## Hoisting -/

/-- Members are split into those of some keys and the others, in whatever order. -/
structure Hoists (keys : List String) (members hoisted rest : Entries Json) : Prop where
  perm : (hoisted ++ rest).Perm members
  hoisted : ∀ e ∈ hoisted, e.1 ∈ keys
  rest : ∀ e ∈ rest, e.1 ∉ keys

theorem hoistDefinitions_hoists (keys : List String) {members : Entries Json}
    (distinct : (Entries.names members).Nodup) :
    Hoists keys members (hoistDefinitions keys members).1 (hoistDefinitions keys members).2 := by
  induction keys generalizing members with
  | nil => exact ⟨.refl _, by simp [hoistDefinitions], by simp⟩
  | cons key more ih =>
      unfold hoistDefinitions
      cases found : Entries.swapErase? key members with
      | none =>
          have split := ih distinct
          have absent := Entries.not_mem_names_of_swapErase? found
          refine ⟨split.perm, fun e he => List.mem_cons_of_mem _ (split.hoisted e he), ?_⟩
          intro e he
          have there : e ∈ members := split.perm.subset (List.mem_append_right _ he)
          rintro (_ | ⟨_, later⟩)
          · exact absent (List.mem_map.mpr ⟨e, there, rfl⟩)
          · exact split.rest e he later
      | some out =>
          obtain ⟨value, left⟩ := out
          have perm := Entries.swapErase?_perm found
          -- A key that was taken out is not in what is left, for every key has one member.
          obtain ⟨absent, others⟩ :=
            List.nodup_cons.mp ((perm.map Prod.fst).nodup_iff.mpr distinct)
          have split := ih others
          refine ⟨(split.perm.cons _).trans perm, ?_, ?_⟩
          · intro e he
            rcases List.mem_cons.mp he with rfl | he
            · exact List.mem_cons_self
            · exact List.mem_cons_of_mem _ (split.hoisted e he)
          · intro e he
            have there : e ∈ left := split.perm.subset (List.mem_append_right _ he)
            rintro (_ | ⟨_, later⟩)
            · exact absent (List.mem_map.mpr ⟨e, there, rfl⟩)
            · exact split.rest e he later

namespace Hoists

variable {keys : List String} {members hoisted rest : Entries Json} {key : String}

theorem get?_hoisted_of_not_mem (h : Hoists keys members hoisted rest) (absent : key ∉ keys) :
    Entries.get? key hoisted = none := by
  rw [Entries.get?_eq_none_iff]
  intro there
  obtain ⟨e, he, rfl⟩ := List.mem_map.mp there
  exact absent (h.hoisted e he)

theorem get?_rest_of_mem (h : Hoists keys members hoisted rest) (mem : key ∈ keys) :
    Entries.get? key rest = none := by
  rw [Entries.get?_eq_none_iff]
  intro there
  obtain ⟨e, he, rfl⟩ := List.mem_map.mp there
  exact h.rest e he mem

theorem get?_hoisted (h : Hoists keys members hoisted rest)
    (distinct : (Entries.names members).Nodup) (mem : key ∈ keys) :
    Entries.get? key hoisted = Entries.get? key members := by
  rw [← Entries.get?_of_perm h.perm distinct, Entries.get?_append, h.get?_rest_of_mem mem,
    Option.or_none]

theorem get?_rest (h : Hoists keys members hoisted rest)
    (distinct : (Entries.names members).Nodup) (absent : key ∉ keys) :
    Entries.get? key rest = Entries.get? key members := by
  rw [← Entries.get?_of_perm h.perm distinct, Entries.get?_append,
    h.get?_hoisted_of_not_mem absent, Option.none_or]

end Hoists

/-! ## The wrapper -/

namespace ToolAdapter

variable {adapter : ToolAdapter} {tool : Tool} {input hoisted rest : Entries Json} {key : String}

/-- What a wrapper with the given properties has of its own. -/
def ownMembers (properties : Entries Json) : Entries Json :=
  [("type", .str "object"), ("properties", .obj properties),
    ("required", .arr (properties.map fun (key, _) => .str key))]

theorem get?_ownMembers (mem : key ∈ Pointer.containers) (properties : Entries Json) :
    Entries.get? key (ownMembers properties) = none := by
  rcases List.mem_pair.mp mem with rfl | rfl <;> rfl

/-- The members of a schema of arguments under the title that the adapter gives. -/
def titled (adapter : ToolAdapter) (tool : Tool) (members : Entries Json) : Entries Json :=
  Entries.insert "title" (.str (adapter.argsClass tool)) members

/-- The properties of the wrapper of arguments without their definitions. -/
def wrapperProperties (adapter : ToolAdapter) (tool : Tool) (rest : Entries Json) : Entries Json :=
  [(adapter.nameField, adapter.discriminator tool),
    (adapter.argsField, .obj (adapter.titled tool rest))]

/-- The members of the wrapper of arguments that were split in two. -/
def wrapperMembers (adapter : ToolAdapter) (tool : Tool) (hoisted rest : Entries Json) :
    Entries Json :=
  hoisted ++ ownMembers (adapter.wrapperProperties tool rest)

/-- The members of a schema of arguments, their references moved, are split in two. -/
abbrev Splits (adapter : ToolAdapter) (input hoisted rest : Entries Json) : Prop :=
  Hoists Pointer.containers (Json.rebaseMembers adapter.argsHome input) hoisted rest

theorem wrapper_eq_ok (usable : adapter.fault? = none)
    (given : tool.inputSchema? = some (.obj input)) (distinct : (Entries.names input).Nodup) :
    ∃ hoisted rest, adapter.Splits input hoisted rest ∧
      adapter.wrapper tool = .ok (.obj (adapter.wrapperMembers tool hoisted rest)) := by
  rw [← Json.names_rebaseMembers adapter.argsHome] at distinct
  refine ⟨_, _, hoistDefinitions_hoists Pointer.containers distinct, ?_⟩
  simp only [wrapper, usable, given, hoistedArgs, Json.rebase]
  rfl

/-- The keys of an adapter without fault are names of different fields. -/
theorem camel_ne_of_usable (usable : adapter.fault? = none) :
    Identifier.camel adapter.nameField ≠ "" ∧ Identifier.camel adapter.argsField ≠ "" ∧
      Identifier.camel adapter.nameField ≠ Identifier.camel adapter.argsField := by
  unfold fault? at usable
  split at usable
  · cases usable
  · next named =>
      split at usable
      · cases usable
      · next differ =>
          simp only [Bool.or_eq_true, decide_eq_true_eq, not_or] at named
          exact ⟨named.1, named.2, differ⟩

theorem nameField_ne_argsField (usable : adapter.fault? = none) :
    adapter.nameField ≠ adapter.argsField :=
  fun same => (camel_ne_of_usable usable).2.2 (congrArg Identifier.camel same)

namespace Splits

variable (split : adapter.Splits input hoisted rest)

include split

/-- At the root of the wrapper stand the containers of definitions. -/
theorem get?_container (tool : Tool) (distinct : (Entries.names input).Nodup)
    (mem : key ∈ Pointer.containers) :
    Entries.get? key (adapter.wrapperMembers tool hoisted rest)
      = Entries.get? key (Json.rebaseMembers adapter.argsHome input) := by
  rw [← Json.names_rebaseMembers adapter.argsHome] at distinct
  rw [wrapperMembers, Entries.get?_append, split.get?_hoisted distinct mem, get?_ownMembers mem,
    Option.or_none]

theorem get?_own (tool : Tool) (absent : key ∉ Pointer.containers) :
    Entries.get? key (adapter.wrapperMembers tool hoisted rest)
      = Entries.get? key (ownMembers (adapter.wrapperProperties tool rest)) := by
  rw [wrapperMembers, Entries.get?_append, split.get?_hoisted_of_not_mem absent, Option.none_or]

theorem get?_properties (tool : Tool) :
    Entries.get? "properties" (adapter.wrapperMembers tool hoisted rest)
      = some (.obj (adapter.wrapperProperties tool rest)) :=
  split.get?_own tool (by decide)

/-- The arguments stand below their key. -/
theorem resolve?_argsHome (tool : Tool) (usable : adapter.fault? = none) :
    Pointer.resolve? (.obj (adapter.wrapperMembers tool hoisted rest)) adapter.argsHome
      = some (.obj (adapter.titled tool rest)) := by
  have path : adapter.argsHome
      = Pointer.root ++ "/" ++ "properties" ++ "/" ++ Pointer.escape adapter.argsField := rfl
  rw [path, Pointer.resolve?_child _ _ _ (Pointer.slash_not_mem_escape _),
    Pointer.resolve?_child _ _ _ (by decide), Pointer.resolve?_root, Option.bind_some,
    Pointer.step?_key (by decide), split.get?_properties tool, Option.bind_some,
    Pointer.step?_escape, wrapperProperties,
    Entries.get?_cons_of_ne (nameField_ne_argsField usable), Entries.get?_cons_self]

/-- In the arguments every other member is what it was, but for its references. -/
theorem get?_titled (tool : Tool) (distinct : (Entries.names input).Nodup)
    (absent : key ∉ Pointer.containers) (other : key ≠ "title") :
    Entries.get? key (adapter.titled tool rest)
      = Entries.get? key (Json.rebaseMembers adapter.argsHome input) := by
  rw [← Json.names_rebaseMembers adapter.argsHome] at distinct
  rw [titled, Entries.get?_insert_of_ne other, split.get?_rest distinct absent]

end Splits

end ToolAdapter

end SchemaLoom
