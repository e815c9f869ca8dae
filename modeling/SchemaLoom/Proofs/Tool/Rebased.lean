import SchemaLoom.Proofs.Tool.Hoisted

set_option autoImplicit false

/-! # References keep their targets

A schema of arguments is taken apart when it is wrapped: its definitions go to the root of the
wrapper and the rest goes below the key of the arguments. A reference into definitions stays as it
is and any other one is moved along, so each of them leads to the node that it led to, whose own
references have been moved in turn.

Only the title of the arguments is new. A reference that leads into the old title is lost, and so
is one to a text, which may itself be a reference that was moved.
-/

namespace SchemaLoom

/-! ## First segments -/

namespace Pointer

/-- The key that a reference selects first. -/
def firstKey? (reference : String) : Option String :=
  match reference.toList with
  | '#' :: '/' :: rest =>
      (Text.pieces (· = '/') rest).head?.map fun segment => String.ofList (unescapeChars segment)
  | _ => none

/-- Only what the first segment selects matters to the others. -/
theorem walk?_congr {value other : Json} {first : List Char} (more : List (List Char))
    (same : step? value first = step? other first) :
    walk? value (first :: more) = walk? other (first :: more) := by
  rw [walk?, walk?, same]

end Pointer

/-! ## Targets -/

namespace ToolAdapter

variable {adapter : ToolAdapter} {tool : Tool} {input hoisted rest : Entries Json}

/-- A reference to a part of the arguments leads in the wrapper to the moved part. -/
theorem Splits.resolve?_rebase (split : adapter.Splits input hoisted rest) (tool : Tool)
    (usable : adapter.fault? = none) (distinct : (Entries.names input).Nodup) {reference : String}
    {target : Json} (resolved : Pointer.resolve? (.obj input) reference = some target)
    (notText : target.isString = false) (below : reference ≠ Pointer.root)
    (untitled : Pointer.firstKey? reference ≠ some "title") :
    Pointer.resolve? (.obj (adapter.wrapperMembers tool hoisted rest))
        (Pointer.rebase adapter.argsHome reference) = some (target.rebase adapter.argsHome) := by
  obtain ⟨chars, rfl⟩ : ∃ chars, reference = String.ofList chars :=
    ⟨reference.toList, String.ofList_toList.symm⟩
  unfold Pointer.resolve? at resolved
  rw [String.toList_ofList] at resolved
  split at resolved
  · next pointer =>
      unfold Pointer.selectChars? at resolved
      split at resolved
      · exact absurd rfl below
      · next steps =>
          obtain ⟨first, more, cut⟩ := List.exists_cons_of_ne_nil
            (Text.pieces_ne_nil (· = '/') steps)
          rw [cut] at resolved
          have moved := Pointer.walk?_rebase adapter.argsHome resolved notText
          by_cases into : String.ofList (Pointer.unescapeChars first) ∈ Pointer.containers
          -- The containers of definitions stand at the root of the wrapper.
          · have step : Pointer.step? (.obj (adapter.wrapperMembers tool hoisted rest)) first
                = Pointer.step? ((Json.obj input).rebase adapter.argsHome) first :=
              split.get?_container tool distinct into
            rw [Pointer.rebase_of_into _ ((Pointer.isIntoDefinitions_slash cut).mpr into),
              Pointer.resolve?, String.toList_ofList]
            show Pointer.walk? _ (Text.pieces (· = '/') steps) = _
            rw [cut, Pointer.walk?_congr more step, moved]
          -- Everything else stands below the key of the arguments.
          · have outside : Pointer.isIntoDefinitions ('/' :: steps) = false := by
              rwa [← Bool.not_eq_true, Pointer.isIntoDefinitions_slash cut]
            have other : String.ofList (Pointer.unescapeChars first) ≠ "title" := by
              intro title
              refine untitled ?_
              rw [Pointer.firstKey?, String.toList_ofList]
              simp [cut, title]
            have step : Pointer.step? (.obj (adapter.titled tool rest)) first
                = Pointer.step? ((Json.obj input).rebase adapter.argsHome) first :=
              split.get?_titled tool distinct into other
            rw [Pointer.rebase_of_not_into _ outside, Pointer.resolve?_append,
              split.resolve?_argsHome tool usable, Option.bind_some, cut,
              Pointer.walk?_congr more step, moved]
      · cases resolved
  · cases resolved

/-- **References keep their targets when a tool is wrapped.** The members of the schema of the
arguments are split between the root of the wrapper and the property of the arguments, and only the
references in them are written anew, each moved by itself. A moved reference leads to what it led
to, moved likewise, and the reference to the whole leads to the property of the arguments. -/
theorem wrapper_keeps_targets (usable : adapter.fault? = none)
    (given : tool.inputSchema? = some (.obj input)) (distinct : (Entries.names input).Nodup) :
    ∃ hoisted rest w, adapter.wrapper tool = .ok w ∧
      w = .obj (adapter.wrapperMembers tool hoisted rest) ∧
      Hoists Pointer.containers (Json.rebaseMembers adapter.argsHome input) hoisted rest ∧
      Json.unlinkedMembers (Json.rebaseMembers adapter.argsHome input)
        = Json.unlinkedMembers input ∧
      Json.referencesOfMembers (Json.rebaseMembers adapter.argsHome input)
        = (Json.referencesOfMembers input).map (Pointer.rebase adapter.argsHome) ∧
      Pointer.resolve? w (Pointer.rebase adapter.argsHome Pointer.root)
        = some (.obj (adapter.titled tool rest)) ∧
      ∀ reference target, Pointer.resolve? (.obj input) reference = some target →
        target.isString = false → reference ≠ Pointer.root →
        Pointer.firstKey? reference ≠ some "title" →
        Pointer.resolve? w (Pointer.rebase adapter.argsHome reference)
          = some (target.rebase adapter.argsHome) := by
  obtain ⟨hoisted, rest, split, made⟩ := wrapper_eq_ok usable given distinct
  have root : Pointer.rebase adapter.argsHome Pointer.root = adapter.argsHome := by
    have into : Pointer.isIntoDefinitions [] = false := rfl
    have moved := Pointer.rebase_of_not_into adapter.argsHome into
    rwa [String.ofList_nil, String.append_empty] at moved
  refine ⟨hoisted, rest, _, made, rfl, split, Json.unlinkedMembers_rebaseMembers ..,
    Json.references_rebaseMembers .., ?_, ?_⟩
  · rw [root]
    exact split.resolve?_argsHome tool usable
  · intro reference target resolved notText below untitled
    exact split.resolve?_rebase tool usable distinct resolved notText below untitled

/-- An adapter that writes the arguments under a key with both characters that are escaped. -/
def escapedKeys : ToolAdapter := { argsField := "in/out~" }

/-- Arguments that refer to themselves, to their parts and to definitions. -/
def linkedArguments : Entries Json :=
  [("$defs", .obj [("leaf", .obj [("$ref", .str "#/properties/flag")])]),
    ("properties", .obj [
      ("tree", .obj [("items", .obj [("$ref", .str "#")])]),
      ("flag", .obj [("$ref", .str "#/$defs/leaf")])]),
    ("title", .str "Linked")]

/-- A tool with such arguments. -/
def linkTool : Tool := { name := "link", inputSchema? := some (.obj linkedArguments) }

theorem wrapper_keeps_targets_linkTool : ∃ w, escapedKeys.wrapper linkTool = .ok w ∧
    Pointer.resolve? w "#/$defs/leaf"
      = some (.obj [("$ref", .str "#/properties/in~1out~0/properties/flag")]) ∧
    Pointer.resolve? w "#/properties/in~1out~0/properties/flag"
      = some (.obj [("$ref", .str "#/$defs/leaf")]) ∧
    Pointer.resolve? w "#/properties/in~1out~0/properties/tree/items"
      = some (.obj [("$ref", .str "#/properties/in~1out~0")]) := by
  have usable : escapedKeys.fault? = none := by decide +kernel
  obtain ⟨_, _, w, made, -, -, -, -, -, targets⟩ :=
    wrapper_keeps_targets usable (rfl : linkTool.inputSchema? = _) (by decide)
  exact ⟨w, made,
    targets "#/$defs/leaf" _ rfl rfl (by decide) (by decide),
    targets "#/properties/flag" _ rfl rfl (by decide) (by decide),
    targets "#/properties/tree/items" _ rfl rfl (by decide) (by decide)⟩

end ToolAdapter

end SchemaLoom
