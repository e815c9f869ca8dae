import SchemaLoom.Proofs.Tool.Hoisted
import SchemaLoom.Proofs.Walk.Finishes
import SchemaLoom.Proofs.Walk.Lockstep
import SchemaLoom.Tool.Convert

set_option autoImplicit false

/-! # A wrapper adds one class

A tool is converted through a schema that wraps the schema of its arguments. Where the arguments
are an object whose references all lead into definitions, this gives the models that the arguments
give by themselves, under their title, and one class more: that of the wrapper, which stands where
the models of the definitions end.

The two conversions walk different documents. The definitions stand at the same references in both,
so they are walked in lockstep; the arguments are the document itself in the one and a property in
the other, but there they get the same name, and none of their parts can be referred to.
-/

namespace SchemaLoom

/-! ## References into definitions -/

namespace Pointer

/-- A reference into definitions stays where it is. -/
theorem rebase_of_isShared (home : String) {reference : String} (shared : IsShared reference) :
    rebase home reference = reference := by
  obtain ⟨container, mem, rest, rfl⟩ := shared
  have chars : root ++ "/" ++ container ++ "/" ++ rest
      = String.ofList ('#' :: '/' :: (container.toList ++ '/' :: rest.toList)) := by
    apply String.toList_injective
    simp [root, String.toList_append]
  have cut : Text.pieces (· = '/') (container.toList ++ '/' :: rest.toList)
      = container.toList :: Text.pieces (· = '/') rest.toList := by
    rw [pieces_append_slash, pieces_eq_self (plain_of_mem_containers mem).2]
    rfl
  rw [chars]
  apply rebase_of_into
  rwa [isIntoDefinitions_slash cut, unescapeChars_eq_self (plain_of_mem_containers mem).1,
    String.ofList_toList]

/-- Where a reference into definitions leads is decided by the container. -/
theorem resolve?_of_isShared {members members' : Entries Json}
    (same : ∀ container ∈ containers,
      Entries.get? container members' = Entries.get? container members)
    {reference : String} (shared : IsShared reference) :
    resolve? (.obj members') reference = resolve? (.obj members) reference := by
  obtain ⟨container, mem, rest, rfl⟩ := shared
  have plain := plain_of_mem_containers mem
  have chars : root ++ "/" ++ container ++ "/" ++ rest
      = root ++ "/" ++ container ++ String.ofList ('/' :: rest.toList) := by
    apply String.toList_injective
    simp [String.toList_append]
  simp only [chars, resolve?_append, resolve?_child _ _ _ plain.2, resolve?_root,
    Option.bind_some, step?_key plain.1, same container mem]

theorem definitions_congr {members members' : Entries Json}
    (same : ∀ container ∈ containers,
      Entries.get? container members' = Entries.get? container members) :
    definitions (.obj members') = definitions (.obj members) := by
  refine List.flatMap_congr fun container mem => ?_
  have found : (Json.obj members').get? container = (Json.obj members).get? container :=
    same container mem
  unfold definitionsOf
  rw [found]

/-- No reference into definitions begins like a property of the document. -/
theorem isApart_properties (more : String) : IsApart (root ++ "/" ++ ("properties/" ++ more)) := by
  rintro rest ⟨container, mem, tail, same⟩
  have chars := congrArg String.toList same
  rcases List.mem_pair.mp mem with rfl | rfl
  · simp [root, String.toList_append] at chars
  · simp [root, String.toList_append] at chars

theorem not_isShared_root : ¬ IsShared root := by
  rintro ⟨container, mem, tail, same⟩
  have chars := congrArg String.toList same
  simp [root, String.toList_append] at chars

end Pointer

/-- No shape depends on the definitions that a schema holds. -/
theorem Shape.not_mem_containers_of_mem_keys : ∀ key ∈ Shape.keys, key ∉ Pointer.containers := by
  decide

/-! ## Two fields -/

/-- Two keys of different fields give both fields. -/
theorem Walk.fields_pair (visit : Visit) (owner : String) (required : List String) (site : Site)
    {key other : String} (named : Identifier.camel key ≠ "")
    (otherNamed : Identifier.camel other ≠ "")
    (differ : Identifier.camel key ≠ Identifier.camel other) (schema more : Json) :
    fields visit owner required site [] [(key, schema), (other, more)] = (do
      let type ← visit schema (propertySite site key)
      let last ← visit more (propertySite site other)
      return [fieldFor required (key, schema) type, fieldFor required (other, more) last]) := by
  have first : (Identifier.resolve .camel key).identifier ≠ "" := named
  have second : (Identifier.resolve .camel other).identifier ≠ "" := otherNamed
  have ne : (Identifier.resolve .camel key).identifier
      ≠ (Identifier.resolve .camel other).identifier := differ
  simp only [fields, if_neg first, if_neg second, Entries.get?_nil, Entries.get?_cons_of_ne ne,
    bind_assoc, pure_bind, fieldFor]

namespace ToolAdapter

variable {adapter : ToolAdapter} {tool : Tool} {input hoisted rest : Entries Json}

/-! ## What the documents share -/

theorem rebaseMembers_of_closed (closed : Walk.Closed (.obj input)) :
    Json.rebaseMembers adapter.argsHome input = input :=
  Json.rebaseMembers_eq_self input fun reference mem =>
    Pointer.rebase_of_isShared _ (closed reference mem)

/-- A title brings no reference. -/
theorem closed_titled (closed : Walk.Closed (.obj input)) :
    Walk.Closed (.obj (adapter.titled tool input)) := by
  intro reference mem
  obtain ⟨e, he, which⟩ := Json.mem_referencesOfMembers.mp mem
  rcases Entries.mem_insert he with rfl | before
  · rcases which with same | inner
    · have key : "title" = "$ref" := congrArg Prod.fst same
      exact absurd key (by decide)
    · cases inner
  · exact closed reference (Json.mem_referencesOfMembers.mpr ⟨e, before, which⟩)

namespace Splits

variable (split : adapter.Splits input hoisted rest) (distinct : (Entries.names input).Nodup)
  (closed : Walk.Closed (.obj input))

include split distinct closed

theorem get?_container_titled (tool : Tool) {container : String}
    (mem : container ∈ Pointer.containers) :
    Entries.get? container (adapter.wrapperMembers tool hoisted rest)
      = Entries.get? container (adapter.titled tool input) := by
  have other : container ≠ "title" := by
    rcases List.mem_pair.mp mem with rfl | rfl <;> decide
  rw [split.get?_container tool distinct mem, rebaseMembers_of_closed closed, titled,
    Entries.get?_insert_of_ne other]

theorem sameDefinitions (tool : Tool) :
    SameDefinitions (.obj (adapter.titled tool input))
      (.obj (adapter.wrapperMembers tool hoisted rest)) where
  resolve := fun _ shared => Pointer.resolve?_of_isShared
    (fun _ mem => split.get?_container_titled distinct closed tool mem) shared
  closed := closed_titled closed

theorem sameBeside (tool : Tool) :
    Walk.SameBeside Pointer.containers (adapter.titled tool input) (adapter.titled tool rest) := by
  intro key absent
  by_cases title : key = "title"
  · subst title
    rw [titled, titled, Entries.get?_insert_self, Entries.get?_insert_self]
  · rw [split.get?_titled tool distinct absent title, rebaseMembers_of_closed closed, titled,
      Entries.get?_insert_of_ne title]

end Splits

/-! ## The shapes of the wrapper and its properties -/

theorem classify_wrapperMembers (split : adapter.Splits input hoisted rest) (tool : Tool) :
    classify (.obj (adapter.wrapperMembers tool hoisted rest))
      = .ok ⟨.object (adapter.wrapperMembers tool hoisted rest), false⟩ := by
  exact classify_object_congr
    (fun key mem => split.get?_own tool (Shape.not_mem_containers_of_mem_keys key mem)) rfl

theorem classify_discriminator (adapter : ToolAdapter) (tool : Tool) :
    classify (adapter.discriminator tool) = .ok ⟨.const (.str (adapter.toolName tool)), false⟩ := by
  unfold discriminator
  cases tool.description? <;> rfl

theorem description_discriminator (adapter : ToolAdapter) (tool : Tool) :
    Walk.textAt "description" (adapter.discriminator tool) = tool.description? := by
  unfold discriminator
  cases tool.description? <;> rfl

/-! ## The arguments in both documents -/

/-- The place of the arguments in the wrapper. -/
def argsSite (adapter : ToolAdapter) : Site := Walk.propertySite .root adapter.argsField

theorem isApart_propertySite (key : String) :
    Pointer.IsApart (Walk.propertySite .root key).path :=
  Pointer.isApart_properties (Pointer.escape key)

/-- A property of the arguments, by themselves and in the wrapper. -/
theorem propertySite_matches (adapter : ToolAdapter) (key : String) :
    (Walk.propertySite .root key).Matches (Walk.propertySite adapter.argsSite key) where
  hint := rfl
  notRoot := ⟨rfl, rfl⟩
  path := by
    refine Or.inr ⟨isApart_propertySite key, ?_⟩
    rw [Walk.propertySite, Site.path_child]
    exact (isApart_propertySite adapter.argsField).append _

/-- The title names the arguments in the wrapper as the name of the document names them alone. -/
theorem givenClassName?_titled (named : Identifier.pascal (adapter.argsClass tool) ≠ "")
    (rootName : String) :
    Walk.givenClassName? rootName (some (adapter.argsClass tool)) adapter.argsSite
      = Walk.givenClassName? (Identifier.pascal (adapter.argsClass tool))
          (some (adapter.argsClass tool)) .root := by
  have alone : Walk.givenClassName? (Identifier.pascal (adapter.argsClass tool))
      (some (adapter.argsClass tool)) .root
        = some (Walk.rootClassName (Identifier.pascal (adapter.argsClass tool))
            (some (adapter.argsClass tool))) :=
    if_pos (by simpa [Site.root] using named)
  have titled : Walk.titled? (some (adapter.argsClass tool))
      = some (Identifier.resolve .pascal (adapter.argsClass tool)) := if_neg named
  rw [alone, Walk.givenClassName?, titled]
  simp only [argsSite, Walk.propertySite, Site.child, Bool.false_and, Bool.false_eq_true, if_false,
    Walk.rootClassName, Identifier.resolve, Identifier.needsAlias, Option.filter, Identifier.pascal]
  rfl

theorem textAt_title (adapter : ToolAdapter) (tool : Tool) (members : Entries Json) :
    Walk.textAt "title" (.obj (adapter.titled tool members)) = some (adapter.argsClass tool) :=
  congrArg (·.bind Json.string?) (Entries.get?_insert_self ..)

/-- The arguments are walked in lockstep, as the document itself and as a property. -/
theorem agree_args (split : adapter.Splits input hoisted rest)
    (distinct : (Entries.names input).Nodup) (closed : Walk.Closed (.obj input))
    (named : Identifier.pascal (adapter.argsClass tool) ≠ "") {nullable : Bool}
    (shaped : classify (.obj (adapter.titled tool input))
      = .ok ⟨.object (adapter.titled tool input), nullable⟩) (rootName : String) (steps : Nat) :
    Walk.Agree
      (walk (.obj (adapter.titled tool input)) (Identifier.pascal (adapter.argsClass tool))
        (steps + 1) (.obj (adapter.titled tool input)) .root)
      (walk (.obj (adapter.wrapperMembers tool hoisted rest)) rootName (steps + 1)
        (.obj (adapter.titled tool rest)) adapter.argsSite) := by
  have same := split.sameBeside distinct closed tool
  have shaped' := classify_object_congr
    (fun key mem => same key (Shape.not_mem_containers_of_mem_keys key mem)) shaped
  show Walk.Agree (Walk.ofNode _ _ _ _ _) (Walk.ofNode _ _ _ _ _)
  unfold Walk.ofNode
  rw [shaped, shaped']
  refine .map (Walk.agree_ofObject same ?_ ?_ ?_) _
  · rw [textAt_title, textAt_title]
    exact givenClassName?_titled named rootName
  · exact Or.inr ⟨Pointer.not_isShared_root, (isApart_propertySite _).not_isShared⟩
  · intro property mem
    have found := get?_properties_of_mem_declared mem
    exact walk_agree (split.sameDefinitions distinct closed tool) _ rootName steps _ _ _
      ((closed_titled closed).within (within_of_property shaped found mem))
      (propertySite_matches adapter property.1)

/-! ## The wrapper itself -/

/-- The class of the wrapper of arguments of a given type. -/
def wrapperClass (adapter : ToolAdapter) (tool : Tool) (input : Entries Json) (args : DataType) :
    DataClass where
  name := Identifier.pascal (adapter.toolClass tool)
  fields := [
    { name := Identifier.camel adapter.nameField
      type := .of (.literalString (adapter.toolName tool))
      description? := tool.description?
      alias? := (Identifier.resolve .camel adapter.nameField).alias? },
    { name := Identifier.camel adapter.argsField
      type := args
      description? := Walk.textAt "description" (.obj input)
      alias? := (Identifier.resolve .camel adapter.argsField).alias? }]

/-- The wrapper's class gets its fields when both properties have been visited. -/
theorem ofObject_wrapper (split : adapter.Splits input hoisted rest)
    (usable : adapter.fault? = none) (rootName : String) (visit : Visit) :
    Walk.ofObject rootName visit (adapter.wrapperMembers tool hoisted rest) .root = (do
      let (name, slot) ← Walk.openClass rootName (adapter.wrapperMembers tool hoisted rest) .root
      let toolName ← visit (adapter.discriminator tool) (Walk.propertySite .root adapter.nameField)
      let args ← visit (.obj (adapter.titled tool rest)) adapter.argsSite
      let required := [adapter.nameField, adapter.argsField]
      Walk.closeClass (adapter.wrapperMembers tool hoisted rest) .root name slot
        [Walk.fieldFor required (adapter.nameField, adapter.discriminator tool) toolName,
          Walk.fieldFor required (adapter.argsField, .obj (adapter.titled tool rest)) args]) := by
  obtain ⟨named, otherNamed, differ⟩ := camel_ne_of_usable usable
  have required : Walk.requiredKeys (adapter.wrapperMembers tool hoisted rest)
      = [adapter.nameField, adapter.argsField] := by
    rw [Walk.requiredKeys, split.get?_own tool (by decide)]
    rfl
  have fields (owner : String) :
      Walk.objectFields visit owner (adapter.wrapperMembers tool hoisted rest) .root
        = Walk.fields visit owner [adapter.nameField, adapter.argsField] .root []
            (adapter.wrapperProperties tool rest) := by
    rw [Walk.objectFields, split.get?_properties tool, required]
  unfold Walk.ofObject
  simp only [fields, wrapperProperties, Walk.fields_pair _ _ _ _ named otherNamed differ,
    bind_assoc, pure_bind]
  rfl

theorem walk_discriminator (document : Json) (rootName : String) (steps : Nat) (site : Site)
    (p : Progress) : (walk document rootName (steps + 1) (adapter.discriminator tool) site).run p
      = .ok (.of (.literalString (adapter.toolName tool)), p) := by
  show (Walk.ofNode document rootName (walk document rootName steps) _ site).run p = _
  unfold Walk.ofNode
  rw [classify_discriminator]
  rfl

theorem classOf_wrapper (split : adapter.Splits input hoisted rest)
    (distinct : (Entries.names input).Nodup) (closed : Walk.Closed (.obj input))
    (args : DataType) :
    Walk.classOf (adapter.wrapperMembers tool hoisted rest)
        ⟨Identifier.pascal (adapter.toolClass tool), none⟩
        [Walk.fieldFor [adapter.nameField, adapter.argsField]
            (adapter.nameField, adapter.discriminator tool)
            (.of (.literalString (adapter.toolName tool))),
          Walk.fieldFor [adapter.nameField, adapter.argsField]
            (adapter.argsField, .obj (adapter.titled tool rest)) args]
      = adapter.wrapperClass tool input args := by
  have plain : Walk.textAt "description" (.obj (adapter.wrapperMembers tool hoisted rest)) = none :=
    congrArg (·.bind Json.string?) (split.get?_own tool (by decide))
  have told : Walk.textAt "description" (.obj (adapter.titled tool rest))
      = Walk.textAt "description" (.obj input) := by
    have found : Entries.get? "description" (adapter.titled tool rest) = _ :=
      split.get?_titled tool distinct (by decide) (by decide)
    rw [rebaseMembers_of_closed closed] at found
    exact congrArg (·.bind Json.string?) found
  simp only [Walk.classOf, plain, Walk.fieldFor, Walk.fieldOf, description_discriminator, told,
    List.contains_cons, BEq.rfl, Bool.true_or, Bool.or_true, Bool.not_true,
    DataType.withOptional_false]
  rfl

/-- The walk of the wrapper is the walk of its arguments, put into the wrapper's class. -/
theorem walk_wrapper (split : adapter.Splits input hoisted rest) (usable : adapter.fault? = none)
    (distinct : (Entries.names input).Nodup) (closed : Walk.Closed (.obj input))
    (named : Identifier.pascal (adapter.toolClass tool) ≠ "") (document : Json) (steps : Nat)
    (p : Progress) :
    (walk document (Identifier.pascal (adapter.toolClass tool)) (steps + 2)
        (.obj (adapter.wrapperMembers tool hoisted rest)) .root).run p = (do
      let (args, q) ← (walk document (Identifier.pascal (adapter.toolClass tool)) (steps + 1)
        (.obj (adapter.titled tool rest)) adapter.argsSite).run
          (p.startBuilding Pointer.root (Identifier.pascal (adapter.toolClass tool)))
      return (.classRef (Identifier.pascal (adapter.toolClass tool)),
        q.closed Pointer.root p.models.length (adapter.wrapperClass tool input args))) := by
  have untitled : Walk.textAt "title" (.obj (adapter.wrapperMembers tool hoisted rest)) = none :=
    congrArg (·.bind Json.string?) (split.get?_own tool (by decide))
  have given : Walk.givenClassName? (Identifier.pascal (adapter.toolClass tool))
      (Walk.textAt "title" (.obj (adapter.wrapperMembers tool hoisted rest))) .root
        = some ⟨Identifier.pascal (adapter.toolClass tool), none⟩ := by
    rw [untitled]
    exact if_pos (by simpa [Site.root] using named)
  have strict : Walk.allowsMore (adapter.wrapperMembers tool hoisted rest) = false := by
    rw [Walk.allowsMore, split.get?_own tool (by decide)]
    rfl
  have name : p.className (Identifier.pascal (adapter.toolClass tool))
      (adapter.wrapperMembers tool hoisted rest) .root
        = ⟨Identifier.pascal (adapter.toolClass tool), none⟩ := by
    rw [Progress.className, given]
    rfl
  have opened : p.opened (Identifier.pascal (adapter.toolClass tool))
      (adapter.wrapperMembers tool hoisted rest) .root
        = p.startBuilding Pointer.root (Identifier.pascal (adapter.toolClass tool)) := by
    unfold Progress.opened
    rw [name, given, strict]
    rfl
  show (Walk.ofNode document _ (walk document _ (steps + 1)) _ .root).run p = _
  unfold Walk.ofNode
  rw [classify_wrapperMembers split]
  simp only [Walk.ofShape, ofObject_wrapper split usable, DataType.withOptional_false, bind_pure,
    StateT.run_bind, Walk.run_openClass, name, opened]
  simp only [bind, Except.bind, walk_discriminator, Walk.run_closeClass,
    classOf_wrapper split distinct closed]
  rfl

/-! ## Both conversions -/

/-- The arguments of a tool by themselves: a document that is named by the title it gets. -/
def convertArguments (adapter : ToolAdapter) (tool : Tool) (input : Entries Json) :
    Except SchemaError Conversion :=
  convert (.obj (adapter.titled tool input)) (adapter.argsClass tool)

/-- How far the arguments by themselves are when their definitions have been walked. -/
def afterDefinitions (adapter : ToolAdapter) (tool : Tool) (input : Entries Json) :
    Except SchemaError (Unit × Progress) :=
  let document := Json.obj (adapter.titled tool input)
  (walkDefinitions
    (walk document (Identifier.pascal (adapter.argsClass tool)) (walkBound document))
    (Pointer.definitions document)).run .initial

/-- A conversion of a tool beside that of its arguments. -/
structure AddsWrapper (adapter : ToolAdapter) (tool : Tool) (input : Entries Json)
    (direct wrapped : Conversion) : Prop where
  models : ∃ p after, adapter.afterDefinitions tool input = .ok ((), p) ∧
    direct.models = p.models ++ after ∧
    wrapped.models = p.models ++ .ofClass (adapter.wrapperClass tool input direct.root) :: after
  root : wrapped.root = .classRef (Identifier.pascal (adapter.toolClass tool))

section Both

variable (split : adapter.Splits input hoisted rest) (usable : adapter.fault? = none)
  (distinct : (Entries.names input).Nodup) (closed : Walk.Closed (.obj input))
  (toolNamed : Identifier.pascal (adapter.toolClass tool) ≠ "")
  (argsNamed : Identifier.pascal (adapter.argsClass tool) ≠ "") {nullable : Bool}
  (shaped : classify (.obj (adapter.titled tool input))
    = .ok ⟨.object (adapter.titled tool input), nullable⟩)

include split distinct closed

/-- The definitions are the same in both documents and are walked in lockstep. -/
theorem definitions_lockstep (tool : Tool) (rootName rootName' : String) (steps : Nat) :
    Lockstep
      ((walkDefinitions (walk (.obj (adapter.titled tool input)) rootName steps)
        (Pointer.definitions (.obj (adapter.titled tool input)))).run .initial)
      ((walkDefinitions (walk (.obj (adapter.wrapperMembers tool hoisted rest)) rootName' steps)
        (Pointer.definitions (.obj (adapter.wrapperMembers tool hoisted rest)))).run .initial) := by
  have same := split.sameDefinitions distinct closed tool
  rw [Pointer.definitions_congr fun _ mem => split.get?_container_titled distinct closed tool mem]
  exact walkDefinitions_agree (walk_agree same rootName rootName' steps)
    (fun definition mem => same.closed.within (Pointer.definitions_within mem))
    .initial .initial (.refl List.nodup_nil)

include usable toolNamed argsNamed shaped

/-- From the definitions on, both walks fail, or that of the wrapper puts its class in front of the
models of the arguments. -/
theorem roots_lockstep {p p' : Progress} (matched : p.Matches p') (steps : Nat) :
    (∃ e e', (walk (.obj (adapter.titled tool input)) (Identifier.pascal (adapter.argsClass tool))
          (steps + 1) (.obj (adapter.titled tool input)) .root).run p = .error e ∧
        (walk (.obj (adapter.wrapperMembers tool hoisted rest))
          (Identifier.pascal (adapter.toolClass tool)) (steps + 2)
          (.obj (adapter.wrapperMembers tool hoisted rest)) .root).run p' = .error e') ∨
      ∃ args q q' after,
        (walk (.obj (adapter.titled tool input)) (Identifier.pascal (adapter.argsClass tool))
          (steps + 1) (.obj (adapter.titled tool input)) .root).run p = .ok (args, q) ∧
        (walk (.obj (adapter.wrapperMembers tool hoisted rest))
          (Identifier.pascal (adapter.toolClass tool)) (steps + 2)
          (.obj (adapter.wrapperMembers tool hoisted rest)) .root).run p'
            = .ok (.classRef (Identifier.pascal (adapter.toolClass tool)), q') ∧
        q.models = p.models ++ after ∧
        q'.models = p.models ++ .ofClass (adapter.wrapperClass tool input args) :: after := by
  -- The wrapper opens its class first, under a path that no reference asks for.
  have inner := agree_args split distinct closed argsNamed shaped
    (Identifier.pascal (adapter.toolClass tool)) steps p _
    (matched.startBuilding_right Pointer.not_isShared_root
      (Identifier.pascal (adapter.toolClass tool)))
  rw [walk_wrapper split usable distinct closed toolNamed]
  generalize made : (walk (.obj (adapter.titled tool input)) _ _ _ _).run p = direct at inner ⊢
  generalize (walk (.obj (adapter.wrapperMembers tool hoisted rest)) _ _ _ _).run _ = wrapped
    at inner ⊢
  cases inner with
  | failed => exact Or.inl ⟨_, _, rfl, rfl⟩
  | @done args q q' matched' =>
      have walked : Walked (.obj (adapter.titled tool input)) _ _ _ p args q := ⟨steps + 1, made⟩
      obtain ⟨after, models⟩ := walked.models_prefix
      refine Or.inr ⟨args, q, _, after, rfl, rfl, models.symm, ?_⟩
      rw [Progress.models_closed, matched'.models, ← models, matched.models,
        insertIdx_length_append]

/-- The two conversions fail together, or the one adds the class of the wrapper to the other. -/
theorem convert_wrapper_cases :
    (∃ e e', adapter.convertArguments tool input = .error e ∧
        convert (.obj (adapter.wrapperMembers tool hoisted rest)) (adapter.toolClass tool)
          = .error e') ∨
      ∃ d c, adapter.convertArguments tool input = .ok d ∧
        convert (.obj (adapter.wrapperMembers tool hoisted rest)) (adapter.toolClass tool) = .ok c ∧
        adapter.AddsWrapper tool input d c := by
  -- One number of steps is enough for both documents.
  obtain ⟨steps, enough, enough'⟩ : ∃ steps,
      walkBound (.obj (adapter.titled tool input)) ≤ steps ∧
        walkBound (.obj (adapter.wrapperMembers tool hoisted rest)) ≤ steps :=
    ⟨max _ _, le_max_left _ _, le_max_right _ _⟩
  have bounded : walkDefinitions (walk (.obj (adapter.titled tool input))
      (Identifier.pascal (adapter.argsClass tool)) steps) _ = _ :=
    walkDefinitions_congr fun definition mem site =>
      walk_steps (Identifier.pascal (adapter.argsClass tool)) site
        (Pointer.definitions_within mem) enough
  have definitions := definitions_lockstep split distinct closed tool
    (Identifier.pascal (adapter.argsClass tool)) (Identifier.pascal (adapter.toolClass tool)) steps
  rw [convertArguments, convert_eq _ _ enough (Nat.le_succ_of_le enough),
    convert_eq (.obj (adapter.wrapperMembers tool hoisted rest)) _ enough'
      (Nat.le_succ_of_le (Nat.le_succ_of_le enough'))]
  generalize first : (walkDefinitions (walk (.obj (adapter.titled tool input)) _ _) _).run _
    = direct at definitions ⊢
  generalize (walkDefinitions (walk (.obj (adapter.wrapperMembers tool hoisted rest)) _ _) _).run _
    = wrapped at definitions ⊢
  cases definitions with
  | failed => exact Or.inl ⟨_, _, rfl, rfl⟩
  | @done _ p p' matched =>
      rw [bounded] at first
      rcases roots_lockstep split usable distinct closed toolNamed argsNamed shaped matched
        steps with ⟨e, e', failed, failed'⟩ | ⟨args, q, q', after, made, made', models, models'⟩
      · refine Or.inl ⟨e, e', ?_, ?_⟩
        · simp only [bind, Except.bind, failed]
        · simp only [bind, Except.bind, failed']
      · refine Or.inr ⟨⟨q.models, args, q.warnings⟩, ⟨q'.models, _, q'.warnings⟩, ?_, ?_,
          ⟨p, after, first, models, models'⟩, rfl⟩
        · simp only [bind, Except.bind, made]
          rfl
        · simp only [bind, Except.bind, made']
          rfl

end Both

/-- **Wrapping a tool does not change the models of its arguments.** Where the arguments are an
object whose references all lead into definitions, a tool is converted if and only if its arguments
are by themselves, and its models are theirs with the class of the wrapper behind those of the
definitions; the wrapper's field of the arguments has the type that they have by themselves. -/
theorem convertTool_addsWrapper (usable : adapter.fault? = none)
    (given : tool.inputSchema? = some (.obj input)) (distinct : (Entries.names input).Nodup)
    (closed : ∀ reference ∈ (Json.obj input).references, Pointer.IsShared reference)
    (toolNamed : Identifier.pascal (adapter.toolClass tool) ≠ "")
    (argsNamed : Identifier.pascal (adapter.argsClass tool) ≠ "") {nullable : Bool}
    (shaped : classify (.obj (adapter.titled tool input))
      = .ok ⟨.object (adapter.titled tool input), nullable⟩) :
    ((∃ c, adapter.convertTool tool = .ok c) ↔
        ∃ d, adapter.convertArguments tool input = .ok d) ∧
      ∀ c d, adapter.convertTool tool = .ok c → adapter.convertArguments tool input = .ok d →
        adapter.AddsWrapper tool input d c := by
  obtain ⟨hoisted, rest, split, made⟩ := wrapper_eq_ok usable given distinct
  have converted : adapter.convertTool tool
      = convert (.obj (adapter.wrapperMembers tool hoisted rest)) (adapter.toolClass tool) := by
    unfold convertTool
    rw [made]
    rfl
  rw [converted]
  rcases convert_wrapper_cases split usable distinct closed toolNamed argsNamed shaped with
    ⟨e, e', failed, failed'⟩ | ⟨d, c, direct, wrapped, adds⟩
  · simp [failed, failed']
  · rw [direct, wrapped]
    refine ⟨⟨fun _ => ⟨d, rfl⟩, fun _ => ⟨c, rfl⟩⟩, ?_⟩
    intro c' d' same same'
    cases same
    cases same'
    exact adds

/-- Arguments with definitions that name each other, and with members whose order changes when they
are wrapped. -/
def threadArguments : Entries Json :=
  [("description", .str "A thread"),
    ("$defs", .obj [("Post", .obj [("properties", .obj [
      ("text", .obj [("type", .str "string")]),
      ("replies", .obj [("type", .str "array"),
        ("items", .obj [("$ref", .str "#/$defs/Post")])])])])]),
    ("type", .str "object"),
    ("properties", .obj [
      ("first", .obj [("$ref", .str "#/$defs/Post")]),
      ("state", .obj [("enum", .arr [.str "open", .str "closed"])])]),
    ("required", .arr [.str "first"])]

/-- A tool with such arguments. -/
def threadTool : Tool := { name := "thread", inputSchema? := some (.obj threadArguments) }

theorem convertTool_addsWrapper_thread : ∃ c d,
    ({} : ToolAdapter).convertTool threadTool = .ok c ∧
      ({} : ToolAdapter).convertArguments threadTool threadArguments = .ok d ∧
      d.models.length = 4 ∧ ({} : ToolAdapter).AddsWrapper threadTool threadArguments d c := by
  have closed : ∀ reference ∈ (Json.obj threadArguments).references,
      Pointer.IsShared reference := by
    intro reference mem
    have all : ∀ r ∈ (Json.obj threadArguments).references, r = "#/$defs/Post" := by
      decide +kernel
    exact ⟨"$defs", List.mem_cons_self, "Post", all reference mem⟩
  have direct : (({} : ToolAdapter).convertArguments threadTool threadArguments).toOption.map
      (·.models.length) = some 4 := by decide +kernel
  obtain ⟨d, made, four⟩ := exists_of_toOption direct
  have usable : ({} : ToolAdapter).fault? = none := by decide +kernel
  have toolNamed : Identifier.pascal (({} : ToolAdapter).toolClass threadTool) ≠ "" := by
    decide +kernel
  have argsNamed : Identifier.pascal (({} : ToolAdapter).argsClass threadTool) ≠ "" := by
    decide +kernel
  have wraps := convertTool_addsWrapper usable (rfl : threadTool.inputSchema? = _) (by decide)
    closed toolNamed argsNamed rfl
  obtain ⟨c, made'⟩ := wraps.1.mpr ⟨d, made⟩
  exact ⟨c, d, made', made, four, wraps.2 c d made' made⟩

end ToolAdapter

end SchemaLoom
