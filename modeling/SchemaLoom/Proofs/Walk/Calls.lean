import SchemaLoom.Proofs.Walk.Keeps
import SchemaLoom.Proofs.Walk.Parts

set_option autoImplicit false

/-! # The calls of a conversion

`calls` lists every visit of a conversion together with the visits it is made from, the innermost
first, so an entry is what a stack of calls holds at some moment. Like the list of expansions it is
read off the descents that the walk takes.

A conversion is made of calls that hand on to other calls (`Call.Makes`), and what every call hands
on to the calls it makes holds of all of them (`calls_forall`). This is the induction to use for
what is true *while* a conversion is under way; for what is true when it is done there is
`Walked.induct`.
-/

namespace SchemaLoom

/-- A visit of a node: how many steps it may nest, the node and its site, and the progress with
which it begins. -/
structure Call where
  steps : Nat
  schema : Json
  site : Site
  start : Progress

namespace Call

variable (document : Json) (rootName : String) (call : Call)

/-- What the call does. -/
def run : Except SchemaError (DataType × Progress) :=
  (walk document rootName call.steps call.schema call.site).run call.start

/-- The type that the call gives when it is done. -/
def type? : Option DataType :=
  match call.run document rootName with
  | .ok (type, _) => some type
  | .error _ => none

/-- The descent that the call takes. -/
def descent : Descent := SchemaLoom.descent document rootName call.schema call.site call.start

/-- The call makes another one for a part of its node, when the parts before are done. -/
def Makes (part : Call) : Prop :=
  call.steps = part.steps + 1 ∧ ∃ before after types,
    (call.descent document rootName).parts = before ++ (part.schema, part.site) :: after ∧
      Chain (Walked document rootName) before (call.descent document rootName).start types
        part.start

end Call

/-- The calls of a walk that itself is made from some. -/
def callsOf (document : Json) (rootName : String) :
    Nat → List Call → Json → Site → Progress → List (List Call)
  | 0, _, _, _, _ => []
  | steps + 1, outer, schema, site, p =>
      let stack := ⟨steps + 1, schema, site, p⟩ :: outer
      let d := descent document rootName schema site p
      stack :: Walk.along (callsOf document rootName steps stack) (walk document rootName steps)
        d.parts d.start

/-- The calls for definitions walked one after the other. -/
def callsOfDefinitions (document : Json) (rootName : String) (steps : Nat) :
    List (String × Json) → Progress → List (List Call)
  | [], _ => []
  | (path, schema) :: rest, p =>
      callsOf document rootName steps [] schema (.ofReference path) (p.startResolving path) ++
        match (walk document rootName steps schema (.ofReference path)).run
            (p.startResolving path) with
        | .ok (_, q) => callsOfDefinitions document rootName steps rest (q.stopResolving path)
        | .error _ => []

/-- The calls of a conversion. -/
def calls (document : Json) (rootName : String) : List (List Call) :=
  let root := Identifier.pascal rootName
  let steps := walkBound document
  let definitions := Pointer.definitions document
  callsOfDefinitions document root steps definitions .initial ++
    match (walkDefinitions (walk document root steps) definitions).run .initial with
    | .ok (_, p) => callsOf document root steps [] document .root p
    | .error _ => []

/-! ## Calls that succeed -/

theorem Call.run_of_type? {document : Json} {rootName : String} {call : Call} {type : DataType}
    (h : call.type? document rootName = some type) :
    ∃ q, (walk document rootName call.steps call.schema call.site).run call.start
      = .ok (type, q) := by
  unfold Call.type? at h
  split at h
  · next given q ran =>
      cases h
      exact ⟨q, ran⟩
  · cases h

theorem Call.walked {document : Json} {rootName : String} {call : Call} {type : DataType}
    (h : call.type? document rootName = some type) :
    ∃ q, Walked document rootName call.schema call.site call.start type q := by
  obtain ⟨q, ran⟩ := run_of_type? h
  exact ⟨q, call.steps, ran⟩

theorem Call.type?_eq {document : Json} {rootName : String} {steps : Nat} {schema : Json}
    {site : Site} {p q : Progress} {type : DataType}
    (h : (walk document rootName steps schema site).run p = .ok (type, q)) :
    Call.type? document rootName ⟨steps, schema, site, p⟩ = some type := by
  unfold Call.type? Call.run
  simp only [h]

/-! ## The parts of a node -/

/-- Some of the parts have been visited, one after the other. -/
def Visited (document : Json) (rootName : String) (parts : List (Json × Site)) (p q : Progress) :
    Prop :=
  ∃ before types, before ⊆ parts ∧ Chain (Walked document rootName) before p types q

theorem Visited.keeps {document : Json} {rootName : String} {parts : List (Json × Site)}
    {p q : Progress} (h : Visited document rootName parts p q) : p.Keeps q := by
  obtain ⟨before, types, -, chain⟩ := h
  exact .of_chain chain fun part => part.keeps

/-- What a call is made for, by the kind of the node that makes it, and where it begins. -/
inductive Call.Hands (document : Json) (rootName : String) (call : Call) :
    Json → Site → Progress → Prop where
  | target {reference : String} {target : Json} {nullable : Bool}
      (shaped : classify call.schema = .ok ⟨.ref reference, nullable⟩)
      (resolved : Pointer.resolve? document reference = some target)
      (building : Entries.get? reference call.start.building = none)
      (resolving : reference ∉ call.start.resolving) :
      Hands document rootName call target (.ofReference reference)
        (call.start.startResolving reference)
  | single {member : Json} {nullable : Bool}
      (shaped : classify call.schema = .ok ⟨.single member, nullable⟩) :
      Hands document rootName call member call.site call.start
  | member {keyword : UnionKeyword} {alternatives : List Json} {nullable : Bool}
      {part : Json × Site} {q : Progress}
      (shaped : classify call.schema = .ok ⟨.union keyword alternatives, nullable⟩)
      (mem : part ∈ Walk.memberParts keyword call.site 0 alternatives)
      (before : Visited document rootName (Walk.memberParts keyword call.site 0 alternatives)
        call.start q) : Hands document rootName call part.1 part.2 q
  | property {object properties : Entries Json} {nullable : Bool} {property : String × Json}
      {q : Progress} (shaped : classify call.schema = .ok ⟨.object object, nullable⟩)
      (found : Entries.get? "properties" object = some (.obj properties))
      (mem : property ∈ properties)
      (before : Visited document rootName (properties.map (Walk.fieldPart call.site))
        (call.start.opened rootName object call.site) q) :
      Hands document rootName call property.2 (Walk.propertySite call.site property.1) q
  | items {item : Json} {nullable : Bool}
      (shaped : classify call.schema = .ok ⟨.array (some item), nullable⟩) :
      Hands document rootName call item (call.site.child "items" call.site.hint) call.start

/-- The properties before the first one without a field are some of the object. -/
theorem Walk.objectSplit_subset {owner : String} {object : Entries Json} {site : Site}
    {property : String × Json} (h : property ∈ (objectSplit owner object site).1) :
    ∃ properties, Entries.get? "properties" object = some (.obj properties) ∧
      (objectSplit owner object site).1 ⊆ properties := by
  have some := (objectSplit_sublist owner object site).subset
  exact ⟨declared object, get?_properties_of_mem_declared (some h), some⟩

namespace Call.Makes

variable {document : Json} {rootName : String} {call part : Call}

/-- The only part of a node is visited at once. -/
theorem of_single {only other : Json × Site} {before after : List (Json × Site)} {p q : Progress}
    {types : List DataType} (split : [only] = before ++ other :: after)
    (chain : Chain (Walked document rootName) before p types q) : other = only ∧ q = p := by
  cases before with
  | nil =>
      cases chain
      cases split
      exact ⟨rfl, rfl⟩
  | cons first rest => cases rest <;> cases split

/-- **A call is made for a part of the node that makes it.** -/
theorem hands (h : call.Makes document rootName part) :
    call.Hands document rootName part.schema part.site part.start := by
  obtain ⟨-, before, after, types, split, chain⟩ := h
  have visited : Visited document rootName (call.descent document rootName).parts
      (call.descent document rootName).start part.start := by
    refine ⟨before, types, ?_, chain⟩
    rw [split]
    exact List.subset_append_left ..
  have none (leaf : (call.descent document rootName).parts = []) : False := by
    rw [leaf] at split
    exact List.append_ne_nil_of_right_ne_nil _ (List.cons_ne_nil _ _) split.symm
  have mem : (part.schema, part.site) ∈ (call.descent document rootName).parts := by
    rw [split]
    exact List.mem_append_right _ List.mem_cons_self
  unfold Call.descent at split chain visited none mem
  cases shaped : classify call.schema with
  | error fault =>
      rw [descent_of_fault shaped] at none
      exact (none rfl).elim
  | ok classified =>
      obtain ⟨shape, nullable⟩ := classified
      rw [descent_of_shape shaped] at split chain visited none mem
      -- A node with one part visits it from where it is.
      have single (only : Json) (site : Site) (finish : DataType → Walk DataType)
          (same : Descent.ofShape document rootName call.schema call.site call.start shape
            = .through call.start only site finish) :
          part.schema = only ∧ part.site = site ∧ part.start = call.start := by
        rw [same] at split chain
        obtain ⟨there, start⟩ := of_single split chain
        exact ⟨congrArg Prod.fst there, congrArg Prod.snd there, start⟩
      cases shape with
      | ref reference =>
          have answer := Descent.ofReference_case document reference call.site call.start
          simp only [Descent.withOptional, Descent.ofShape] at split chain none
          generalize Descent.ofReference document reference call.site call.start = d
            at split chain none answer
          cases answer with
          | known | unresolved | forward | refused => exact (none rfl).elim
          | expand _ resolved building resolving =>
              obtain ⟨there, start⟩ := of_single split chain
              have schema : part.schema = _ := congrArg Prod.fst there
              have site : part.site = .ofReference reference := congrArg Prod.snd there
              have start : part.start = call.start.startResolving reference := start
              rw [schema, site, start]
              exact .target shaped resolved building resolving
      | single member =>
          obtain ⟨schema, site, start⟩ := single member call.site pure rfl
          rw [schema, site, start]
          exact .single shaped
      | union keyword alternatives => exact .member shaped mem visited
      | object object =>
          obtain ⟨property, own, same⟩ := List.mem_map.mp mem
          obtain ⟨properties, found, le⟩ := Walk.objectSplit_subset own
          have schema : part.schema = property.2 := (congrArg Prod.fst same).symm
          have site : part.site = Walk.propertySite call.site property.1 :=
            (congrArg Prod.snd same).symm
          rw [schema, site]
          obtain ⟨before, types, some, chain⟩ := visited
          exact .property shaped found (le own)
            ⟨before, types, List.Subset.trans some (List.map_subset _ le), chain⟩
      | array items? =>
          cases items? with
          | none => exact (none rfl).elim
          | some item =>
              obtain ⟨schema, site, start⟩ := single item (call.site.child "items" call.site.hint)
                (fun item => return .listOf item) rfl
              rw [schema, site, start]
              exact .items shaped
      | _ => exact (none rfl).elim

end Call.Makes

/-! ## Lists along parts -/

/-- An entry of two lists one after the other is one of the first, or it is one of the second and the
first stands before it. -/
theorem cases_of_append_eq {α : Type} {first second earlier later : List α} {a : α}
    (h : first ++ second = earlier ++ a :: later) :
    (∃ own, first = earlier ++ a :: own) ∨
      ∃ passed, earlier = first ++ passed ∧ second = passed ++ a :: later := by
  rcases List.append_eq_append_iff.mp h with ⟨passed, same, cut⟩ | ⟨own, same, cut⟩
  · exact Or.inr ⟨passed, same, cut⟩
  · cases own with
    | nil =>
        rw [List.append_nil] at same
        exact Or.inr ⟨[], by rw [same, List.append_nil], cut.symm⟩
    | cons b own =>
        cases cut
        exact Or.inl ⟨own, same⟩

/-- What is listed along visits comes from one of the parts, and what is listed before it from the
parts before that one and from the part itself. -/
theorem Walk.along_eq_append {α : Type} {list : Json → Site → Progress → List α} {visit : Visit}
    {parts : List (Json × Site)} {p : Progress} {earlier later : List α} {a : α}
    (split : along list visit parts p = earlier ++ a :: later) :
    ∃ before part after types q own rest, parts = before ++ part :: after ∧
      Chain (WalkStep.OfVisit visit) before p types q ∧
      list part.1 part.2 q = own ++ a :: rest ∧ earlier = along list visit before p ++ own := by
  induction parts generalizing p earlier with
  | nil => simp [along] at split
  | cons part rest ih =>
      obtain ⟨schema, site⟩ := part
      unfold along at split
      rcases cases_of_append_eq split with ⟨own, here⟩ | ⟨passed, same, tail⟩
      · exact ⟨[], (schema, site), rest, [], p, earlier, own, rfl, .nil, here, rfl⟩
      · cases made : (visit schema site).run p with
        | error e => simp [made] at tail
        | ok out =>
            obtain ⟨type, r⟩ := out
            simp only [made] at tail
            obtain ⟨before, part, after, types, q, own, more, rfl, chain, listed, rfl⟩ := ih tail
            refine ⟨(schema, site) :: before, part, after, type :: types, q, own, more, rfl,
              .cons made chain, listed, ?_⟩
            simp only [along, made, same, List.append_assoc]

/-! ## What calls hand on -/

section HandOn

variable {document : Json} {rootName : String} {motive : Call → List Call → Prop}

/-- What holds of every list of a part, whatever was visited before it and is visited after it,
holds along the parts. -/
theorem Chain.along {visit : Visit} {list : Json → Site → Progress → List (List Call)}
    {parts : List (Json × Site)} {p q : Progress} {types : List DataType}
    (chain : Chain (WalkStep.OfVisit visit) parts p types q)
    (visits : ∀ {schema site p type q}, WalkStep.OfVisit visit schema site p type q →
      Walked document rootName schema site p type q)
    (here : ∀ before part after given r, parts = before ++ part :: after →
      Chain (Walked document rootName) before p given r →
        (∃ type s more, WalkStep.OfVisit visit part.1 part.2 r type s ∧
          Chain (Walked document rootName) after s more q) →
          ∀ {call outer}, call :: outer ∈ list part.1 part.2 r → motive call outer) :
    ∀ {call outer}, call :: outer ∈ Walk.along list visit parts p → motive call outer := by
  induction chain with
  | nil =>
      intro call outer mem
      cases mem
  | @cons schema site rest p q r type types head tail ih =>
      intro call outer mem
      have ran : (visit schema site).run p = .ok (type, q) := head
      simp only [Walk.along, ran] at mem
      rcases List.mem_append.mp mem with own | later
      · exact here [] (schema, site) rest [] p rfl .nil ⟨type, q, types, head, tail.imp visits⟩
          own
      · refine ih ?_ later
        intro before part after given s split prior
        rw [split] at here
        exact here ((schema, site) :: before) part after (type :: given) s rfl
          (.cons (visits head) prior)

theorem callsOf_succ {steps : Nat} {inside : List Call} {schema : Json} {site : Site}
    {p : Progress} : callsOf document rootName (steps + 1) inside schema site p
      = (⟨steps + 1, schema, site, p⟩ :: inside) ::
          Walk.along (callsOf document rootName steps (⟨steps + 1, schema, site, p⟩ :: inside))
            (walk document rootName steps)
            (Call.descent document rootName ⟨steps + 1, schema, site, p⟩).parts
            (Call.descent document rootName ⟨steps + 1, schema, site, p⟩).start := rfl

/-- What calls hand on to the calls they make holds of all calls of a walk, even if it fails. -/
theorem callsOf_made
    (step : ∀ {call outer part}, motive call outer → call.Makes document rootName part →
      part.steps ≠ 0 → motive part (call :: outer))
    {steps : Nat} {inside : List Call} {schema : Json} {site : Site} {p : Progress}
    (own : steps ≠ 0 → motive ⟨steps, schema, site, p⟩ inside) :
    ∀ {call outer}, call :: outer ∈ callsOf document rootName steps inside schema site p →
      motive call outer := by
  induction steps generalizing inside schema site p with
  | zero =>
      intro call outer mem
      cases mem
  | succ steps ih =>
      intro call outer mem
      have here : motive ⟨steps + 1, schema, site, p⟩ inside := own (Nat.succ_ne_zero steps)
      rw [callsOf_succ] at mem
      rcases List.mem_cons.mp mem with same | mem
      · cases same
        exact here
      · obtain ⟨earlier, later, split⟩ := List.append_of_mem mem
        obtain ⟨before, part, after, types, q, passed, rest, parts, chain, listed, -⟩ :=
          Walk.along_eq_append split
        have makes : Call.Makes document rootName ⟨steps + 1, schema, site, p⟩
            ⟨steps, part.1, part.2, q⟩ :=
          ⟨rfl, before, after, types, parts, chain.imp fun visited => ⟨steps, visited⟩⟩
        refine ih (fun more => step here makes more) ?_
        rw [listed]
        exact List.mem_append_right _ List.mem_cons_self

/-- What calls hand on to the calls they make holds of all calls of a walk that succeeds. -/
theorem callsOf_forall
    (step : ∀ {call outer part}, motive call outer → call.Makes document rootName part →
      (∃ type, part.type? document rootName = some type) → motive part (call :: outer))
    {steps : Nat} {inside : List Call} {schema : Json} {site : Site} {p q : Progress}
    {type : DataType} (h : (walk document rootName steps schema site).run p = .ok (type, q))
    (own : motive ⟨steps, schema, site, p⟩ inside) :
    ∀ {call outer}, call :: outer ∈ callsOf document rootName steps inside schema site p →
      motive call outer := by
  induction steps generalizing inside schema site p type q with
  | zero => cases h
  | succ steps ih =>
      intro call outer mem
      rcases List.mem_cons.mp mem with same | mem
      · cases same
        exact own
      · rw [walk_succ_run] at h
        obtain ⟨types, r, chain, -⟩ := Descent.run_eq_ok.mp h
        refine chain.along (fun visited => ⟨steps, visited⟩) ?_ mem
        intro before part after given s split prior ⟨t, u, _, ran, _⟩
        -- The induction is on the steps, so the part's own calls are handed on from the part.
        have next : motive ⟨steps, part.1, part.2, s⟩ (⟨steps + 1, schema, site, p⟩ :: inside) :=
          step own ⟨rfl, before, after, given, split, prior⟩ ⟨t, Call.type?_eq ran⟩
        intro inner within listed
        exact ih ran next listed

/-! ## Whole conversions -/

theorem callsOfDefinitions_forall
    (step : ∀ {call outer part}, motive call outer → call.Makes document rootName part →
      (∃ type, part.type? document rootName = some type) → motive part (call :: outer))
    {steps : Nat} {definitions : List (String × Json)} {p q : Progress} {u : Unit}
    (h : (walkDefinitions (walk document rootName steps) definitions).run p = .ok (u, q))
    (own : ∀ before path schema after r type, definitions = before ++ (path, schema) :: after →
      DefinitionsWalked document rootName before p r →
        Call.type? document rootName ⟨steps, schema, .ofReference path, r.startResolving path⟩
            = some type →
          motive ⟨steps, schema, .ofReference path, r.startResolving path⟩ []) :
    ∀ {call outer}, call :: outer ∈ callsOfDefinitions document rootName steps definitions p →
      motive call outer := by
  induction definitions generalizing p with
  | nil =>
      intro call outer mem
      cases mem
  | cons definition rest ih =>
      obtain ⟨path, schema⟩ := definition
      obtain ⟨type, r, head, h⟩ := walkDefinitions_cons h
      intro call outer mem
      simp only [callsOfDefinitions, head] at mem
      rcases List.mem_append.mp mem with first | later
      · exact callsOf_forall step head
          (own [] path schema rest p type rfl .nil (Call.type?_eq head)) first
      · refine ih h ?_ later
        intro before key inner after s given split prior
        refine own ((path, schema) :: before) key inner after s given ?_ ?_
        · rw [split, List.cons_append]
        · exact .cons ⟨steps, head⟩ prior

/-- **What calls hand on to the calls they make holds of all calls of a conversion**, if it holds of
the calls for the definitions and for the document itself. -/
theorem calls_forall {c : Conversion} (h : convert document rootName = .ok c)
    (step : ∀ {call outer part}, motive call outer →
      call.Makes document (Identifier.pascal rootName) part →
        (∃ type, part.type? document (Identifier.pascal rootName) = some type) →
          motive part (call :: outer))
    (definition : ∀ {call : Call} {before : List (String × Json)} {path : String} {p : Progress}
        {type : DataType},
      before ++ [(path, call.schema)] <+: Pointer.definitions document →
        DefinitionsWalked document (Identifier.pascal rootName) before .initial p →
          call.site = .ofReference path → call.start = p.startResolving path →
            call.type? document (Identifier.pascal rootName) = some type → motive call [])
    (whole : ∀ {call : Call} {type : DataType}, call.schema = document → call.site = .root →
      DefinitionsWalked document (Identifier.pascal rootName) (Pointer.definitions document)
          .initial call.start →
        call.type? document (Identifier.pascal rootName) = some type → motive call []) :
    ∀ {call outer}, call :: outer ∈ calls document rootName → motive call outer := by
  obtain ⟨q, walked, -, -⟩ := convert_run h
  obtain ⟨u, p, definitions, walked⟩ := Walk.run_bind_eq_ok.mp walked
  intro call outer mem
  have mem : call :: outer ∈ callsOfDefinitions document (Identifier.pascal rootName)
      (walkBound document) (Pointer.definitions document) .initial ++ callsOf document
        (Identifier.pascal rootName) (walkBound document) [] document .root p := by
    simpa only [calls, definitions] using mem
  rcases List.mem_append.mp mem with first | last
  · refine callsOfDefinitions_forall step definitions ?_ first
    intro before path schema after r type split prior given
    refine definition ?_ prior rfl rfl given
    exact ⟨after, by rw [split, List.append_assoc]; rfl⟩
  · exact callsOf_forall step walked
      (whole rfl rfl (.of_run definitions) (Call.type?_eq walked)) last

end HandOn

end SchemaLoom
