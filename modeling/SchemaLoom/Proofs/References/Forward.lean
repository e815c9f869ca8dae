import SchemaLoom.Proofs.Walk.Addressed
import SchemaLoom.Proofs.Walk.Calls

set_option autoImplicit false

/-! # References into objects under construction

A reference to an object that is still being converted is answered by the name of its class. The
answer is given inside the conversion that it stands for, so it cannot wait for the type that the
conversion gives in the end; it is that type except for one thing. A node whose list of types names
`null` beside `object` is made optional when its class is done, and no answer knows of that.

Which conversion an answer stands for is a matter of paths: the innermost call that converts an
object at the path that the reference spells (`Call.builds`). Every mark of an object under
construction belongs to such a call (`Call.Marked`). That the reference's target is what is being
converted there needs paths that point at their nodes (`Call.Headed`).
-/

namespace SchemaLoom

/-! ## Answers and the conversions they stand for -/

namespace Call

/-- The reference and the name of the class, if the call answers a reference by the name of a class
under construction. -/
def forward? (document : Json) (call : Call) : Option (String × String) :=
  match classify call.schema with
  | .ok ⟨.ref reference, _⟩ =>
      match Entries.get? reference call.start.known, Pointer.resolve? document reference,
          Entries.get? reference call.start.building with
      | none, some _, some name => some (reference, name)
      | _, _, _ => none
  | _ => none

/-- The object that the call converts into a class, and whether the node is nullable. -/
def object? (call : Call) : Option (Entries Json × Bool) :=
  match classify call.schema with
  | .ok ⟨.object object, nullable⟩ => some (object, nullable)
  | _ => none

/-- Whether the call converts an object at the path. -/
def builds (path : String) (call : Call) : Bool := call.object?.isSome && call.site.path = path

variable {document : Json} {rootName : String} {call : Call} {object : Entries Json}
  {nullable : Bool}

theorem object?_eq_some :
    call.object? = some (object, nullable) ↔
      classify call.schema = .ok ⟨.object object, nullable⟩ := by
  unfold object?
  constructor
  · intro h
    split at h
    · next shaped =>
        cases h
        exact shaped
    · cases h
  · intro shaped
    rw [shaped]

theorem forward?_eq_some {reference name : String}
    (h : call.forward? document = some (reference, name)) :
    ∃ nullable target, classify call.schema = .ok ⟨.ref reference, nullable⟩ ∧
      Entries.get? reference call.start.known = none ∧
        Pointer.resolve? document reference = some target ∧
          Entries.get? reference call.start.building = some name := by
  unfold forward? at h
  split at h
  · next shaped =>
      split at h
      · next known resolved building =>
          cases h
          exact ⟨_, _, shaped, known, resolved, building⟩
      · cases h
  · cases h

theorem path_of_builds {path : String} (h : call.builds path = true) : call.site.path = path := by
  simp only [builds, Bool.and_eq_true, decide_eq_true_eq] at h
  exact h.2

/-- What a forward answer gives is the class under construction, never optional. -/
theorem type?_of_forward {reference name : String} {type : DataType}
    (h : call.forward? document = some (reference, name))
    (given : call.type? document rootName = some type) : type = .classRef name := by
  obtain ⟨nullable, target, shaped, unknown, resolved, building⟩ := forward?_eq_some h
  obtain ⟨q, ran⟩ := walked given
  have plain := classify_ref shaped
  obtain ⟨core, rfl, ⟨hit, -⟩ | ⟨own, found, rfl, -⟩ | ⟨_, _, _, free, -⟩⟩ :=
    ran.step.outcome shaped
  · rw [unknown] at hit
    cases hit
  · rw [building] at found
    cases found
    rw [plain, DataType.withOptional_false]
  · rw [building] at free
    cases free

/-- An object gives the class it is converted into, optional where the node is nullable. -/
theorem type?_of_object {type : DataType} (h : call.object? = some (object, nullable))
    (given : call.type? document rootName = some type) :
    type = (DataType.classRef (call.start.className rootName object call.site).identifier).withOptional
      nullable := by
  obtain ⟨q, ran⟩ := walked given
  obtain ⟨core, same, -, -, -, -, -, rfl, -⟩ := ran.step.outcome (object?_eq_some.mp h)
  exact same

end Call

/-! ## Marks and the calls that set them -/

/-- Every path has one mark, and the mark holds the name that the innermost call that converts an
object at the path gives its class. -/
structure Marked (rootName : String) (building : Entries String) (outer : List Call) : Prop where
  distinct : (Entries.names building).Nodup
  builders : ∀ mark ∈ building, ∃ builder object nullable,
    outer.find? (Call.builds mark.1) = some builder ∧ builder.object? = some (object, nullable) ∧
      (builder.start.className rootName object builder.site).identifier = mark.2

namespace Marked

variable {document : Json} {rootName : String} {building fewer : Entries String}
  {outer : List Call} {call part : Call}

theorem nil : Marked rootName [] outer where
  distinct := List.nodup_nil
  builders := by
    intro mark mem
    cases mem

theorem mono (h : Marked rootName building outer) (distinct : (Entries.names fewer).Nodup)
    (le : ∀ mark ∈ fewer, mark ∈ building) : Marked rootName fewer outer where
  distinct := distinct
  builders := fun mark mem => h.builders mark (le mark mem)

/-- A call that converts no object is not asked for. -/
theorem pass (h : Marked rootName building outer) (plain : call.object? = none) :
    Marked rootName building (call :: outer) where
  distinct := h.distinct
  builders := by
    intro mark mem
    obtain ⟨builder, object, nullable, found, rest⟩ := h.builders mark mem
    have passed : ¬ Call.builds mark.1 call = true := by simp [Call.builds, plain]
    exact ⟨builder, object, nullable, (List.find?_cons_of_neg passed).trans found, rest⟩

/-- A call that converts an object sets the mark of its path, in the place of one that was there. -/
theorem opened {object : Entries Json} {nullable : Bool}
    (h : Marked rootName call.start.building outer)
    (own : call.object? = some (object, nullable)) :
    Marked rootName (call.start.opened rootName object call.site).building (call :: outer) := by
  have distinct : (Entries.names (call.start.opened rootName object call.site).building).Nodup := by
    rw [Progress.building_opened]
    exact Entries.nodup_names_insert h.distinct
  refine ⟨distinct, ?_⟩
  intro mark mem
  -- The call's own mark hides one that an outer call has set for the same path.
  by_cases here : mark.1 = call.site.path
  · have looked := Entries.get?_of_mem distinct mem
    rw [Progress.building_opened, here, Entries.get?_insert_self] at looked
    have builds : Call.builds mark.1 call = true := by simp [Call.builds, own, here]
    exact ⟨call, object, nullable, List.find?_cons_of_pos builds, own, Option.some.inj looked⟩
  · rw [Progress.building_opened] at mem
    have before : mark ∈ call.start.building := by
      rcases Entries.mem_insert mem with same | before
      · exact absurd (congrArg Prod.fst same) here
      · exact before
    obtain ⟨builder, other, optional, found, rest⟩ := h.builders mark before
    have apart : call.site.path ≠ mark.1 := fun same => here same.symm
    have passed : ¬ Call.builds mark.1 call = true := by simp [Call.builds, apart]
    exact ⟨builder, other, optional, (List.find?_cons_of_neg passed).trans found, rest⟩

/-- The marks with which a call begins are those of the call that makes it, but for its own. -/
theorem step (h : Marked rootName call.start.building outer)
    (makes : call.Makes document rootName part) :
    Marked rootName part.start.building (call :: outer) := by
  have later {q : Progress} (plain : call.object? = none) (keeps : call.start.Keeps q) :
      Marked rootName q.building (call :: outer) :=
    have kept := keeps.building h.distinct
    (h.pass plain).mono kept.1 kept.2
  have hands := makes.hands
  cases part with
  | mk steps schema site start =>
      cases hands with
      | target shaped => exact h.pass (by simp [Call.object?, shaped])
      | single shaped => exact later (by simp [Call.object?, shaped]) (.refl _)
      | member shaped _ before => exact later (by simp [Call.object?, shaped]) before.keeps
      | property shaped _ _ before =>
          have opened := h.opened (Call.object?_eq_some.mpr shaped)
          have kept := before.keeps.building opened.distinct
          exact opened.mono kept.1 kept.2
      | items shaped => exact later (by simp [Call.object?, shaped]) (.refl _)

end Marked

theorem DefinitionsWalked.building_eq_nil {document : Json} {rootName : String}
    {definitions : List (String × Json)} {p q : Progress}
    (h : DefinitionsWalked document rootName definitions p q) (none : p.building = []) :
    q.building = [] := by
  induction h with
  | nil => exact none
  | @cons path schema rest p q r type head tail ih =>
      have distinct : (Entries.names (p.startResolving path).building).Nodup := by
        rw [Progress.building_startResolving, none]
        exact List.nodup_nil
      have kept := (head.keeps.building distinct).2
      rw [Progress.building_startResolving, none] at kept
      exact ih (List.eq_nil_iff_forall_not_mem.mpr fun mark mem => List.not_mem_nil (kept mark mem))

/-- **Every mark of an object under construction belongs to a call that is under way.** -/
theorem calls_marked {document : Json} {rootName : String} {c : Conversion}
    (h : convert document rootName = .ok c) {call : Call} {outer : List Call}
    (mem : call :: outer ∈ calls document rootName) :
    Marked (Identifier.pascal rootName) call.start.building outer := by
  have unmarked {before : List (String × Json)} {p : Progress}
      (walked : DefinitionsWalked document (Identifier.pascal rootName) before .initial p) :
      p.building = [] := walked.building_eq_nil rfl
  refine calls_forall (motive := fun call outer =>
    Marked (Identifier.pascal rootName) call.start.building outer) h ?_ ?_ ?_ mem
  · intro call outer part marked makes _
    exact marked.step makes
  · intro call before path p type _ walked _ start _
    rw [start, Progress.building_startResolving, unmarked walked]
    exact .nil
  · intro call type _ _ walked _
    rw [unmarked walked]
    exact .nil

/-! ## Paths and the calls made for what they point at -/

theorem Call.Makes.type?_single {document : Json} {rootName : String} {call part : Call}
    {nullable : Bool} {type : DataType} (makes : call.Makes document rootName part)
    (shaped : classify call.schema = .ok ⟨.single part.schema, nullable⟩)
    (site : part.site = call.site) (start : part.start = call.start)
    (given : part.type? document rootName = some type) :
    call.type? document rootName = some type := by
  obtain ⟨entries, held, -⟩ := classify_obj shaped nofun nofun
  have required : nullable = false := by
    rw [held] at shaped
    exact (classify_single shaped).1
  subst required
  obtain ⟨q, ran⟩ := Call.run_of_type? given
  have steps := makes.1
  rw [site, start] at ran
  have whole : (SchemaLoom.descent document rootName call.schema call.site call.start).run
      (walk document rootName part.steps) = .ok (type, q) := by
    rw [descent_of_shape shaped]
    refine Descent.run_withOptional_eq_ok.mpr ⟨type, ?_, (DataType.withOptional_false type).symm⟩
    show (Descent.through call.start part.schema call.site pure).run _ = _
    rw [Descent.run_through, bind_pure]
    exact ran
  rw [← walk_succ_run, ← steps] at whole
  exact Call.type?_eq whole

/-- What the path of the call points at, if anything, is what a call at the same site and from the
same progress was made for, and the two give the same type. -/
def Call.Headed (document : Json) (rootName : String) (stack : List Call) (call : Call) : Prop :=
  ∀ target, Pointer.resolve? document call.site.path = some target →
    ∃ head ∈ stack, head.schema = target ∧ head.site = call.site ∧ head.start = call.start ∧
      Leads target call.schema ∧ head.type? document rootName = call.type? document rootName

/-- A call for a node of the document, made from calls that are headed. -/
structure Call.Placed (document : Json) (rootName : String) (call : Call) (outer : List Call) :
    Prop where
  within : call.schema.Within document
  headed : ∀ k ∈ call :: outer, k.Headed document rootName (call :: outer)

namespace Call.Placed

variable {document : Json} {rootName : String} {call part : Call} {outer : List Call}

theorem addressed (h : call.Placed document rootName outer) :
    Addressed document call.schema call.site where
  within := h.within
  leads := by
    intro target resolved
    obtain ⟨-, -, -, -, -, leads, -⟩ := h.headed call List.mem_cons_self target resolved
    exact leads

/-- A call for a node that its path points at is headed by itself. -/
theorem of_pointed (pointed : Pointed document call.schema call.site)
    (h : ∀ k ∈ outer, k.Headed document rootName outer) : call.Placed document rootName outer where
  within := pointed.within
  headed := by
    intro k mem target resolved
    rcases List.mem_cons.mp mem with rfl | mem
    · have same := pointed.exact target resolved
      exact ⟨k, List.mem_cons_self, same.symm, rfl, rfl, same ▸ .refl, rfl⟩
    · obtain ⟨head, there, rest⟩ := h k mem target resolved
      exact ⟨head, List.mem_cons_of_mem _ there, rest⟩

/-- A call for the only member of an `allOf` is headed by what heads the call for the whole. -/
theorem single {nullable : Bool} {type : DataType} (h : call.Placed document rootName outer)
    (makes : call.Makes document rootName part)
    (shaped : classify call.schema = .ok ⟨.single part.schema, nullable⟩)
    (site : part.site = call.site) (start : part.start = call.start)
    (given : part.type? document rootName = some type) :
    part.Placed document rootName (call :: outer) where
  within := (h.addressed.single shaped).within
  headed := by
    intro k mem target resolved
    rcases List.mem_cons.mp mem with rfl | mem
    -- The member stands at the path of the whole, so it is headed as the whole is.
    · rw [site] at resolved
      obtain ⟨head, there, schema, at_, from_, leads, same⟩ :=
        h.headed call List.mem_cons_self target resolved
      have whole := makes.type?_single shaped site start given
      refine ⟨head, List.mem_cons_of_mem _ there, schema, at_.trans site.symm,
        from_.trans start.symm, leads.trans (.single shaped .refl), ?_⟩
      rw [same, whole, given]
    · obtain ⟨head, there, rest⟩ := h.headed k mem target resolved
      exact ⟨head, List.mem_cons_of_mem _ there, rest⟩

theorem step (distinct : DistinctKeys document) (alone : SinglesAlone document)
    {type : DataType} (h : call.Placed document rootName outer)
    (makes : call.Makes document rootName part)
    (given : part.type? document rootName = some type) :
    part.Placed document rootName (call :: outer) := by
  have pointed (there : Pointed document part.schema part.site) :
      part.Placed document rootName (call :: outer) := .of_pointed there h.headed
  have hands := makes.hands
  cases part with
  | mk steps schema site start =>
      cases hands with
      | target _ resolved => exact pointed (.ofReference resolved)
      | single shaped => exact h.single makes shaped rfl rfl given
      | member shaped mem => exact pointed (h.addressed.memberParts alone shaped mem)
      | property shaped found mem =>
          exact pointed (h.addressed.property alone distinct shaped found mem)
      | items shaped => exact pointed (h.addressed.items alone shaped)

end Call.Placed

/-- A reference stands for nothing but itself. -/
theorem Leads.eq_of_ref {schema target : Json} {reference : String} {nullable : Bool}
    (h : Leads schema target) (shaped : classify schema = .ok ⟨.ref reference, nullable⟩) :
    schema = target := by
  cases h with
  | refl => rfl
  | single other =>
      rw [shaped] at other
      cases other

section Conversions

variable {document : Json} {rootName : String} {c : Conversion}

theorem calls_placed (distinct : DistinctKeys document) (alone : SinglesAlone document)
    (h : convert document rootName = .ok c) {call : Call} {outer : List Call}
    (mem : call :: outer ∈ calls document rootName) :
    call.Placed document (Identifier.pascal rootName) outer := by
  refine calls_forall (motive := fun call outer =>
    call.Placed document (Identifier.pascal rootName) outer) h ?_ ?_ ?_ mem
  · intro call outer part placed makes ⟨type, given⟩
    exact placed.step distinct alone makes given
  · intro call before path p type among _ site _ _
    have own : (path, call.schema) ∈ Pointer.definitions document :=
      among.subset (List.mem_append_right _ List.mem_cons_self)
    have pointed := Pointed.definition distinct own
    rw [← site] at pointed
    exact .of_pointed pointed nofun
  · intro call type schema site _ _
    have pointed := Pointed.root document
    rw [← site] at pointed
    refine .of_pointed ?_ nofun
    rwa [schema]

/-- All calls that are under way in a conversion that succeeds give a type in the end. -/
theorem calls_succeed (h : convert document rootName = .ok c) {call : Call} {outer : List Call}
    (mem : call :: outer ∈ calls document rootName) :
    ∀ k ∈ call :: outer, ∃ type, k.type? document (Identifier.pascal rootName) = some type := by
  refine calls_forall (motive := fun call outer => ∀ k ∈ call :: outer,
    ∃ type, k.type? document (Identifier.pascal rootName) = some type) h ?_ ?_ ?_ mem
  · intro call outer part before _ given k among
    rcases List.mem_cons.mp among with rfl | among
    · exact given
    · exact before k among
  · intro call _ _ _ type _ _ _ _ given k among
    cases List.mem_singleton.mp among
    exact ⟨type, given⟩
  · intro call type _ _ _ given k among
    cases List.mem_singleton.mp among
    exact ⟨type, given⟩

/-- **A forward answer is the type that the conversion it stands for gives in the end, exactly where
that conversion is of an object that is not nullable.** The conversion is the innermost one of an
object at the path of the reference; where paths point at their nodes, it is the one that converts
the target of the reference. -/
theorem forward_eq_iff (distinct : DistinctKeys document) (h : convert document rootName = .ok c)
    {call : Call} {outer : List Call} (mem : call :: outer ∈ calls document rootName)
    {reference name : String} (forward : call.forward? document = some (reference, name)) :
    ∃ builder object nullable type,
      outer.find? (Call.builds reference) = some builder ∧
      builder.object? = some (object, nullable) ∧
      builder.type? document (Identifier.pascal rootName) = some type ∧
      call.type? document (Identifier.pascal rootName) = some (.classRef name) ∧
      type = (DataType.classRef name).withOptional nullable ∧
      (DataType.classRef name = type ↔ nullable = false) ∧
      (SinglesAlone document → ∃ target ∈ outer,
        Pointer.resolve? document reference = some target.schema ∧
        target.site = builder.site ∧ target.start = builder.start ∧
        target.type? document (Identifier.pascal rootName) = some type) := by
  obtain ⟨_, target, shaped, _, resolved, marked⟩ := Call.forward?_eq_some forward
  obtain ⟨builder, object, nullable, found, converts, named⟩ :=
    (calls_marked h mem).builders _ (Entries.mem_of_get? marked)
  have within : builder ∈ outer := List.mem_of_find?_eq_some found
  obtain ⟨answer, given⟩ := calls_succeed h mem call List.mem_cons_self
  obtain ⟨type, built⟩ := calls_succeed h mem builder (List.mem_cons_of_mem _ within)
  have answered := Call.type?_of_forward forward given
  have completed := Call.type?_of_object converts built
  rw [answered] at given
  rw [named] at completed
  refine ⟨builder, object, nullable, type, found, converts, built, given, completed, ?_, ?_⟩
  · rw [completed]
    constructor
    · intro same
      have optional := congrArg DataType.isOptional same
      rw [DataType.isOptional_withOptional] at optional
      exact (Bool.or_eq_false_iff.mp optional.symm).2
    · rintro rfl
      exact (DataType.withOptional_false _).symm
  · intro alone
    have placed := calls_placed distinct alone h mem
    have path : builder.site.path = reference := Call.path_of_builds (List.find?_some found)
    rw [← path] at resolved
    obtain ⟨head, there, rfl, site, start, leads, same⟩ :=
      placed.headed builder (List.mem_cons_of_mem _ within) target resolved
    -- The head is not the answering call itself, which is of a reference and leads to no object.
    refine ⟨head, ?_, path ▸ resolved, site, start, same.trans built⟩
    rcases List.mem_cons.mp there with rfl | there
    · have converted := Call.object?_eq_some.mp converts
      rw [← leads.eq_of_ref shaped, shaped] at converted
      cases converted
    · exact there

end Conversions

/-- Whether the innermost call answers a reference by a class and all calls around it pass a test. -/
def answersAmid (document : Json) (reference name : String) (test : Call → Call → Bool) :
    List Call → Bool
  | [] => false
  | call :: outer => call.forward? document = some (reference, name) && outer.all (test call)

theorem exists_of_answersAmid {document : Json} {rootName reference name : String}
    {test : Call → Call → Bool}
    (h : (calls document rootName).any (answersAmid document reference name test) = true) :
    ∃ call outer, call :: outer ∈ calls document rootName ∧
      call.forward? document = some (reference, name) ∧ ∀ k ∈ outer, test call k = true := by
  obtain ⟨stack, mem, passed⟩ := List.any_eq_true.mp h
  cases stack with
  | nil => cases passed
  | cons call outer =>
      simp only [answersAmid, Bool.and_eq_true, decide_eq_true_eq, List.all_eq_true] at passed
      exact ⟨call, outer, mem, passed.1, passed.2⟩

/-- A node that refers to the document, which is itself. -/
def plainNode : Json :=
  .obj [("properties", .obj [("next", .obj [("$ref", .str "#")])])]

/-- In a plain node the answer is the type of the whole. -/
theorem forward_eq_iff_plainNode : ∃ call outer, call :: outer ∈ calls plainNode "Node" ∧
    ∃ target ∈ outer, Pointer.resolve? plainNode "#" = some target.schema ∧
      call.type? plainNode (Identifier.pascal "Node")
        = target.type? plainNode (Identifier.pascal "Node") := by
  have distinct : DistinctKeys plainNode := .of_everywhere (by decide +kernel)
  have alone : SinglesAlone plainNode := .of_everywhere (by decide +kernel)
  have ok : (convert plainNode "Node").isOk = true := by decide +kernel
  have found : (calls plainNode "Node").any (answersAmid plainNode "#" "Node" fun _ k =>
      k.object?.map Prod.snd ≠ some true) = true := by decide +kernel
  cases converted : convert plainNode "Node" with
  | error e =>
      rw [converted] at ok
      cases ok
  | ok c =>
      obtain ⟨call, outer, mem, forward, plain⟩ := exists_of_answersAmid found
      obtain ⟨builder, object, nullable, type, first, converts, -, given, -, same, pointed⟩ :=
        forward_eq_iff distinct converted mem forward
      obtain ⟨target, within, resolved, -, -, completed⟩ := pointed alone
      have required : nullable = false := by
        have test := plain builder (List.mem_of_find?_eq_some first)
        simpa [converts] using test
      refine ⟨call, outer, mem, target, within, resolved, ?_⟩
      rw [given, completed, same.mpr required]

/-- The only member of an `allOf` whose items stand at a path that points beside it. -/
def strayPath : Json :=
  .obj [("allOf", .arr [.obj [("items", .obj [("title", .str "Inner"),
      ("properties", .obj [("own", .obj [("$ref", .str "#/items")])])])]]),
    ("items", .obj [("type", .str "string")])]

-- Without `SinglesAlone` an answer may stand for a conversion of something else than the target.
example : (calls strayPath "Outer").any (answersAmid strayPath "#/items" "Inner" fun _ _ => true)
      = true ∧
    Pointer.resolve? strayPath "#/items" = some (.obj [("type", .str "string")]) :=
  ⟨by decide +kernel, rfl⟩

/-- A node of a list that ends with `null`. -/
def optionalNode : Json :=
  .obj [("type", .arr [.str "object", .str "null"]),
    ("properties", .obj [("next", .obj [("$ref", .str "#")])]), ("required", .arr [.str "next"])]

/-- The class of such a node, whose required field is not optional. -/
def nodeClass : DataClass :=
  { name := "Node", fields := [{ name := "next", type := .classRef "Node" }] }

/-- The answer inside a nullable object is not optional, and so neither is the required field made
of it, though the object itself is. -/
theorem forward_ne_optionalNode :
    ((convert optionalNode "Node").toOption.map fun c => (c.root, c.models))
      = some ((DataType.classRef "Node").optional, [.ofClass nodeClass]) ∧
    ∃ call outer, call :: outer ∈ calls optionalNode "Node" ∧
      call.forward? optionalNode = some ("#", "Node") ∧
      ∀ k ∈ outer, k.type? optionalNode (Identifier.pascal "Node")
        ≠ call.type? optionalNode (Identifier.pascal "Node") := by
  refine ⟨by decide +kernel, ?_⟩
  have found : (calls optionalNode "Node").any (answersAmid optionalNode "#" "Node" fun call k =>
      k.type? optionalNode (Identifier.pascal "Node")
        ≠ call.type? optionalNode (Identifier.pascal "Node")) = true := by decide +kernel
  obtain ⟨call, outer, mem, forward, differs⟩ := exists_of_answersAmid found
  exact ⟨call, outer, mem, forward, fun k within => of_decide_eq_true (differs k within)⟩

end SchemaLoom
