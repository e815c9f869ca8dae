import SchemaLoom.Proofs.Entries.Filtered
import SchemaLoom.Proofs.References.Refused

set_option autoImplicit false

/-! # What calls leave of the marks

A call marks what it converts and takes the mark off when it is done: a reference among those that
are being resolved, an object by its path among those under construction. References are not
expanded inside their own expansion, so the marks of references nest and a call that is done leaves
them as they were (`Walked.keeps`).

The marks of objects do not nest. An object may be converted again, at the same path, inside its own
conversion, through a reference to a node above it, and the inner conversion takes off the one mark
that the two share. So what a call leaves is found from the list of the calls it makes: the marks of
the paths at which none of them converts an object (`marksLeft`, `callsOf_building`). An object sees
its own mark until the first such conversion inside it (`Call.get?_building_inner`).
-/

namespace SchemaLoom

/-! ## The marks that calls leave -/

/-- Whether the innermost call of a stack converts an object at the path. -/
def convertsAt (path : String) (stack : List Call) : Bool := stack.head?.any (Call.builds path)

/-- The marks of the paths at which none of the calls converts an object. -/
def marksLeft (listed : List (List Call)) (building : Entries String) : Entries String :=
  building.filter fun mark => !listed.any (convertsAt mark.1)

section Marks

variable {path name : String} {call : Call} {outer : List Call} {listed more : List (List Call)}
  {building : Entries String}

@[simp] theorem convertsAt_cons : convertsAt path (call :: outer) = call.builds path := rfl

theorem Call.builds_eq_false (plain : call.object? = none) : call.builds path = false := by
  simp [builds, plain]

theorem Call.builds_eq {object : Entries Json} {nullable : Bool}
    (own : call.object? = some (object, nullable)) :
    call.builds path = decide (call.site.path = path) := by
  simp [builds, own]

@[simp] theorem marksLeft_nil : marksLeft [] building = building :=
  List.filter_eq_self.mpr fun _ _ => rfl

theorem marksLeft_append :
    marksLeft (listed ++ more) building = marksLeft more (marksLeft listed building) := by
  simp only [marksLeft, List.filter_filter, List.any_append, Bool.not_or, Bool.and_comm]

theorem nodup_marksLeft (distinct : (Entries.names building).Nodup) :
    (Entries.names (marksLeft listed building)).Nodup :=
  distinct.sublist (List.filter_sublist.map Prod.fst)

theorem get?_marksLeft : Entries.get? path (marksLeft listed building)
    = if listed.any (convertsAt path) then none else Entries.get? path building := by
  have looked := Entries.get?_filter (fun other => !listed.any (convertsAt other)) path building
  cases converted : listed.any (convertsAt path) <;> simpa [marksLeft, converted] using looked

/-- All marks are left exactly where no object is converted at a marked path. -/
theorem marksLeft_eq_self_iff : marksLeft listed building = building ↔
    ∀ mark ∈ building, ∀ stack ∈ listed, convertsAt mark.1 stack = false := by
  simp [marksLeft, List.filter_eq_self]

theorem marksLeft_cons_of_plain (plain : call.object? = none) :
    marksLeft ((call :: outer) :: listed) building = marksLeft listed building := by
  simp [marksLeft, Call.builds_eq_false plain]

/-- What is left when an object has set its mark and taken it off. -/
theorem marksLeft_cons_of_object {object : Entries Json} {nullable : Bool}
    (own : call.object? = some (object, nullable)) (distinct : (Entries.names building).Nodup) :
    marksLeft ((call :: outer) :: listed) building
      = Entries.erase call.site.path
          (marksLeft listed (Entries.insert call.site.path name building)) := by
  have taken := Entries.filter_erase_insert distinct
    (fun other => !listed.any (convertsAt other)) call.site.path name
  rw [marksLeft, marksLeft, taken]
  refine List.filter_congr fun mark _ => ?_
  simp [Call.builds_eq own, eq_comm]

end Marks

/-! ## One call -/

/-- The node sets no mark of an object. -/
structure Descent.Unmarked (p : Progress) (d : Descent) : Prop where
  start : d.start.building = p.building
  finish : ∀ {types r type q}, (d.finish types).run r = .ok (type, q) → q.building = r.building

namespace Descent.Unmarked

variable {document : Json} {site : Site} {p : Progress} {d : Descent} {nullable : Bool}

theorem leaf {step : Walk DataType}
    (same : ∀ {r type q}, step.run r = .ok (type, q) → q.building = r.building) :
    (leaf p step).Unmarked p :=
  ⟨rfl, same⟩

theorem leaf_pure (type : DataType) : (Descent.leaf p (pure type)).Unmarked p := by
  refine .leaf fun made => ?_
  cases made
  rfl

theorem leaf_throw (e : SchemaError) : (Descent.leaf p (throw e)).Unmarked p := by
  refine .leaf fun made => ?_
  cases made

theorem through {part : Json} {f : DataType → DataType} :
    (through p part site fun type => pure (f type)).Unmarked p := by
  refine ⟨rfl, fun made => ?_⟩
  cases made
  rfl

theorem withOptional (h : d.Unmarked p) : (d.withOptional nullable).Unmarked p := by
  refine ⟨h.start, fun made => ?_⟩
  obtain ⟨core, s, made, last⟩ := Walk.run_bind_eq_ok.mp made
  cases last
  exact h.finish made

theorem ofReference (document : Json) (reference : String) (site : Site) (p : Progress) :
    (ofReference document reference site p).Unmarked p := by
  have answer := ofReference_case document reference site p
  generalize Descent.ofReference document reference site p = d at answer
  cases answer with
  | known => exact leaf_pure _
  | unresolved | refused => exact leaf_throw _
  | forward =>
      refine .leaf fun made => ?_
      cases made
      rfl
  | expand =>
      refine ⟨rfl, fun made => ?_⟩
      cases made
      rfl

end Descent.Unmarked

namespace Call

variable {document : Json} {rootName : String} {call : Call}

/-- A node that is not an object sets no mark. -/
theorem unmarked (plain : call.object? = none) :
    (call.descent document rootName).Unmarked call.start := by
  unfold descent
  cases shaped : classify call.schema with
  | error fault =>
      rw [descent_of_fault shaped]
      exact .leaf_throw _
  | ok classified =>
      obtain ⟨shape, nullable⟩ := classified
      rw [descent_of_shape shaped]
      refine .withOptional ?_
      cases shape with
      | ref reference => exact .ofReference ..
      | single member => exact .through (f := id)
      | union keyword alternatives =>
          refine ⟨rfl, fun made => ?_⟩
          cases made
          rfl
      | const value =>
          refine .leaf fun made => ?_
          rw [Walk.run_ofConst] at made
          cases typed : Walk.constType? value with
          | none => rw [typed] at made; cases made
          | some type =>
              rw [typed] at made
              cases made
              exact Walk.building_afterConst ..
      | enum literals =>
          refine .leaf fun made => ?_
          rw [Walk.run_ofEnum] at made
          split at made
          · cases made
            exact Walk.building_afterEnum ..
          · cases made
      | object object => simp [object?, shaped] at plain
      | array items? =>
          cases items? with
          | none => exact .leaf_pure _
          | some items => exact .through
      | _ => exact .leaf_pure _

/-- An object sets its mark before its properties are converted. -/
theorem descent_start {object : Entries Json} {nullable : Bool}
    (own : call.object? = some (object, nullable)) :
    (call.descent document rootName).start = call.start.opened rootName object call.site := by
  unfold descent
  rw [descent_of_shape (object?_eq_some.mp own)]
  rfl

/-- An object takes the mark of its path off in the end. -/
theorem building_of_finish {object : Entries Json} {nullable : Bool} {types : List DataType}
    {r q : Progress} {type : DataType} (own : call.object? = some (object, nullable))
    (made : ((call.descent document rootName).finish types).run r = .ok (type, q)) :
    q.building = Entries.erase call.site.path r.building := by
  unfold descent at made
  rw [descent_of_shape (object?_eq_some.mp own)] at made
  obtain ⟨core, s, closed, last⟩ := Walk.run_bind_eq_ok.mp made
  cases last
  obtain ⟨fields, t, given, closed⟩ := Walk.run_bind_eq_ok.mp closed
  have same : t = r := by
    unfold Walk.fieldsOrFault at given
    split at given
    · cases given
    · cases given
      rfl
  rw [Walk.run_closeClass] at closed
  cases closed
  rw [Progress.building_closed, same]

theorem nodup_descent_start (document : Json) (rootName : String) (call : Call)
    (distinct : (Entries.names call.start.building).Nodup) :
    (Entries.names (call.descent document rootName).start.building).Nodup := by
  cases own : call.object? with
  | none =>
      rw [(unmarked own).start]
      exact distinct
  | some converted =>
      obtain ⟨object, nullable⟩ := converted
      rw [descent_start own, Progress.building_opened]
      exact Entries.nodup_names_insert distinct

/-- A call that converts no object at a path does not touch the mark of the path. -/
theorem get?_descent_start (document : Json) (rootName : String) {path : String}
    (apart : call.builds path = false) :
    Entries.get? path (call.descent document rootName).start.building
      = Entries.get? path call.start.building := by
  cases own : call.object? with
  | none => rw [(unmarked own).start]
  | some converted =>
      obtain ⟨object, nullable⟩ := converted
      have differ : path ≠ call.site.path := by
        intro same
        simp [builds_eq own, same] at apart
      rw [descent_start own, Progress.building_opened, Entries.get?_insert_of_ne differ]

/-- What a call leaves when its parts are done. -/
theorem marksLeft_of_finish (call : Call) (outer : List Call) {inner : List (List Call)}
    {types : List DataType} {r q : Progress} {type : DataType}
    (distinct : (Entries.names call.start.building).Nodup)
    (parts : r.building = marksLeft inner (call.descent document rootName).start.building)
    (made : ((call.descent document rootName).finish types).run r = .ok (type, q)) :
    q.building = marksLeft ((call :: outer) :: inner) call.start.building := by
  cases own : call.object? with
  | none =>
      have passes : (call.descent document rootName).Unmarked call.start := unmarked own
      rw [passes.finish made, parts, passes.start, marksLeft_cons_of_plain own]
  | some converted =>
      obtain ⟨object, nullable⟩ := converted
      rw [building_of_finish own made, parts, descent_start own, Progress.building_opened,
        ← marksLeft_cons_of_object own distinct]

end Call

/-! ## Calls one after the other -/

/-- What parts leave, one after the other, when each leaves the marks beside its own calls. -/
theorem Chain.marksLeft {visit : Visit} {parts : List (Json × Site)} {p q : Progress}
    {types : List DataType} (chain : Chain (WalkStep.OfVisit visit) parts p types q)
    (list : Json → Site → Progress → List (List Call))
    (distinct : (Entries.names p.building).Nodup)
    (each : ∀ {schema site p type q}, (visit schema site).run p = .ok (type, q) →
      (Entries.names p.building).Nodup →
        q.building = SchemaLoom.marksLeft (list schema site p) p.building) :
    q.building = SchemaLoom.marksLeft (Walk.along list visit parts p) p.building := by
  induction chain with
  | nil => exact marksLeft_nil.symm
  | @cons schema site rest p q r type types head tail ih =>
      have ran : (visit schema site).run p = .ok (type, q) := head
      have here := each ran distinct
      have later := ih (here ▸ nodup_marksLeft distinct)
      simp only [Walk.along, ran]
      rw [later, here, marksLeft_append]

section Calls

variable {document : Json} {rootName : String} {steps : Nat} {inside : List Call} {schema : Json}
  {site : Site} {p q : Progress}

/-- **A call that is done leaves the marks of the paths at which it converts no object.** -/
theorem callsOf_building {type : DataType}
    (h : (walk document rootName steps schema site).run p = .ok (type, q))
    (distinct : (Entries.names p.building).Nodup) :
    q.building = marksLeft (callsOf document rootName steps inside schema site p) p.building := by
  induction steps generalizing inside schema site p type q with
  | zero => cases h
  | succ steps ih =>
      rw [walk_succ_run] at h
      obtain ⟨types, r, chain, made⟩ := Descent.run_eq_ok.mp h
      have opened := Call.nodup_descent_start document rootName ⟨steps + 1, schema, site, p⟩
        distinct
      have parts := chain.marksLeft
        (callsOf document rootName steps (⟨steps + 1, schema, site, p⟩ :: inside)) opened ih
      exact Call.marksLeft_of_finish ⟨steps + 1, schema, site, p⟩ inside distinct parts made

/-- A call that is listed has a step to take. -/
theorem steps_ne_zero_of_mem {call : Call} {outer : List Call}
    (mem : call :: outer ∈ callsOf document rootName steps inside schema site p) :
    call.steps ≠ 0 :=
  callsOf_made (motive := fun call _ => call.steps ≠ 0) (fun _ _ more => more) id mem

/-- Calls are made from those that the walk itself is made from. -/
theorem callsOf_inside {call : Call} {outer : List Call}
    (mem : call :: outer ∈ callsOf document rootName steps inside schema site p) :
    ∃ between, outer = between ++ inside := by
  refine callsOf_made (motive := fun _ outer => ∃ between, outer = between ++ inside) ?_ ?_ mem
  · rintro call outer part ⟨between, rfl⟩ - -
    exact ⟨call :: between, rfl⟩
  · exact fun _ => ⟨[], rfl⟩

/-- What is listed along the parts of a call is made from the call. -/
theorem along_inside {visit : Visit} {parts : List (Json × Site)} {call : Call} {outer : List Call}
    {earlier later : List (List Call)}
    (split : Walk.along (callsOf document rootName steps inside) visit parts p
      = earlier ++ (call :: outer) :: later) : ∃ between, outer = between ++ inside := by
  obtain ⟨_, part, _, _, r, own, rest, -, -, listed, -⟩ := Walk.along_eq_append split
  have among : call :: outer ∈ callsOf document rootName steps inside part.1 part.2 r := by
    rw [listed]
    exact List.mem_append_right _ List.mem_cons_self
  exact callsOf_inside among

/-- No path is marked twice. -/
theorem callsOf_distinct {call : Call} {outer : List Call}
    (mem : call :: outer ∈ callsOf document rootName steps inside schema site p)
    (distinct : (Entries.names p.building).Nodup) :
    (Entries.names call.start.building).Nodup := by
  refine callsOf_made (motive := fun call _ => (Entries.names call.start.building).Nodup) ?_
    (fun _ => distinct) mem
  rintro call outer part distinct ⟨-, before, after, types, -, chain⟩ -
  have opened := call.nodup_descent_start document rootName distinct
  have keeps := Progress.Keeps.of_chain chain fun part => part.keeps
  exact (keeps.building opened).1

/-- Where a mark is gone or there at the calls of each part, it is so at the calls along the parts:
the parts before have taken it off or left it. -/
theorem along_get?_building {parts : List (Json × Site)} {path : String} {call : Call}
    {outer : List Call} {earlier later : List (List Call)}
    (distinct : (Entries.names p.building).Nodup)
    (split : Walk.along (callsOf document rootName steps inside) (walk document rootName steps)
      parts p = earlier ++ (call :: outer) :: later)
    (part : ∀ {schema site q own rest}, (Entries.names q.building).Nodup →
      callsOf document rootName steps inside schema site q = own ++ (call :: outer) :: rest →
        Entries.get? path call.start.building = Entries.get? path (marksLeft own q.building)) :
    Entries.get? path call.start.building = Entries.get? path (marksLeft earlier p.building) := by
  obtain ⟨_, _, _, _, r, own, rest, -, chain, listed, rfl⟩ := Walk.along_eq_append split
  have before := chain.marksLeft (callsOf document rootName steps inside) distinct callsOf_building
  rw [part (before ▸ nodup_marksLeft distinct) listed, before, marksLeft_append]

/-- **While a walk is under way the mark of a path is what the calls before have left of it**, where
none of the calls between converts an object at the path. -/
theorem callsOf_get?_building {path : String} {call : Call} {between : List Call}
    {earlier later : List (List Call)} (distinct : (Entries.names p.building).Nodup)
    (split : callsOf document rootName steps inside schema site p
      = earlier ++ (call :: (between ++ inside)) :: later)
    (apart : ∀ k ∈ between, k.builds path = false) :
    Entries.get? path call.start.building = Entries.get? path (marksLeft earlier p.building) := by
  induction steps generalizing inside schema site p earlier later between with
  | zero => simp [callsOf] at split
  | succ steps ih =>
      rw [callsOf_succ] at split
      cases earlier with
      | nil =>
          obtain ⟨own, -⟩ := List.cons.inj (List.cons.inj split).1
          rw [← own, marksLeft_nil]
      | cons first earlier =>
          rw [List.cons_append] at split
          obtain ⟨rfl, parts⟩ := List.cons.inj split
          -- The calls of the parts are made from the walk's own call, the last one between.
          obtain ⟨own, stack⟩ := along_inside parts
          obtain rfl : between = own ++ [⟨steps + 1, schema, site, p⟩] := by
            refine (List.append_left_inj inside).mp ?_
            rw [stack, List.append_assoc, List.singleton_append]
          have here : Call.builds path ⟨steps + 1, schema, site, p⟩ = false :=
            apart _ (List.mem_append_right _ List.mem_cons_self)
          have opened := Call.nodup_descent_start document rootName ⟨steps + 1, schema, site, p⟩
            distinct
          have kept := Call.get?_descent_start document rootName here
          rw [stack] at parts
          rw [along_get?_building opened parts fun distinct listed =>
            ih distinct listed fun k mem => apart k (List.mem_append_left _ mem)]
          rw [get?_marksLeft, get?_marksLeft, List.any_cons, convertsAt_cons, here, Bool.false_or,
            kept]

/-- Only objects that are being converted are marked. -/
theorem callsOf_get?_building_eq_none {path : String} {call : Call} {outer : List Call}
    (none : p.building = [])
    (mem : call :: outer ∈ callsOf document rootName steps [] schema site p)
    (apart : ∀ k ∈ outer, k.builds path = false) :
    Entries.get? path call.start.building = .none := by
  obtain ⟨earlier, later, split⟩ := List.append_of_mem mem
  rw [← List.append_nil outer] at split
  have distinct : (Entries.names p.building).Nodup := none ▸ List.nodup_nil
  rw [callsOf_get?_building distinct split apart, none]
  rfl

end Calls

/-! ## References to an object under construction -/

namespace Call

variable {document : Json} {rootName reference : String} {call : Call} {nullable : Bool}

/-- The name of the class that the call converts its object into. -/
def className? (rootName : String) (call : Call) : Option String :=
  call.object?.map fun (object, _) => (call.start.className rootName object call.site).identifier

/-- The calls of a call, itself the first. -/
def inner (document : Json) (rootName : String) (call : Call) (outer : List Call) :
    List (List Call) :=
  callsOf document rootName call.steps outer call.schema call.site call.start

/-- **An object sees its own mark until an object is converted at its path inside it.** -/
theorem get?_building_inner {name : String} {outer between : List Call} {part : Call}
    {earlier later : List (List Call)} (distinct : (Entries.names call.start.building).Nodup)
    (named : call.className? rootName = some name)
    (split : call.inner document rootName outer
      = (call :: outer) :: (earlier ++ (part :: (between ++ call :: outer)) :: later))
    (apart : ∀ k ∈ between, k.builds call.site.path = false) :
    Entries.get? call.site.path part.start.building
      = if earlier.any (convertsAt call.site.path) then none else some name := by
  obtain ⟨⟨object, nullable⟩, own, rfl⟩ := Option.map_eq_some_iff.mp named
  obtain ⟨steps, schema, site, start⟩ := call
  cases steps with
  | zero => cases split
  | succ steps =>
      have opened := nodup_descent_start document rootName ⟨steps + 1, schema, site, start⟩ distinct
      rw [inner, callsOf_succ] at split
      have seen := along_get?_building opened (List.cons.inj split).2 fun distinct listed =>
        callsOf_get?_building distinct listed apart
      rw [seen, get?_marksLeft, descent_start own, Progress.building_opened,
        Entries.get?_insert_self]

theorem descent_ref (shaped : classify call.schema = .ok ⟨.ref reference, nullable⟩) :
    call.descent document rootName
      = (Descent.ofReference document reference call.site call.start).withOptional false := by
  have plain := classify_ref shaped
  rw [descent, descent_of_shape shaped, plain]
  rfl

/-- A call of some steps is its descent. -/
theorem run_eq_descent (document : Json) (rootName : String) {steps : Nat}
    (some : call.steps = steps + 1) : call.run document rootName
      = (call.descent document rootName).run (walk document rootName steps) := by
  rw [run, some, walk_succ_run]
  rfl

/-- A reference that is known is not asked for its target. -/
theorem run_of_known {type : DataType} (steps : call.steps ≠ 0)
    (shaped : classify call.schema = .ok ⟨.ref reference, nullable⟩)
    (known : Entries.get? reference call.start.known = some type) :
    call.run document rootName = .ok (type, call.start) := by
  obtain ⟨fewer, steps⟩ := Nat.exists_eq_succ_of_ne_zero steps
  rw [run_eq_descent document rootName steps, descent_ref shaped]
  refine Descent.run_withOptional_eq_ok.mpr ⟨type, ?_, (DataType.withOptional_false type).symm⟩
  simp only [Descent.ofReference, known]
  rfl

/-- **A reference that is not known is answered by the name of a mark just where the mark is.** -/
theorem run_eq_forward_iff {name : String} {target : Json} (steps : call.steps ≠ 0)
    (shaped : classify call.schema = .ok ⟨.ref reference, nullable⟩)
    (unknown : Entries.get? reference call.start.known = none)
    (resolved : Pointer.resolve? document reference = some target) :
    call.run document rootName
        = .ok (.classRef name, call.start.warn (.unresolvedCycle name reference)) ↔
      Entries.get? reference call.start.building = some name := by
  constructor
  · intro ran
    have walked : Walked document rootName call.schema call.site call.start _ _ := ⟨_, ran⟩
    obtain ⟨core, same, ⟨hit, -⟩ | ⟨own, marked, rfl, -⟩ | ⟨_, r, -, -, -, after⟩⟩ :=
      walked.step.outcome shaped
    · rw [unknown] at hit
      cases hit
    · rw [classify_ref shaped, DataType.withOptional_false] at same
      cases same
      exact marked
    -- After an expansion the reference is known.
    · have known : Entries.get? reference call.start.known = some core := by
        rw [← Progress.known_warn call.start (.unresolvedCycle name reference), after,
          Progress.known_remember, Entries.get?_insert_self]
      rw [unknown] at known
      cases known
  · intro marked
    obtain ⟨fewer, steps⟩ := Nat.exists_eq_succ_of_ne_zero steps
    rw [run_eq_descent document rootName steps, descent_ref shaped]
    refine Descent.run_withOptional_eq_ok.mpr
      ⟨.classRef name, ?_, (DataType.withOptional_false _).symm⟩
    simp only [Descent.ofReference, unknown, resolved, marked]
    rfl

/-- Where a call makes only one call, that one is made from it. -/
theorem inner_pair {first : List Call} {part last : Call}
    (listed : call.inner document rootName [] = [first, [part, last]]) :
    first = [call] ∧ call = last := by
  obtain ⟨steps, schema, site, start⟩ := call
  cases steps with
  | zero => cases listed
  | succ steps =>
      rw [inner, callsOf_succ] at listed
      obtain ⟨rfl, parts⟩ := List.cons.inj listed
      have only : _ = [] ++ [part, last] :: [] := parts
      obtain ⟨between, same⟩ := along_inside only
      cases between with
      | nil => exact ⟨rfl, (List.cons.inj same).1.symm⟩
      | cons k rest => cases rest <;> cases same

end Call

/-! ## Whole conversions -/

section Conversions

variable {document : Json} {rootName : String}

theorem exists_callsOf_of_definitions {steps : Nat} {definitions : List (String × Json)}
    {p : Progress} {stack : List Call} (none : p.building = [])
    (mem : stack ∈ callsOfDefinitions document rootName steps definitions p) :
    ∃ schema site q, q.building = [] ∧
      stack ∈ callsOf document rootName steps [] schema site q := by
  induction definitions generalizing p with
  | nil => cases mem
  | cons definition rest ih =>
      obtain ⟨path, schema⟩ := definition
      rcases List.mem_append.mp mem with first | later
      · exact ⟨schema, .ofReference path, p.startResolving path, none, first⟩
      · cases ran : (walk document rootName steps schema (.ofReference path)).run
            (p.startResolving path) with
        | error e => simp [ran] at later
        | ok out =>
            simp only [ran] at later
            have head : DefinitionsWalked document rootName [(path, schema)] p
                (out.2.stopResolving path) := .cons ⟨steps, ran⟩ .nil
            exact ih (head.building_eq_nil none) later

/-- Every call belongs to the walk of a definition or of the document, which begins without marks of
objects. -/
theorem exists_callsOf {stack : List Call} (mem : stack ∈ calls document rootName) :
    ∃ schema site p, p.building = [] ∧ stack ∈ callsOf document (Identifier.pascal rootName)
      (walkBound document) [] schema site p := by
  rcases List.mem_append.mp mem with first | last
  · exact exists_callsOf_of_definitions rfl first
  · cases ran : (walkDefinitions (walk document (Identifier.pascal rootName) (walkBound document))
        (Pointer.definitions document)).run .initial with
    | error e => simp [ran] at last
    | ok out =>
        simp only [ran] at last
        have walked := DefinitionsWalked.of_run ran
        exact ⟨document, .root, out.2, walked.building_eq_nil rfl, last⟩

/-- A walk of a document ends as it began, but for the document itself. -/
theorem walkDocument_restores {type : DataType} {q : Progress}
    (h : (walkDocument document (walk document (Identifier.pascal rootName)
      (walkBound document))).run {} = .ok (type, q)) :
    q.resolving = [Pointer.root] ∧ q.building = [] := by
  obtain ⟨_, _, start, h⟩ := Walk.run_bind_eq_ok.mp h
  cases start
  obtain ⟨_, p, definitions, whole⟩ := Walk.run_bind_eq_ok.mp h
  have walked := DefinitionsWalked.of_run definitions
  have keeps := Walked.keeps ⟨_, whole⟩
  have none : p.building = [] := walked.building_eq_nil rfl
  refine ⟨keeps.resolving.trans (walked.resolving_eq_root (List.append_nil _)), ?_⟩
  have kept := (keeps.building (none ▸ List.nodup_nil)).2
  rw [none] at kept
  exact List.eq_nil_iff_forall_not_mem.mpr fun mark mem => List.not_mem_nil (kept mark mem)

/-- **A call leaves what is being resolved as it was, and of the marks of objects those at whose
paths it converts none.** An object under construction keeps its mark, with the name that it was
given, until an object is converted at its path inside it, and so long a reference to it that is not
known yet is answered by the name. What is not under construction has no mark, and a walk that is
done leaves none. -/
theorem calls_restore (document : Json) (rootName : String) :
    (∀ call outer, call :: outer ∈ calls document rootName →
      (∀ type q, call.run document (Identifier.pascal rootName) = .ok (type, q) →
        q.resolving = call.start.resolving ∧
        q.building = marksLeft (call.inner document (Identifier.pascal rootName) outer)
          call.start.building ∧
        (q.building = call.start.building ↔ ∀ mark ∈ call.start.building,
          ∀ stack ∈ call.inner document (Identifier.pascal rootName) outer,
            convertsAt mark.1 stack = false)) ∧
      (∀ path, (∀ k ∈ outer, k.builds path = false) →
        Entries.get? path call.start.building = none) ∧
      ∀ name earlier part between later,
        call.className? (Identifier.pascal rootName) = some name →
        call.inner document (Identifier.pascal rootName) outer
          = (call :: outer) :: (earlier ++ (part :: (between ++ call :: outer)) :: later) →
        (∀ k ∈ between, k.builds call.site.path = false) →
          Entries.get? call.site.path part.start.building
              = (if earlier.any (convertsAt call.site.path) then none else some name) ∧
          ∀ optional, classify part.schema = .ok ⟨.ref call.site.path, optional⟩ →
            (∀ type, Entries.get? call.site.path part.start.known = some type →
              part.run document (Identifier.pascal rootName) = .ok (type, part.start)) ∧
            ∀ target, Entries.get? call.site.path part.start.known = none →
              Pointer.resolve? document call.site.path = some target →
                (part.run document (Identifier.pascal rootName) = .ok (.classRef name,
                    part.start.warn (.unresolvedCycle name call.site.path)) ↔
                  earlier.any (convertsAt call.site.path) = false)) ∧
    ∀ type q, (walkDocument document (walk document (Identifier.pascal rootName)
        (walkBound document))).run {} = .ok (type, q) →
      q.resolving = [Pointer.root] ∧ q.building = [] := by
  refine ⟨fun call outer mem => ?_, fun type q => walkDocument_restores⟩
  obtain ⟨schema, site, p, none, among⟩ := exists_callsOf mem
  have distinct : (Entries.names call.start.building).Nodup :=
    callsOf_distinct among (none ▸ List.nodup_nil)
  refine ⟨?_, fun path => callsOf_get?_building_eq_none none among, ?_⟩
  · intro type q ran
    have left : q.building = marksLeft (call.inner document (Identifier.pascal rootName) outer)
        call.start.building := callsOf_building ran distinct
    refine ⟨(Walked.keeps ⟨_, ran⟩).resolving, left, ?_⟩
    rw [left, marksLeft_eq_self_iff]
  · intro name earlier part between later named split apart
    have seen := Call.get?_building_inner distinct named split apart
    refine ⟨seen, fun optional shaped => ?_⟩
    have listed : part :: (between ++ call :: outer)
        ∈ call.inner document (Identifier.pascal rootName) outer := by
      rw [split]
      exact List.mem_cons_of_mem _ (List.mem_append_right _ List.mem_cons_self)
    have steps := steps_ne_zero_of_mem listed
    refine ⟨fun type => Call.run_of_known steps shaped, fun target unknown resolved => ?_⟩
    rw [Call.run_eq_forward_iff steps shaped unknown resolved, seen]
    cases earlier.any (convertsAt call.site.path) <;> simp

end Conversions

/-- Whether the only call converts an object at the path into a class and makes one call, which
answers a reference to the path by the name of the class. -/
def answersItself (document : Json) (rootName path name : String) : List Call → Bool
  | [call] => call.site.path = path && call.className? rootName = some name &&
      match call.inner document rootName [] with
      | [_, [part, _]] => part.forward? document = some (path, name)
      | _ => false
  | _ => false

/-- A plain node answers the reference inside it by its name. -/
theorem calls_restore_plainNode : ∃ call part, [call] ∈ calls plainNode "Node" ∧
    [part, call] ∈ call.inner plainNode (Identifier.pascal "Node") [] ∧
    part.run plainNode (Identifier.pascal "Node")
      = .ok (.classRef "Node", part.start.warn (.unresolvedCycle "Node" "#")) := by
  have found : (calls plainNode "Node").any (answersItself plainNode (Identifier.pascal "Node") "#"
      "Node") = true := by decide +kernel
  obtain ⟨stack, mem, passed⟩ := List.any_eq_true.mp found
  unfold answersItself at passed
  split at passed
  · next call =>
      simp only [Bool.and_eq_true, decide_eq_true_eq] at passed
      obtain ⟨⟨path, named⟩, answers⟩ := passed
      split at answers
      · next first part last listed =>
          obtain ⟨_, target, shaped, unknown, resolved, -⟩ :=
            Call.forward?_eq_some (of_decide_eq_true answers)
          obtain ⟨rfl, rfl⟩ : first = [call] ∧ call = last := Call.inner_pair listed
          rw [← path] at shaped unknown resolved
          have answered := (((calls_restore plainNode "Node").1 call [] mem).2.2 "Node" [] part []
            [] named listed nofun).2 _ shaped
          refine ⟨call, part, mem, ?_, path ▸ (answered.2 target unknown resolved).mpr rfl⟩
          rw [listed]
          exact List.mem_cons_of_mem _ List.mem_cons_self
      · cases answers
  · cases passed

/-- A menu whose entries have menus of their own and next entries. -/
def menuTree : Json :=
  .obj [("$ref", .str "#/$defs/Menu/properties/entries"),
    ("$defs", .obj [("Menu", .obj [("properties", .obj [("entries", .obj [("items",
      .obj [("properties", .obj [("submenu", .obj [("$ref", .str "#/$defs/Menu")]),
        ("next", .obj [("$ref", .str "#/$defs/Menu/properties/entries/items")])])])])])])])]

/-- Whether the innermost call is done with other marks than it began with. -/
def changesMarks (document : Json) (rootName : String) : List Call → Bool
  | [] => false
  | call :: _ =>
      match call.run document rootName with
      | .ok (_, q) => q.building ≠ call.start.building
      | .error _ => false

/-- Whether the innermost call gives one class for a reference to the object that is converted
around it into another. -/
def strays (document : Json) (rootName path given owner : String) : List Call → Bool
  | part :: builder :: _ => Walk.textAt "$ref" part.schema = some path &&
      builder.site.path = path && builder.className? rootName = some owner &&
        part.type? document rootName = some (.classRef given)
  | _ => false

/-- The submenu of an entry converts entries at the same path and takes the mark of the outer one
off, so the next entry is converted once more and under another name. -/
theorem calls_not_restore_menuTree :
    (convert menuTree "Root").isOk = true ∧
    (∃ call outer type q, call :: outer ∈ calls menuTree "Root" ∧
      call.run menuTree (Identifier.pascal "Root") = .ok (type, q) ∧
        q.building ≠ call.start.building) ∧
    ∃ part builder outer, part :: builder :: outer ∈ calls menuTree "Root" ∧
      Walk.textAt "$ref" part.schema = some builder.site.path ∧
        builder.className? (Identifier.pascal "Root") = some "Entries" ∧
          part.type? menuTree (Identifier.pascal "Root") = some (.classRef "Items") := by
  refine ⟨by decide +kernel, ?_, ?_⟩
  · have found : (calls menuTree "Root").any (changesMarks menuTree (Identifier.pascal "Root"))
        = true := by decide +kernel
    obtain ⟨stack, mem, passed⟩ := List.any_eq_true.mp found
    unfold changesMarks at passed
    split at passed
    · cases passed
    · next call outer =>
        split at passed
        · next type q ran => exact ⟨call, outer, type, q, mem, ran, of_decide_eq_true passed⟩
        · cases passed
  · have found : (calls menuTree "Root").any (strays menuTree (Identifier.pascal "Root")
        "#/$defs/Menu/properties/entries/items" "Items" "Entries") = true := by decide +kernel
    obtain ⟨stack, mem, passed⟩ := List.any_eq_true.mp found
    unfold strays at passed
    split at passed
    · next part builder outer =>
        simp only [Bool.and_eq_true, decide_eq_true_eq] at passed
        obtain ⟨⟨⟨reference, path⟩, named⟩, given⟩ := passed
        exact ⟨part, builder, outer, mem, path ▸ reference, named, given⟩
    · cases passed

end SchemaLoom
