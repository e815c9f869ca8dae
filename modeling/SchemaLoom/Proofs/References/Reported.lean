import SchemaLoom.Proofs.References.Forward

set_option autoImplicit false

/-! # Forward answers are reported

A conversion warns of every reference that it answers by the name of a class under construction,
and of nothing else in these words: its warnings of that kind are, in order, the forward answers
among its calls. So `Call.forward?` misses no answer, and whether a conversion gave one can be read
off its warnings.
-/

namespace SchemaLoom

/-- The reference and the name of the class that a warning reports. -/
def Warning.forward? : Warning → Option (String × String)
  | unresolvedCycle name reference => some (reference, name)
  | _ => none

/-- The forward answers that have been reported. -/
def Progress.reported (p : Progress) : List (String × String) :=
  p.warnings.filterMap Warning.forward?

/-- The forward answers among calls. -/
def forwards (document : Json) (listed : List (List Call)) : List (String × String) :=
  listed.filterMap fun stack => stack.head?.bind (Call.forward? document)

/-! ## Steps that report nothing -/

namespace Progress

variable (p : Progress)

theorem reported_warn (w : Warning) :
    (p.warn w).reported = p.reported ++ w.forward?.toList := by
  cases w <;> simp [reported, warn, Warning.forward?]

/-- Warnings of other kinds report no answer. -/
theorem reported_of_warnings {q : Progress} {more : List Warning}
    (h : q.warnings = p.warnings ++ more) (other : ∀ w ∈ more, w.forward? = none) :
    q.reported = p.reported := by
  have silent : more.filterMap Warning.forward? = [] := List.filterMap_eq_nil_iff.mpr other
  unfold reported
  rw [h, List.filterMap_append, silent, List.append_nil]

theorem reported_opened (rootName : String) (object : Entries Json) (site : Site) :
    (p.opened rootName object site).reported = p.reported := by
  refine p.reported_of_warnings (warnings_opened ..) ?_
  intro w mem
  rcases p.mem_openWarnings _ _ _ mem with rfl | ⟨rfl, -⟩ <;> rfl

theorem reported_closed (path : String) (slot : Nat) (c : DataClass) :
    (p.closed path slot c).reported = p.reported := by
  refine p.reported_of_warnings (warnings_closed ..) ?_
  intro w mem
  obtain ⟨-, rfl⟩ := (p.mem_placeWarnings _).mp mem
  rfl

theorem reported_afterConst (value : Json) (site : Site) :
    (Walk.afterConst p value site).reported = p.reported := by
  refine p.reported_of_warnings (Walk.warnings_afterConst ..) ?_
  intro w mem
  obtain ⟨_, -, -, rfl⟩ := Walk.mem_constWarnings _ _ mem
  rfl

theorem reported_afterEnum (schema : Json) (name : Identifier.Resolved)
    (values : List EnumMember) :
    (Walk.afterEnum p schema name values).reported = p.reported := by
  refine p.reported_of_warnings ((Walk.warnings_afterEnum ..).trans (List.append_assoc ..)) ?_
  intro w mem
  rcases List.mem_append.mp mem with named | placed
  · rw [p.mem_nameWarnings _ _ named]
    rfl
  · obtain ⟨-, rfl⟩ := (p.mem_placeWarnings _).mp placed
    rfl

end Progress

/-! ## Calls and their reports -/

section Reports

variable {document : Json} {rootName : String}

theorem forwards_append (some more : List (List Call)) :
    forwards document (some ++ more) = forwards document some ++ forwards document more :=
  List.filterMap_append ..

theorem forwards_cons (call : Call) (outer : List Call) (more : List (List Call)) :
    forwards document ((call :: outer) :: more)
      = (call.forward? document).toList ++ forwards document more := by
  cases found : call.forward? document with
  | none => simp [forwards, found]
  | some answer => simp [forwards, found]

/-- What visits report is listed along them. -/
theorem Chain.reported {visit : Visit} {list : Json → Site → Progress → List (List Call)}
    {parts : List (Json × Site)} {p q : Progress} {types : List DataType}
    (chain : Chain (WalkStep.OfVisit visit) parts p types q)
    (each : ∀ {schema site p type q}, WalkStep.OfVisit visit schema site p type q →
      q.reported = p.reported ++ forwards document (list schema site p)) :
    q.reported = p.reported ++ forwards document (Walk.along list visit parts p) := by
  induction chain with
  | nil => exact (List.append_nil _).symm
  | @cons schema site rest p q r type types head tail ih =>
      have ran : (visit schema site).run p = .ok (type, q) := head
      rw [ih, each head]
      simp only [Walk.along, ran, forwards_append, List.append_assoc]

/-- Whether a shape is a reference. -/
def Shape.isRef : Shape → Bool
  | ref _ => true
  | _ => false

/-- A call whose node is no reference answers none. -/
theorem Call.forward?_of_shape {call : Call} {shape : Shape} {nullable : Bool}
    (shaped : classify call.schema = .ok ⟨shape, nullable⟩) (other : shape.isRef = false) :
    call.forward? document = none := by
  unfold forward?
  rw [shaped]
  cases shape with
  | ref reference => cases other
  | _ => rfl

/-- What a completed step reports besides its own answer is what its parts report. -/
theorem reported_of_parts {steps : Nat} {inside : List Call} {schema : Json} {site : Site}
    {p start q : Progress} {shape : Shape} {nullable : Bool} {parts : List (Json × Site)}
    {types : List DataType}
    (each : ∀ {outer schema site p type q},
      WalkStep.OfVisit (walk document rootName steps) schema site p type q →
        q.reported = p.reported
          ++ forwards document (callsOf document rootName steps outer schema site p))
    (shaped : classify schema = .ok ⟨shape, nullable⟩)
    (other : Call.forward? document ⟨steps + 1, schema, site, p⟩ = none)
    (begins : (Descent.ofShape document rootName schema site p shape).start = start)
    (has : (Descent.ofShape document rootName schema site p shape).parts = parts)
    (silent : start.reported = p.reported)
    (chain : Chain (WalkStep.OfVisit (walk document rootName steps)) parts start types q) :
    q.reported = p.reported
      ++ forwards document (callsOf document rootName (steps + 1) inside schema site p) := by
  have descends := descent_of_shape shaped document rootName site p
  have within {schema' : Json} {site' : Site} {p' q' : Progress} {type : DataType}
      (part : WalkStep.OfVisit (walk document rootName steps) schema' site' p' type q') :
      q'.reported = p'.reported ++ forwards document (callsOf document rootName steps
        (⟨steps + 1, schema, site, p⟩ :: inside) schema' site' p') := each part
  have visited := chain.reported within
  unfold callsOf
  rw [forwards_cons, other, descends]
  show _ = _ ++ forwards document (Walk.along _ _
    (Descent.ofShape document rootName schema site p shape).parts
    (Descent.ofShape document rootName schema site p shape).start)
  rw [begins, has, ← silent]
  exact visited

theorem callsOf_reported {steps : Nat} {inside : List Call} {schema : Json} {site : Site}
    {p q : Progress} {type : DataType}
    (h : (walk document rootName steps schema site).run p = .ok (type, q)) :
    q.reported = p.reported
      ++ forwards document (callsOf document rootName steps inside schema site p) := by
  induction steps generalizing inside schema site p type q with
  | zero => cases h
  | succ steps ih =>
      rw [walk_succ_run] at h
      cases WalkStep.of_descent h with
      | @plain shape nullable core shaped typed =>
          cases shape with
          | array items? =>
              cases items? with
              | none =>
                  exact reported_of_parts ih shaped (Call.forward?_of_shape shaped rfl) rfl rfl
                    rfl .nil
              | some items => cases typed
          | never | any | null | scalar | scalarUnion =>
              exact reported_of_parts ih shaped (Call.forward?_of_shape shaped rfl) rfl rfl rfl
                .nil
          | ref | single | union | const | enum | object => cases typed
      | const shaped typed =>
          rw [Progress.reported_afterConst]
          exact reported_of_parts ih shaped (Call.forward?_of_shape shaped rfl) rfl rfl rfl .nil
      | enum shaped named read =>
          rw [Progress.reported_afterEnum]
          exact reported_of_parts ih shaped (Call.forward?_of_shape shaped rfl) rfl rfl rfl .nil
      | known shaped hit =>
          refine reported_of_parts ih shaped ?_ ?_ ?_ rfl .nil
          · simp [Call.forward?, shaped, hit]
          · simp [Descent.ofShape, Descent.ofReference, hit, Descent.leaf]
          · simp [Descent.ofShape, Descent.ofReference, hit, Descent.leaf]
      | @forward reference nullable target name shaped miss resolved building =>
          have answer : Call.forward? document ⟨steps + 1, schema, site, p⟩
              = some (reference, name) := by
            simp [Call.forward?, shaped, miss, resolved, building]
          have leaf : (descent document rootName schema site p).parts = [] := by
            rw [descent_of_shape shaped]
            simp [Descent.withOptional, Descent.ofShape, Descent.ofReference, miss, resolved,
              building, Descent.leaf]
          simp only [callsOf, forwards_cons, answer, leaf, Walk.along, Progress.reported_warn]
          rfl
      | @expand reference nullable target core r shaped miss resolved building resolving part =>
          have silent : (p.startResolving reference).reported = p.reported := rfl
          show r.reported = _
          refine reported_of_parts ih shaped ?_ ?_ ?_ silent (.cons part .nil)
          · simp [Call.forward?, shaped, miss, resolved, building]
          · simp [Descent.ofShape, Descent.ofReference, miss, resolved, building, resolving,
              Descent.expansion, Descent.through]
          · simp [Descent.ofShape, Descent.ofReference, miss, resolved, building, resolving,
              Descent.expansion, Descent.through]
      | single shaped part =>
          exact reported_of_parts ih shaped (Call.forward?_of_shape shaped rfl) rfl rfl rfl
            (.cons part .nil)
      | union shaped chain =>
          exact reported_of_parts ih shaped (Call.forward?_of_shape shaped rfl) rfl rfl rfl chain
      | object shaped named split chain =>
          subst named
          rw [Progress.reported_closed]
          refine reported_of_parts ih shaped (Call.forward?_of_shape shaped rfl) rfl ?_
            (Progress.reported_opened ..) chain
          simp [Descent.ofShape, Descent.ofObject, split]
      | items shaped part =>
          exact reported_of_parts ih shaped (Call.forward?_of_shape shaped rfl) rfl rfl rfl
            (.cons part .nil)

theorem callsOfDefinitions_reported {steps : Nat} {definitions : List (String × Json)}
    {p q : Progress} {u : Unit}
    (h : (walkDefinitions (walk document rootName steps) definitions).run p = .ok (u, q)) :
    q.reported = p.reported
      ++ forwards document (callsOfDefinitions document rootName steps definitions p) := by
  induction definitions generalizing p with
  | nil =>
      cases h
      exact (List.append_nil _).symm
  | cons definition rest ih =>
      obtain ⟨path, schema⟩ := definition
      obtain ⟨type, r, head, h⟩ := walkDefinitions_cons h
      have first : r.reported = p.reported ++ forwards document
          (callsOf document rootName steps [] schema (.ofReference path) (p.startResolving path)) :=
        callsOf_reported head
      have later : q.reported = r.reported ++ forwards document
          (callsOfDefinitions document rootName steps rest (r.stopResolving path)) := ih h
      rw [later, first]
      simp only [callsOfDefinitions, head, forwards_append, List.append_assoc]

/-- **The warnings of a conversion about references into objects under construction are its forward
answers, in order.** -/
theorem convert_reported {c : Conversion} (h : convert document rootName = .ok c) :
    c.warnings.filterMap Warning.forward? = forwards document (calls document rootName) := by
  obtain ⟨q, walked, -, warnings⟩ := convert_run h
  obtain ⟨u, p, definitions, walked⟩ := Walk.run_bind_eq_ok.mp walked
  have before := callsOfDefinitions_reported definitions
  have after : q.reported = p.reported ++ forwards document (callsOf document
      (Identifier.pascal rootName) (walkBound document) [] document .root p) :=
    callsOf_reported walked
  rw [before] at after
  rw [warnings]
  simp only [calls, definitions, forwards_append]
  exact after

end Reports

end SchemaLoom
