import SchemaLoom.Proofs.Walk.Calls

set_option autoImplicit false

/-! # Where calls end

A call of a conversion that succeeds ends with a type and a progress, and what the progress holds
by then, the models, the known types and the warnings, is still there when the conversion is done
(`calls_end`). So what two calls have in common with the end of the conversion, they have in common
with each other, however far apart they are.
-/

namespace SchemaLoom

variable {document : Json} {rootName : String}

/-! ## The end of a call within the end of a conversion -/

/-- What is made of the types of the parts takes nothing away. -/
theorem Call.finish_precedes (call : Call) {types : List DataType} {r q : Progress}
    {type : DataType}
    (chain : Chain (Walked document rootName) (call.descent document rootName).parts
      (call.descent document rootName).start types r)
    (made : ((call.descent document rootName).finish types).run r = .ok (type, q)) :
    r.Precedes q := by
  rcases descent_cases document rootName call.schema call.site call.start with stays |
    ⟨reference, target, jumps⟩
  · exact (stays.finish types).precedes made
  · obtain ⟨models, warnings, t, known⟩ := jumps.finish made
    have keeps := Progress.Keeps.of_chain chain fun part => part.keeps
    unfold Call.descent at keeps
    rw [jumps.start] at keeps
    -- The reference that is remembered now was not known before.
    have unknown : Entries.get? reference r.known = none :=
      keeps.unknown reference (call.start.mem_startResolving.mpr (Or.inl rfl)) jumps.unknown
    refine ⟨fun _ there => models ▸ there, ?_, fun _ there => warnings ▸ there⟩
    intro other before there
    have differ : other ≠ reference := by
      rintro rfl
      rw [unknown] at there
      cases there
    rwa [known, Entries.get?_insert_of_ne differ]

theorem callsOf_end {steps : Nat} {inside : List Call} {schema : Json} {site : Site}
    {p q : Progress} {type : DataType}
    (h : (walk document rootName steps schema site).run p = .ok (type, q)) :
    ∀ {call outer}, call :: outer ∈ callsOf document rootName steps inside schema site p →
      ∃ given r, call.run document rootName = .ok (given, r) ∧ r.Precedes q := by
  induction steps generalizing inside schema site p type q with
  | zero => cases h
  | succ steps ih =>
      intro call outer mem
      rcases List.mem_cons.mp mem with same | mem
      · cases same
        exact ⟨type, q, h, .refl q⟩
      · have parts := h
        rw [walk_succ_run] at parts
        obtain ⟨types, r, chain, made⟩ := Descent.run_eq_ok.mp parts
        have walked := chain.imp fun {_ _ _ _ _} visited => (⟨steps, visited⟩ : Walked ..)
        have finish := Call.finish_precedes ⟨steps + 1, schema, site, p⟩ walked made
        refine chain.along (motive := fun call _ => ∃ given s,
          call.run document rootName = .ok (given, s) ∧ s.Precedes q)
          (fun visited => ⟨steps, visited⟩) ?_ mem
        -- From the end of the part, the parts after it lead to the end of the whole.
        intro before part after given s split prior ⟨t, u, more, ran, later⟩ inner within listed
        obtain ⟨given, v, run, precedes⟩ := ih ran listed
        have rest : u.Precedes r := .of_chain later fun part => part.precedes
        exact ⟨given, v, run, (precedes.trans rest).trans finish⟩

theorem callsOfDefinitions_end {steps : Nat} {definitions : List (String × Json)}
    {p q : Progress} {u : Unit}
    (h : (walkDefinitions (walk document rootName steps) definitions).run p = .ok (u, q)) :
    ∀ {call outer}, call :: outer ∈ callsOfDefinitions document rootName steps definitions p →
      ∃ given r, call.run document rootName = .ok (given, r) ∧ r.Precedes q := by
  induction definitions generalizing p with
  | nil =>
      intro call outer mem
      cases mem
  | cons definition rest ih =>
      obtain ⟨path, schema⟩ := definition
      obtain ⟨type, r, head, h⟩ := walkDefinitions_cons h
      intro call outer mem
      simp only [callsOfDefinitions, head] at mem
      rcases List.mem_append.mp mem with first | later
      · obtain ⟨given, s, run, precedes⟩ := callsOf_end head first
        have stop := precedes.trans (r.precedes_stopResolving path)
        exact ⟨given, s, run, stop.trans (DefinitionsWalked.of_run h).precedes⟩
      · exact ih h later

/-! ## Types that are known -/

/-- Every type that is known came from a walk of the target of its reference. -/
def Progress.Justified (document : Json) (rootName : String) (p : Progress) : Prop :=
  ∀ reference type, Entries.get? reference p.known = some type →
    ∃ target q r, Pointer.resolve? document reference = some target ∧
      Walked document rootName target (.ofReference reference) q type r

theorem Progress.Justified.congr {p q : Progress} (h : p.Justified document rootName)
    (known : q.known = p.known) : q.Justified document rootName := by
  unfold Justified
  rwa [known]

theorem Walked.justified {schema : Json} {site : Site} {p q : Progress} {type : DataType}
    (h : Walked document rootName schema site p type q) :
    p.Justified document rootName → q.Justified document rootName := by
  refine Walked.induct (motive := fun _ _ p _ q => p.Justified document rootName →
    q.Justified document rootName) ?_ h
  intro _ _ p _ q rule justified
  cases rule with
  | plain => exact justified
  | const => exact justified.congr (Walk.known_afterConst ..)
  | enum => exact justified.congr (Walk.known_afterEnum ..)
  | known => exact justified
  | forward => exact justified
  | @expand reference _ target core r _ _ resolved _ _ part =>
      intro other type known
      by_cases same : other = reference
      · rw [same, Progress.known_remember, Entries.get?_insert_self] at known
        cases known
        rw [same]
        exact ⟨target, _, _, resolved, part.1⟩
      · rw [Progress.known_remember, Entries.get?_insert_of_ne same] at known
        exact part.2 justified other type known
  | single _ part => exact part.2 justified
  | union _ parts =>
      exact parts.invariant (Progress.Justified document rootName) (fun part => part.2) justified
  | object _ _ _ parts =>
      have fields := parts.invariant (Progress.Justified document rootName) (fun part => part.2)
        (justified.congr (Progress.known_opened ..))
      exact fields.congr (Progress.known_closed ..)
  | items _ part => exact part.2 justified

theorem DefinitionsWalked.justified {definitions : List (String × Json)} {p q : Progress}
    (h : DefinitionsWalked document rootName definitions p q)
    (justified : p.Justified document rootName) : q.Justified document rootName := by
  induction h with
  | nil => exact justified
  | cons head _ ih => exact ih (head.justified justified)

/-! ## Whole conversions -/

/-- **What calls of a conversion have by their ends is there when the conversion is done.** -/
theorem calls_end {c : Conversion} (h : convert document rootName = .ok c) :
    ∃ z : Progress, c.models = z.models ∧ c.warnings = z.warnings ∧
      z.Justified document (Identifier.pascal rootName) ∧
      ∀ {call outer}, call :: outer ∈ calls document rootName →
        ∃ given r, call.run document (Identifier.pascal rootName) = .ok (given, r) ∧
          r.Precedes z := by
  obtain ⟨z, walked, models, warnings⟩ := convert_run h
  obtain ⟨u, p, definitions, walked⟩ := Walk.run_bind_eq_ok.mp walked
  have root : Walked document (Identifier.pascal rootName) document .root p c.root z := ⟨_, walked⟩
  have none : Progress.initial.Justified document (Identifier.pascal rootName) := nofun
  refine ⟨z, models, warnings, root.justified ((DefinitionsWalked.of_run definitions).justified
    none), ?_⟩
  intro call outer mem
  simp only [calls, definitions] at mem
  rcases List.mem_append.mp mem with first | last
  · obtain ⟨given, r, run, precedes⟩ := callsOfDefinitions_end definitions first
    exact ⟨given, r, run, precedes.trans root.precedes⟩
  · exact callsOf_end walked last

/-- A call that is made from another one is made for a part of it. -/
theorem calls_made {c : Conversion} (h : convert document rootName = .ok c) {call maker : Call}
    {outer : List Call} (mem : call :: maker :: outer ∈ calls document rootName) :
    maker.Makes document (Identifier.pascal rootName) call := by
  refine calls_forall (motive := fun call outer => ∀ maker rest, outer = maker :: rest →
    maker.Makes document (Identifier.pascal rootName) call) h ?_ ?_ ?_ mem maker outer rfl
  · rintro call outer part - makes - maker rest same
    cases same
    exact makes
  · rintro call before path p type - - - - - maker rest same
    cases same
  · rintro call type - - - - maker rest same
    cases same

/-- The call that a reference makes is of its target. -/
theorem Call.Makes.of_ref {call part : Call} {reference : String} {nullable : Bool}
    (makes : call.Makes document rootName part)
    (shaped : classify call.schema = .ok ⟨.ref reference, nullable⟩) :
    Pointer.resolve? document reference = some part.schema ∧
      part.site = .ofReference reference := by
  have hands := makes.hands
  cases part with
  | mk steps schema site start =>
      cases hands with
      | target again resolved =>
          rw [shaped] at again
          cases again
          exact ⟨resolved, rfl⟩
      | single again | member again | property again | items again =>
          rw [shaped] at again
          cases again

theorem exists_mem_callsOfDefinitions {steps : Nat} {definitions : List (String × Json)}
    {p q : Progress} {u : Unit}
    (h : (walkDefinitions (walk document rootName steps) definitions).run p = .ok (u, q))
    {path : String} {schema : Json} (mem : (path, schema) ∈ definitions) :
    ∃ r, [⟨steps, schema, .ofReference path, r⟩]
      ∈ callsOfDefinitions document rootName steps definitions p := by
  induction definitions generalizing p with
  | nil => cases mem
  | cons definition rest ih =>
      obtain ⟨key, inner⟩ := definition
      obtain ⟨type, r, head, h⟩ := walkDefinitions_cons h
      simp only [callsOfDefinitions, head]
      rcases List.mem_cons.mp mem with same | mem
      · cases same
        cases steps with
        | zero => cases head
        | succ steps =>
            exact ⟨p.startResolving path, List.mem_append_left _ List.mem_cons_self⟩
      · obtain ⟨s, listed⟩ := ih h mem
        exact ⟨s, List.mem_append_right _ listed⟩

/-- Every definition is converted by a call of its own. -/
theorem exists_call_of_definition {c : Conversion} (h : convert document rootName = .ok c)
    {path : String} {schema : Json} (mem : (path, schema) ∈ Pointer.definitions document) :
    ∃ call : Call, [call] ∈ calls document rootName ∧ call.schema = schema ∧
      call.site = .ofReference path := by
  obtain ⟨z, walked, -, -⟩ := convert_run h
  obtain ⟨u, p, definitions, -⟩ := Walk.run_bind_eq_ok.mp walked
  obtain ⟨r, listed⟩ := exists_mem_callsOfDefinitions definitions mem
  refine ⟨⟨walkBound document, schema, .ofReference path, r⟩, ?_, rfl, rfl⟩
  exact List.mem_append_left _ listed

end SchemaLoom
