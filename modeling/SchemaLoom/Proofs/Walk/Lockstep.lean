import SchemaLoom.Proofs.Json.Pointers
import SchemaLoom.Proofs.Walk.Parts

set_option autoImplicit false

/-! # Walks in lockstep

Two documents that share their definitions are walked alike where no reference leads elsewhere. A
walk of a schema at its place in the one document and a walk of the same schema at its place in the
other fail together, or give the same type and make the same models (`walk_agree`). What differs in
between does not matter: warnings tell paths, and the marks of objects under construction stand
under paths that no reference begins with.

`Walk.Agree` says this of two steps. Sequences keep it, so that every step of the walk is compared
as it is written, and the induction is on the number of steps that both walks may nest.
-/

namespace SchemaLoom

/-! ## References into definitions -/

namespace Pointer

/-- A reference to a definition or into one. -/
def IsShared (reference : String) : Prop :=
  ∃ container ∈ containers, ∃ rest, reference = root ++ "/" ++ container ++ "/" ++ rest

/-- No reference into definitions begins with the path. -/
def IsApart (path : String) : Prop := ∀ more, ¬ IsShared (path ++ more)

theorem IsApart.append {path : String} (h : IsApart path) (more : String) :
    IsApart (path ++ more) := by
  intro rest
  rw [String.append_assoc]
  exact h _

theorem IsApart.not_isShared {path : String} (h : IsApart path) : ¬ IsShared path := by
  have self := h ""
  rwa [String.append_empty] at self

end Pointer

/-! ## What matches -/

/-- Two sites of one schema: either they have the same path, or no reference leads below them. -/
structure Site.Matches (s s' : Site) : Prop where
  hint : s'.hint = s.hint
  notRoot : s.isRoot = false ∧ s'.isRoot = false
  path : s'.path = s.path ∨ (Pointer.IsApart s.path ∧ Pointer.IsApart s'.path)

theorem Site.Matches.refl {s : Site} (notRoot : s.isRoot = false) : s.Matches s :=
  ⟨rfl, ⟨notRoot, notRoot⟩, Or.inl rfl⟩

theorem Site.path_child (s : Site) (segment : String) (hint : Option String) :
    (s.child segment hint).path = s.path ++ ("/" ++ segment) :=
  String.append_assoc ..

theorem Site.Matches.child {s s' : Site} (h : s.Matches s') (segment : String)
    (hint : Option String) : (s.child segment hint).Matches (s'.child segment hint) where
  hint := rfl
  notRoot := ⟨rfl, rfl⟩
  path := by
    rw [Site.path_child, Site.path_child]
    rcases h.path with same | ⟨apart, apart'⟩
    · exact Or.inl (by rw [same])
    · exact Or.inr ⟨apart.append _, apart'.append _⟩

/-- The progress of two walks: they differ in warnings and in marks that no reference asks for. -/
structure Progress.Matches (p p' : Progress) : Prop where
  models : p'.models = p.models
  known : p'.known = p.known
  resolving : p'.resolving = p.resolving
  anonymous : p'.anonymous = p.anonymous
  building : ∀ reference, Pointer.IsShared reference →
    Entries.get? reference p'.building = Entries.get? reference p.building
  distinct : (Entries.names p.building).Nodup ∧ (Entries.names p'.building).Nodup

namespace Progress.Matches

variable {p p' : Progress}

theorem refl (distinct : (Entries.names p.building).Nodup) : p.Matches p :=
  ⟨rfl, rfl, rfl, rfl, fun _ _ => rfl, distinct, distinct⟩

theorem symm (h : p.Matches p') : p'.Matches p :=
  ⟨h.models.symm, h.known.symm, h.resolving.symm, h.anonymous.symm,
    fun reference shared => (h.building reference shared).symm, h.distinct.symm⟩

theorem warn_left (h : p.Matches p') (w : Warning) : (p.warn w).Matches p' :=
  ⟨h.models, h.known, h.resolving, h.anonymous, h.building, h.distinct⟩

theorem warn_right (h : p.Matches p') (w : Warning) : p.Matches (p'.warn w) :=
  (h.symm.warn_left w).symm

theorem startResolving (h : p.Matches p') (reference : String) :
    (p.startResolving reference).Matches (p'.startResolving reference) := by
  refine ⟨h.models, h.known, ?_, h.anonymous, h.building, h.distinct⟩
  simp only [Progress.startResolving, h.resolving]

theorem stopResolving (h : p.Matches p') (reference : String) :
    (p.stopResolving reference).Matches (p'.stopResolving reference) := by
  refine ⟨h.models, h.known, ?_, h.anonymous, h.building, h.distinct⟩
  simp only [Progress.stopResolving, h.resolving]

theorem remember (h : p.Matches p') (reference : String) (type : DataType) :
    (p.remember reference type).Matches (p'.remember reference type) := by
  refine ⟨h.models, ?_, h.resolving, h.anonymous, h.building, h.distinct⟩
  simp only [Progress.remember, h.known]

theorem nameOr_eq (h : p.Matches p') (stem : String) (given : Option Identifier.Resolved) :
    p'.nameOr stem given = p.nameOr stem given := by
  cases given with
  | some name => rfl
  | none => simp only [Progress.nameOr, Progress.freshName, h.anonymous]

theorem afterName (h : p.Matches p') (stem : String) (given : Option Identifier.Resolved) :
    (p.afterName stem given).Matches (p'.afterName stem given) := by
  cases given with
  | some name => exact h
  | none =>
      refine ⟨h.models, h.known, h.resolving, ?_, h.building, h.distinct⟩
      exact congrArg (· + 1) h.anonymous

theorem clashes_eq (h : p.Matches p') (m : DataModel) : p'.clashes m = p.clashes m := by
  simp only [clashes, h.models]

theorem place (h : p.Matches p') (slot : Nat) (m : DataModel) :
    (p.place slot m).Matches (p'.place slot m) := by
  have added {q q' : Progress} (same : q.Matches q') :
      ({ q with models := q.models.insertIdx slot m } : Progress).Matches
        { q' with models := q'.models.insertIdx slot m } :=
    ⟨congrArg (·.insertIdx slot m) same.models, same.known, same.resolving, same.anonymous,
      same.building, same.distinct⟩
  unfold Progress.place
  -- Whether names clash is told by the models, so that both warn or none does.
  rw [h.clashes_eq m]
  cases p.clashes m with
  | false => exact added h
  | true => exact added ((h.warn_left _).warn_right _)

/-- A mark under a path that is no reference into definitions is never asked for. -/
theorem startBuilding_left (h : p.Matches p') {path : String} (apart : ¬ Pointer.IsShared path)
    (name : String) : (p.startBuilding path name).Matches p' where
  models := h.models
  known := h.known
  resolving := h.resolving
  anonymous := h.anonymous
  building := by
    intro reference shared
    have other : reference ≠ path := fun same => apart (same ▸ shared)
    exact (h.building reference shared).trans (Entries.get?_insert_of_ne other ..).symm
  distinct := ⟨Entries.nodup_names_insert h.distinct.1, h.distinct.2⟩

theorem stopBuilding_left (h : p.Matches p') {path : String} (apart : ¬ Pointer.IsShared path) :
    (p.stopBuilding path).Matches p' where
  models := h.models
  known := h.known
  resolving := h.resolving
  anonymous := h.anonymous
  building := by
    intro reference shared
    have other : reference ≠ path := fun same => apart (same ▸ shared)
    exact (h.building reference shared).trans (Entries.get?_erase_of_ne other _).symm
  distinct := ⟨Entries.nodup_names_erase h.distinct.1, h.distinct.2⟩

theorem startBuilding_right (h : p.Matches p') {path : String} (apart : ¬ Pointer.IsShared path)
    (name : String) : p.Matches (p'.startBuilding path name) :=
  (h.symm.startBuilding_left apart name).symm

theorem stopBuilding_right (h : p.Matches p') {path : String} (apart : ¬ Pointer.IsShared path) :
    p.Matches (p'.stopBuilding path) :=
  (h.symm.stopBuilding_left apart).symm

/-- A mark may be set under the same path, or under paths that are never asked for. -/
theorem startBuilding (h : p.Matches p') {path path' : String}
    (paths : path' = path ∨ (¬ Pointer.IsShared path ∧ ¬ Pointer.IsShared path')) (name : String) :
    (p.startBuilding path name).Matches (p'.startBuilding path' name) := by
  rcases paths with rfl | ⟨apart, apart'⟩
  · refine ⟨h.models, h.known, h.resolving, h.anonymous, ?_,
      Entries.nodup_names_insert h.distinct.1, Entries.nodup_names_insert h.distinct.2⟩
    intro reference shared
    show Entries.get? reference (Entries.insert path' name p'.building)
      = Entries.get? reference (Entries.insert path' name p.building)
    by_cases same : reference = path'
    · rw [same, Entries.get?_insert_self, Entries.get?_insert_self]
    · rw [Entries.get?_insert_of_ne same, Entries.get?_insert_of_ne same,
        h.building reference shared]
  · exact (h.startBuilding_left apart name).startBuilding_right apart' name

theorem stopBuilding (h : p.Matches p') {path path' : String}
    (paths : path' = path ∨ (¬ Pointer.IsShared path ∧ ¬ Pointer.IsShared path')) :
    (p.stopBuilding path).Matches (p'.stopBuilding path') := by
  rcases paths with rfl | ⟨apart, apart'⟩
  · refine ⟨h.models, h.known, h.resolving, h.anonymous, ?_,
      Entries.nodup_names_erase h.distinct.1, Entries.nodup_names_erase h.distinct.2⟩
    intro reference shared
    show Entries.get? reference (Entries.erase path' p'.building)
      = Entries.get? reference (Entries.erase path' p.building)
    by_cases same : reference = path'
    · rw [same, Entries.get?_erase_self h.distinct.1, Entries.get?_erase_self h.distinct.2]
    · rw [Entries.get?_erase_of_ne same, Entries.get?_erase_of_ne same,
        h.building reference shared]
  · exact (h.stopBuilding_left apart).stopBuilding_right apart'

end Progress.Matches

/-! ## Steps that agree -/

/-- Two results: both are failures, or both give the same and end in progress that matches. -/
inductive Lockstep {α : Type} :
    Except SchemaError (α × Progress) → Except SchemaError (α × Progress) → Prop where
  | done {a : α} {p p' : Progress} (matched : p.Matches p') : Lockstep (.ok (a, p)) (.ok (a, p'))
  | failed {e e' : SchemaError} : Lockstep (.error e) (.error e')

namespace Walk

variable {α β : Type}

/-- From progress that matches, two steps end in lockstep. -/
def Agree (step step' : Walk α) : Prop :=
  ∀ p p', p.Matches p' → Lockstep (step.run p) (step'.run p')

namespace Agree

theorem pure (a : α) : Agree (Pure.pure a) (Pure.pure a) := fun _ _ => .done

theorem throw (e e' : SchemaError) :
    Agree (MonadExcept.throw e : Walk α) (MonadExcept.throw e') := fun _ _ _ => .failed

theorem bind {x x' : Walk α} {f f' : α → Walk β} (first : Agree x x')
    (next : ∀ a, Agree (f a) (f' a)) : Agree (x >>= f) (x' >>= f') := by
  intro p p' matched
  rw [StateT.run_bind, StateT.run_bind]
  have results := first p p' matched
  generalize x.run p = r at results
  generalize x'.run p' = r' at results
  cases results with
  | done matched => exact next _ _ _ matched
  | failed => exact .failed

theorem map {x x' : Walk α} (h : Agree x x') (f : α → β) :
    Agree (x >>= fun a => Pure.pure (f a)) (x' >>= fun a => Pure.pure (f a)) :=
  h.bind fun a => .pure (f a)

theorem change {f f' : Progress → Progress}
    (h : ∀ p p', p.Matches p' → (f p).Matches (f' p')) :
    Agree (modify f : Walk PUnit) (modify f') :=
  fun p p' matched => .done (h p p' matched)

end Agree

/-! ## Constants and enumerations -/

theorem agree_ofConst (value : Json) (site site' : Site) :
    Agree (ofConst value site) (ofConst value site') := by
  intro p p' matched
  have after : (afterConst p value site).Matches (afterConst p' value site') := by
    cases value with
    | num n =>
        cases small : n.toInt64? with
        | some i => simpa only [afterConst, small] using matched
        | none => simpa only [afterConst, small] using (matched.warn_left _).warn_right _
    | _ => exact matched
  rw [run_ofConst, run_ofConst]
  cases constType? value with
  | some type => exact .done after
  | none => exact .failed

/-- What is read off an enumeration does not depend on what an error would tell. -/
theorem enumMembers_eq_ok {owner path : String} {seen : Entries String} {literals : List Json}
    {out : List EnumMember × Bool} (read : enumMembers owner path seen literals = .ok out)
    (owner' path' : String) : enumMembers owner' path' seen literals = .ok out := by
  -- Owner and path stand in errors alone, and no branch that gives one was taken.
  induction literals generalizing seen out with
  | nil => exact read
  | cons literal rest ih =>
      unfold enumMembers at read ⊢
      cases literalText : literal.literalText? with
      | none =>
          simp only [literalText] at read ⊢
          split at read
          · next isNull =>
              rw [if_pos isNull]
              cases inner : enumMembers owner path seen rest with
              | error e =>
                  rw [inner] at read
                  cases read
              | ok others =>
                  rw [inner] at read
                  rw [ih inner]
                  exact read
          · cases read
      | some text =>
          simp only [literalText] at read ⊢
          split at read
          · cases read
          · next named =>
              rw [if_neg named]
              cases found : Entries.get? (Identifier.resolve .pascal text).identifier seen with
              | some first =>
                  simp only [found] at read ⊢
                  split at read
                  · next same =>
                      rw [if_pos same]
                      exact ih read
                  · cases read
              | none =>
                  simp only [found] at read ⊢
                  cases inner : enumMembers owner path
                      (((Identifier.resolve .pascal text).identifier, text) :: seen) rest with
                  | error e =>
                      rw [inner] at read
                      cases read
                  | ok others =>
                      rw [inner] at read
                      rw [ih inner]
                      exact read

theorem agree_ofEnum (schema : Json) (literals : List Json) (site site' : Site) :
    Agree (ofEnum schema literals site) (ofEnum schema literals site') := by
  intro p p' matched
  have named : enumNameOf p' schema = enumNameOf p schema := matched.nameOr_eq ..
  rw [run_ofEnum, run_ofEnum, named]
  cases read : enumMembers (enumNameOf p schema).identifier site.path [] literals with
  | ok out =>
      rw [enumMembers_eq_ok read _ site'.path]
      refine .done ?_
      unfold afterEnum
      rw [matched.models]
      exact (matched.afterName ..).place ..
  | error e =>
      cases read' : enumMembers (enumNameOf p schema).identifier site'.path [] literals with
      | ok out =>
          rw [enumMembers_eq_ok read' _ site.path] at read
          cases read
      | error e' => exact .failed

/-! ## Parts -/

variable {document document' : Json} {rootName rootName' : String} {visit visit' : Visit}
  {site site' : Site}

theorem agree_members (matched : site.Matches site') (keyword : UnionKeyword)
    {alternatives : List Json} (i : Nat)
    (visits : ∀ member ∈ alternatives, ∀ s s', s.Matches s' →
      Agree (visit member s) (visit' member s')) :
    Agree (members visit keyword site i alternatives)
      (members visit' keyword site' i alternatives) := by
  induction alternatives generalizing i with
  | nil => exact .pure []
  | cons member rest ih =>
      refine .bind (visits member List.mem_cons_self _ _ (matched.child ..)) fun type => ?_
      exact .map (ih (i + 1) fun other mem => visits other (List.mem_cons_of_mem _ mem)) _

theorem agree_fields {properties : List (String × Json)} (owner : String) (required : List String)
    (seen : Entries String)
    (visits : ∀ property ∈ properties, Agree (visit property.2 (propertySite site property.1))
      (visit' property.2 (propertySite site' property.1))) :
    Agree (fields visit owner required site seen properties)
      (fields visit' owner required site' seen properties) := by
  induction properties generalizing seen with
  | nil => exact .pure []
  | cons property rest ih =>
      obtain ⟨key, schema⟩ := property
      unfold fields
      by_cases unnamed : (Identifier.resolve .camel key).identifier = ""
      · simp only [if_pos unnamed]
        exact .throw _ _
      · simp only [if_neg unnamed]
        cases Entries.get? (Identifier.resolve .camel key).identifier seen with
        | some first => exact .throw _ _
        | none =>
            refine .bind (visits _ List.mem_cons_self) fun type => ?_
            exact .map (ih _ fun other mem => visits other (List.mem_cons_of_mem _ mem)) _

/-! ## Objects -/

/-- Two objects that differ in their definitions at most. -/
def SameBeside (keys : List String) (object object' : Entries Json) : Prop :=
  ∀ key, key ∉ keys → Entries.get? key object' = Entries.get? key object

/-- Objects agree that get the same name at places without a reference, or at the same place. -/
theorem agree_ofObject {object object' : Entries Json}
    (same : SameBeside Pointer.containers object object')
    (named : givenClassName? rootName' (textAt "title" (.obj object')) site'
      = givenClassName? rootName (textAt "title" (.obj object)) site)
    (paths : site'.path = site.path ∨
      (¬ Pointer.IsShared site.path ∧ ¬ Pointer.IsShared site'.path))
    (visits : ∀ property ∈ declared object, Agree (visit property.2 (propertySite site property.1))
      (visit' property.2 (propertySite site' property.1))) :
    Agree (ofObject rootName visit object site) (ofObject rootName' visit' object' site') := by
  have properties := same "properties" (by decide)
  have required : requiredKeys object' = requiredKeys object := by
    rw [requiredKeys, same "required" (by decide), ← requiredKeys]
  have opening : Agree (openClass rootName object site) (openClass rootName' object' site') := by
    intro p p' matched
    have name : p'.className rootName' object' site' = p.className rootName object site := by
      rw [Progress.className, Progress.className, named, matched.nameOr_eq]
    rw [run_openClass, run_openClass, name, matched.models]
    refine .done ?_
    unfold Progress.opened
    rw [name, named]
    refine Progress.Matches.startBuilding ?_ paths _
    have before := matched.afterName anonymousClass
      (givenClassName? rootName (textAt "title" (.obj object)) site)
    -- Whether further keys are allowed is only warned of, and warnings need not match.
    cases allowsMore object <;> cases allowsMore object'
    · exact before
    · exact before.warn_right _
    · exact before.warn_left _
    · exact (before.warn_left _).warn_right _
  refine .bind opening fun opened => ?_
  obtain ⟨name, slot⟩ := opened
  have filling : Agree (objectFields visit name.identifier object site)
      (objectFields visit' name.identifier object' site') := by
    unfold objectFields
    rw [properties, required]
    unfold declared at visits
    cases found : Entries.get? "properties" object with
    | none => exact .pure []
    | some value =>
        cases value with
        | obj members =>
            simp only [found] at visits
            exact agree_fields _ _ _ visits
        | _ => exact .throw _ _
  refine .bind filling fun fields => ?_
  intro p p' matched
  have described : textAt "description" (.obj object') = textAt "description" (.obj object) :=
    congrArg (·.bind Json.string?) (same "description" (by decide))
  have made : classOf object' name fields = classOf object name fields := by
    simp only [classOf, described]
  rw [run_closeClass, run_closeClass, made]
  exact .done ((matched.stopBuilding paths).place ..)

/-! ## References -/

theorem agree_ofReference {reference : String} (shared : Pointer.IsShared reference)
    (resolved : Pointer.resolve? document' reference = Pointer.resolve? document reference)
    (visits : ∀ target, Pointer.resolve? document reference = some target →
      Agree (visit target (.ofReference reference)) (visit' target (.ofReference reference))) :
    Agree (ofReference document visit reference site)
      (ofReference document' visit' reference site') := by
  intro p p' matched
  rw [ofReference_run, ofReference_run]
  unfold Descent.ofReference
  -- Each question that decides the descent has the same answer in both walks.
  rw [matched.known, resolved, matched.building reference shared, matched.resolving]
  cases Entries.get? reference p.known with
  | some type => exact .done matched
  | none =>
      cases target : Pointer.resolve? document reference with
      | none => exact .failed
      | some schema =>
          cases Entries.get? reference p.building with
          | some name => exact .done ((matched.warn_left _).warn_right _)
          | none =>
              by_cases resolving : reference ∈ p.resolving
              · simp only [if_pos resolving]
                exact .failed
              · simp only [if_neg resolving, Descent.run_expansion]
                have expanding : Agree (visit schema (.ofReference reference)
                      >>= Descent.expanded reference)
                    (visit' schema (.ofReference reference) >>= Descent.expanded reference) := by
                  refine .bind (visits schema target) fun type => ?_
                  refine .bind (.change fun q q' ended => ?_) fun _ => .pure type
                  exact (ended.stopResolving reference).remember reference type
                exact expanding _ _ (matched.startResolving reference)

/-! ## Nodes -/

/-- All references within the schema lead into definitions. -/
def Closed (schema : Json) : Prop := ∀ reference ∈ schema.references, Pointer.IsShared reference

theorem Closed.within {part whole : Json} (h : Closed whole) (within : part.Within whole) :
    Closed part := fun reference mem => h reference (within.references_subset mem)

/-- Visits of closed schemas agree at sites that match. -/
def VisitsAgree (visit visit' : Visit) : Prop :=
  ∀ schema site site', Closed schema → site.Matches site' →
    Agree (visit schema site) (visit' schema site')

theorem givenClassName?_eq (matched : site.Matches site') (title : Option String) :
    givenClassName? rootName' title site' = givenClassName? rootName title site := by
  unfold givenClassName?
  rw [matched.notRoot.1, matched.notRoot.2, matched.hint]
  rfl

end Walk

/-- Two documents in which the references into definitions lead to the same targets. -/
structure SameDefinitions (document document' : Json) : Prop where
  resolve : ∀ reference, Pointer.IsShared reference →
    Pointer.resolve? document' reference = Pointer.resolve? document reference
  closed : Walk.Closed document

namespace Walk

variable {document document' : Json} {rootName rootName' : String} {visit visit' : Visit}

theorem agree_ofNode (same : SameDefinitions document document')
    (visits : VisitsAgree visit visit') :
    VisitsAgree (ofNode document rootName visit) (ofNode document' rootName' visit') := by
  intro schema site site' closed matched
  unfold ofNode
  cases shaped : classify schema with
  | error fault => exact .throw _ _
  | ok classified =>
      obtain ⟨shape, nullable⟩ := classified
      refine .map ?_ _
      cases shape with
      | ref reference =>
          -- The only step that leaves the schema: into a definition, which both documents have.
          have shared := closed reference (mem_references_of_ref shaped)
          refine agree_ofReference shared (same.resolve reference shared) fun target found => ?_
          exact visits target _ _ (same.closed.within (Pointer.resolve?_within found)) (.refl rfl)
      | single member => exact visits member _ _ (closed.within (within_of_single shaped)) matched
      | union keyword alternatives =>
          refine .map (agree_members matched keyword 0 fun member mem s s' here => ?_) _
          exact visits member s s' (closed.within (within_of_union shaped mem)) here
      | const value => exact agree_ofConst value _ _
      | enum literals => exact agree_ofEnum schema literals _ _
      | object object =>
          have paths := matched.path.imp_right fun apart =>
            And.intro apart.1.not_isShared apart.2.not_isShared
          refine agree_ofObject (fun _ _ => rfl) (givenClassName?_eq matched _) paths ?_
          intro property mem
          have found := get?_properties_of_mem_declared mem
          exact visits _ _ _ (closed.within (within_of_property shaped found mem))
            (matched.child ..)
      | array items? =>
          cases items? with
          | none => exact .pure _
          | some items =>
              have hints := matched.child "items" site.hint
              refine .map (visits items _ _ (closed.within (within_of_items shaped)) ?_) _
              rw [matched.hint]
              exact hints
      | _ => exact .pure _

end Walk

/-- **Walks of one schema in documents that share their definitions agree.** -/
theorem walk_agree {document document' : Json} (same : SameDefinitions document document')
    (rootName rootName' : String) (steps : Nat) :
    Walk.VisitsAgree (walk document rootName steps) (walk document' rootName' steps) := by
  induction steps with
  | zero =>
      intro schema site site' _ _
      exact .throw _ _
  | succ steps ih => exact Walk.agree_ofNode same ih

/-- Definitions that are walked at the same references agree. -/
theorem walkDefinitions_agree {visit visit' : Visit} (visits : Walk.VisitsAgree visit visit')
    {definitions : List (String × Json)}
    (closed : ∀ definition ∈ definitions, Walk.Closed definition.2) :
    Walk.Agree (walkDefinitions visit definitions) (walkDefinitions visit' definitions) := by
  induction definitions with
  | nil => exact .pure ()
  | cons definition rest ih =>
      obtain ⟨path, schema⟩ := definition
      refine .bind (.change fun _ _ matched => matched.startResolving path) fun _ => ?_
      refine .bind (visits schema _ _ (closed _ List.mem_cons_self) (.refl rfl)) fun _ => ?_
      refine .bind (.change fun _ _ matched => matched.stopResolving path) fun _ => ?_
      exact ih fun other mem => closed other (List.mem_cons_of_mem _ mem)

end SchemaLoom
