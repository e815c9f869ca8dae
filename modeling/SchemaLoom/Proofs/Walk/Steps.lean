import SchemaLoom.Schema.Convert

set_option autoImplicit false

/-! # What the steps of a walk do

The steps of a walk that visit nothing are functions of the progress: each lemma `run_…` says which
type a step gives and where it leaves the progress, so that no later proof opens a step. What a
step does to the parts of the progress is said once for every part it touches.
-/

namespace SchemaLoom

/-! ## The progress after a step -/

namespace Progress

variable (p : Progress)

/-- The name that is given, else the next new one. -/
def nameOr (stem : String) : Option Identifier.Resolved → Identifier.Resolved
  | some name => name
  | none => ⟨p.freshName stem, none⟩

/-- The progress after a name that is given, or else made up. -/
def afterName (stem : String) : Option Identifier.Resolved → Progress
  | some _ => p
  | none => p.countName stem

/-- The name of the class of an object. -/
def className (rootName : String) (schema : Entries Json) (site : Site) : Identifier.Resolved :=
  p.nameOr Walk.anonymousClass
    (Walk.givenClassName? rootName (Walk.textAt "title" (.obj schema)) site)

/-- The progress when the fields of an object are about to be visited. -/
def opened (rootName : String) (schema : Entries Json) (site : Site) : Progress :=
  let named := p.afterName Walk.anonymousClass
    (Walk.givenClassName? rootName (Walk.textAt "title" (.obj schema)) site)
  let warned :=
    if Walk.allowsMore schema then named.warn (.additionalProperties site.path) else named
  warned.startBuilding site.path (p.className rootName schema site).identifier

/-- The progress when a class has got its fields. -/
def closed (path : String) (slot : Nat) (c : DataClass) : Progress :=
  (p.stopBuilding path).place slot (.ofClass c)

variable (w : Warning) (r stem path name : String) (t : DataType) (slot : Nat) (m : DataModel)
  (given : Option Identifier.Resolved) (rootName : String) (schema : Entries Json) (site : Site)
  (c : DataClass)

/-! ### Models -/

@[simp] theorem models_warn : (p.warn w).models = p.models := rfl
@[simp] theorem models_startResolving : (p.startResolving r).models = p.models := rfl
@[simp] theorem models_stopResolving : (p.stopResolving r).models = p.models := rfl
@[simp] theorem models_stopBuilding : (p.stopBuilding path).models = p.models := rfl
@[simp] theorem models_remember : (p.remember r t).models = p.models := rfl

@[simp] theorem models_place : (p.place slot m).models = p.models.insertIdx slot m := by
  unfold place
  cases p.clashes m <;> rfl

@[simp] theorem models_afterName : (p.afterName stem given).models = p.models := by
  cases given <;> rfl

@[simp] theorem models_opened : (p.opened rootName schema site).models = p.models := by
  unfold opened
  cases Walk.allowsMore schema <;> exact models_afterName ..

/-! ### Known types -/

@[simp] theorem known_warn : (p.warn w).known = p.known := rfl
@[simp] theorem known_startResolving : (p.startResolving r).known = p.known := rfl
@[simp] theorem known_stopResolving : (p.stopResolving r).known = p.known := rfl
@[simp] theorem known_stopBuilding : (p.stopBuilding path).known = p.known := rfl

@[simp] theorem known_remember : (p.remember r t).known = Entries.insert r t p.known := rfl

@[simp] theorem known_place : (p.place slot m).known = p.known := by
  unfold place
  cases p.clashes m <;> rfl

@[simp] theorem known_afterName : (p.afterName stem given).known = p.known := by
  cases given <;> rfl

@[simp] theorem known_opened : (p.opened rootName schema site).known = p.known := by
  unfold opened
  cases Walk.allowsMore schema <;> exact known_afterName ..

/-! ### References that are being resolved -/

@[simp] theorem resolving_warn : (p.warn w).resolving = p.resolving := rfl
@[simp] theorem resolving_stopBuilding : (p.stopBuilding path).resolving = p.resolving := rfl
@[simp] theorem resolving_remember : (p.remember r t).resolving = p.resolving := rfl

theorem resolving_startResolving (h : r ∉ p.resolving) :
    (p.startResolving r).resolving = r :: p.resolving := by
  simp [startResolving, h]

theorem mem_startResolving {r other : String} :
    other ∈ (p.startResolving r).resolving ↔ other = r ∨ other ∈ p.resolving := by
  by_cases h : r ∈ p.resolving
  · have before : other = r → other ∈ p.resolving := fun same => same ▸ h
    simpa [startResolving, h] using before
  · rw [resolving_startResolving p r h, List.mem_cons]

@[simp] theorem resolving_stopResolving :
    (p.stopResolving r).resolving = p.resolving.filter (· ≠ r) := rfl

@[simp] theorem resolving_place : (p.place slot m).resolving = p.resolving := by
  unfold place
  cases p.clashes m <;> rfl

@[simp] theorem resolving_afterName : (p.afterName stem given).resolving = p.resolving := by
  cases given <;> rfl

@[simp] theorem resolving_opened : (p.opened rootName schema site).resolving = p.resolving := by
  unfold opened
  cases Walk.allowsMore schema <;> exact resolving_afterName ..

/-! ### Objects that are being converted -/

@[simp] theorem building_warn : (p.warn w).building = p.building := rfl
@[simp] theorem building_startResolving : (p.startResolving r).building = p.building := rfl
@[simp] theorem building_stopResolving : (p.stopResolving r).building = p.building := rfl
@[simp] theorem building_remember : (p.remember r t).building = p.building := rfl

@[simp] theorem building_stopBuilding :
    (p.stopBuilding path).building = Entries.erase path p.building := rfl

@[simp] theorem building_place : (p.place slot m).building = p.building := by
  unfold place
  cases p.clashes m <;> rfl

@[simp] theorem building_afterName : (p.afterName stem given).building = p.building := by
  cases given <;> rfl

@[simp] theorem building_opened : (p.opened rootName schema site).building
    = Entries.insert site.path (p.className rootName schema site).identifier p.building := by
  have named : (p.afterName Walk.anonymousClass (Walk.givenClassName? rootName
      (Walk.textAt "title" (.obj schema)) site)).building = p.building := building_afterName ..
  unfold opened
  cases Walk.allowsMore schema
  · exact congrArg (Entries.insert _ _) named
  · exact congrArg (Entries.insert _ _) named

/-! ### Warnings -/

/-- The warning that a name was made up, if it was. -/
def nameWarnings (stem : String) : Option Identifier.Resolved → List Warning
  | some _ => []
  | none => [.anonymousName (p.freshName stem)]

/-- The warnings with which an object is opened. -/
def openWarnings (rootName : String) (schema : Entries Json) (site : Site) : List Warning :=
  p.nameWarnings Walk.anonymousClass
      (Walk.givenClassName? rootName (Walk.textAt "title" (.obj schema)) site) ++
    if Walk.allowsMore schema then [.additionalProperties site.path] else []

/-- The warning that a model reuses a name, if it does. -/
def placeWarnings (m : DataModel) : List Warning :=
  if p.clashes m then [.nameReused m.name] else []

variable {w' : Warning}

theorem mem_nameWarnings (h : w' ∈ p.nameWarnings stem given) :
    w' = .anonymousName (p.freshName stem) := by
  cases given with
  | some name => cases h
  | none => exact List.mem_singleton.mp h

theorem mem_openWarnings (h : w' ∈ p.openWarnings rootName schema site) :
    w' = .anonymousName (p.freshName Walk.anonymousClass)
      ∨ w' = .additionalProperties site.path ∧ Walk.allowsMore schema = true := by
  rcases List.mem_append.mp h with named | more
  · exact Or.inl (p.mem_nameWarnings _ _ named)
  · split at more
    · next allowed => exact Or.inr ⟨List.mem_singleton.mp more, allowed⟩
    · cases more

theorem mem_placeWarnings :
    w' ∈ p.placeWarnings m ↔ p.clashes m = true ∧ w' = .nameReused m.name := by
  unfold placeWarnings
  cases p.clashes m <;> simp

@[simp] theorem warnings_warn : (p.warn w).warnings = p.warnings ++ [w] := rfl
@[simp] theorem warnings_startResolving : (p.startResolving r).warnings = p.warnings := rfl
@[simp] theorem warnings_stopResolving : (p.stopResolving r).warnings = p.warnings := rfl
@[simp] theorem warnings_remember : (p.remember r t).warnings = p.warnings := rfl

@[simp] theorem warnings_place :
    (p.place slot m).warnings = p.warnings ++ p.placeWarnings m := by
  unfold place placeWarnings
  cases p.clashes m with
  | false => exact (List.append_nil _).symm
  | true => rfl

@[simp] theorem warnings_afterName :
    (p.afterName stem given).warnings = p.warnings ++ p.nameWarnings stem given := by
  cases given with
  | some name => exact (List.append_nil _).symm
  | none => rfl

@[simp] theorem warnings_opened : (p.opened rootName schema site).warnings
    = p.warnings ++ p.openWarnings rootName schema site := by
  have named : (p.afterName Walk.anonymousClass (Walk.givenClassName? rootName
      (Walk.textAt "title" (.obj schema)) site)).warnings = _ := warnings_afterName ..
  unfold opened openWarnings
  rw [← List.append_assoc, ← named]
  cases Walk.allowsMore schema with
  | false => exact (List.append_nil _).symm
  | true => rfl

/-! ### What stays -/

/-- The models, the known types and the warnings are there later on, too. -/
structure Precedes (p q : Progress) : Prop where
  models : p.models ⊆ q.models
  known : ∀ reference type, Entries.get? reference p.known = some type →
    Entries.get? reference q.known = some type
  warnings : p.warnings ⊆ q.warnings

theorem Precedes.refl : p.Precedes p where
  models := List.Subset.refl _
  known := fun _ _ h => h
  warnings := List.Subset.refl _

theorem Precedes.trans {p q r : Progress} (h : p.Precedes q) (h' : q.Precedes r) :
    p.Precedes r where
  models := List.Subset.trans h.models h'.models
  known := fun reference type known => h'.known reference type (h.known reference type known)
  warnings := List.Subset.trans h.warnings h'.warnings

/-- With more warnings alone. -/
theorem precedes_of_warnings {p q : Progress} {more : List Warning}
    (models : q.models = p.models) (known : q.known = p.known)
    (warnings : q.warnings = p.warnings ++ more) : p.Precedes q where
  models := models ▸ List.Subset.refl _
  known := fun _ _ h => known ▸ h
  warnings := warnings ▸ List.subset_append_left ..

theorem precedes_warn : p.Precedes (p.warn w) := precedes_of_warnings rfl rfl rfl

theorem precedes_startResolving : p.Precedes (p.startResolving r) :=
  precedes_of_warnings rfl rfl (List.append_nil _).symm

theorem precedes_stopResolving : p.Precedes (p.stopResolving r) :=
  precedes_of_warnings rfl rfl (List.append_nil _).symm

theorem precedes_stopBuilding : p.Precedes (p.stopBuilding path) :=
  precedes_of_warnings rfl rfl (List.append_nil _).symm

theorem precedes_place : p.Precedes (p.place slot m) where
  models := by
    rw [models_place]
    exact fun _ there => List.mem_of_mem_eraseIdx (i := slot) (by rwa [List.eraseIdx_insertIdx_self])
  known := fun _ _ h => by rwa [known_place]
  warnings := by
    rw [warnings_place]
    exact List.subset_append_left ..

theorem precedes_afterName : p.Precedes (p.afterName stem given) :=
  precedes_of_warnings (models_afterName ..) (by cases given <;> rfl) (warnings_afterName ..)

theorem precedes_opened : p.Precedes (p.opened rootName schema site) :=
  precedes_of_warnings (models_opened ..) (known_opened ..) (warnings_opened ..)

/-! ### A closed class -/

@[simp] theorem models_closed :
    (p.closed path slot c).models = p.models.insertIdx slot (.ofClass c) := by simp [closed]

@[simp] theorem known_closed : (p.closed path slot c).known = p.known := by simp [closed]

@[simp] theorem resolving_closed : (p.closed path slot c).resolving = p.resolving := by
  simp [closed]

@[simp] theorem building_closed :
    (p.closed path slot c).building = Entries.erase path p.building := by simp [closed]

@[simp] theorem warnings_closed :
    (p.closed path slot c).warnings = p.warnings ++ p.placeWarnings (.ofClass c) :=
  warnings_place ..

theorem precedes_closed : p.Precedes (p.closed path slot c) :=
  (p.precedes_stopBuilding path).trans (precedes_place ..)

end Progress

/-! ## Runs of the steps -/

namespace Walk

variable {α β : Type} {p q r : Progress}

/-- A sequence succeeds when both halves do, the second from where the first one ended. -/
theorem run_bind_eq_ok {x : Walk α} {f : α → Walk β} {b : β} :
    (x >>= f).run p = .ok (b, r) ↔ ∃ a q, x.run p = .ok (a, q) ∧ (f a).run q = .ok (b, r) := by
  rw [StateT.run_bind]
  constructor
  · intro h
    cases hx : x.run p with
    | error e => rw [hx] at h; cases h
    | ok out => rw [hx] at h; exact ⟨out.1, out.2, rfl, h⟩
  · rintro ⟨a, q, hx, hf⟩
    rw [hx]
    exact hf

/-- A sequence fails when one half does. -/
theorem run_bind_eq_error {x : Walk α} {f : α → Walk β} {e : SchemaError} :
    (x >>= f).run p = .error e ↔
      x.run p = .error e ∨ ∃ a q, x.run p = .ok (a, q) ∧ (f a).run q = .error e := by
  rw [StateT.run_bind]
  cases hx : x.run p with
  | error e' =>
      constructor
      · intro h
        cases h
        exact Or.inl rfl
      · rintro (failed | ⟨a, q, made, -⟩)
        · cases failed
          rfl
        · cases made
  | ok out =>
      constructor
      · intro h
        exact Or.inr ⟨out.1, out.2, rfl, h⟩
      · rintro (failed | ⟨a, q, made, h⟩)
        · cases failed
        · cases made
          exact h

@[simp] theorem run_throw (e : SchemaError) : (throw e : Walk α).run p = .error e := rfl

@[simp] theorem run_warn (w : Warning) : (warn w).run p = .ok ((), p.warn w) := rfl

@[simp] theorem run_nextSlot : nextSlot.run p = .ok (p.models.length, p) := rfl

@[simp] theorem run_place (slot : Nat) (m : DataModel) :
    (place slot m).run p = .ok ((), p.place slot m) := rfl

@[simp] theorem run_nameOr (stem : String) (given : Option Identifier.Resolved) :
    (nameOr stem given).run p = .ok (p.nameOr stem given, p.afterName stem given) := by
  cases given <;> rfl

@[simp] theorem run_openClass (rootName : String) (schema : Entries Json) (site : Site) :
    (openClass rootName schema site).run p
      = .ok ((p.className rootName schema site, p.models.length),
          p.opened rootName schema site) := by
  have named : (p.afterName anonymousClass
      (givenClassName? rootName (textAt "title" (.obj schema)) site)).models.length
        = p.models.length := by simp
  rw [openClass, StateT.run_bind, run_nameOr, ← named]
  unfold Progress.opened
  cases allowsMore schema <;> rfl

@[simp] theorem run_closeClass (schema : Entries Json) (site : Site) (name : Identifier.Resolved)
    (slot : Nat) (fields : List DataField) :
    (closeClass schema site name slot fields).run p
      = .ok (.classRef name.identifier,
          p.closed site.path slot (classOf schema name fields)) := rfl

/-- The type of a constant, if it has one. -/
def constType? : Json → Option DataType
  | .str text => some (.of (.literalString text))
  | .bool b => some (.of (.literalBool b))
  | .null => some (.of .null)
  | .num n => some (match n.toInt64? with
      | some i => .of (.literalInt i)
      | none => .of .float)
  | .arr _ | .obj _ => none

/-- The progress after a constant. -/
def afterConst (p : Progress) (value : Json) (site : Site) : Progress :=
  match value with
  | .num n =>
      match n.toInt64? with
      | some _ => p
      | none => p.warn (.nonIntegerConst site.path (String.ofList n.text))
  | _ => p

theorem run_ofConst (value : Json) (site : Site) :
    (ofConst value site).run p = match constType? value with
      | some type => .ok (type, afterConst p value site)
      | none => .error (.unsupported site.path (.constNotScalar value)) := by
  cases value with
  | num n =>
      cases h : n.toInt64? with
      | some i =>
          simp only [ofConst, constType?, afterConst, h]
          rfl
      | none =>
          simp only [ofConst, constType?, afterConst, h]
          rfl
  | _ => rfl

/-- The name of the enum of an enumeration. -/
def enumNameOf (p : Progress) (schema : Json) : Identifier.Resolved :=
  p.nameOr anonymousEnum (titled? (textAt "title" schema))

/-- The progress after an enumeration. -/
def afterEnum (p : Progress) (schema : Json) (name : Identifier.Resolved)
    (values : List EnumMember) : Progress :=
  (p.afterName anonymousEnum (titled? (textAt "title" schema))).place p.models.length
    (.ofEnum (enumOf schema name values))

theorem run_ofEnum (schema : Json) (literals : List Json) (site : Site) :
    (ofEnum schema literals site).run p
      = match enumMembers (enumNameOf p schema).identifier site.path [] literals with
        | .ok (values, hasNull) =>
            .ok ((DataType.enumRef (enumNameOf p schema).identifier).withOptional hasNull,
              afterEnum p schema (enumNameOf p schema) values)
        | .error e => .error e := by
  have slot : (p.afterName anonymousEnum (titled? (textAt "title" schema))).models.length
      = p.models.length := by simp
  simp only [afterEnum, enumNameOf, ← slot]
  rw [ofEnum, StateT.run_bind, run_nameOr]
  simp only [bind, Except.bind]
  cases enumMembers (p.nameOr anonymousEnum (titled? (textAt "title" schema))).identifier
    site.path [] literals <;> rfl

/-! ## What constants and enumerations leave alone -/

section Leaves

variable (p : Progress) (value schema : Json) (site : Site) (name : Identifier.Resolved)
  (values : List EnumMember)

@[simp] theorem models_afterConst : (afterConst p value site).models = p.models := by
  unfold afterConst
  split
  · split <;> rfl
  · rfl

@[simp] theorem known_afterConst : (afterConst p value site).known = p.known := by
  unfold afterConst
  split
  · split <;> rfl
  · rfl

@[simp] theorem resolving_afterConst : (afterConst p value site).resolving = p.resolving := by
  unfold afterConst
  split
  · split <;> rfl
  · rfl

@[simp] theorem building_afterConst : (afterConst p value site).building = p.building := by
  unfold afterConst
  split
  · split <;> rfl
  · rfl

/-- The warning that a constant was widened, if it was. -/
def constWarnings (value : Json) (site : Site) : List Warning :=
  match value with
  | .num n =>
      match n.toInt64? with
      | some _ => []
      | none => [.nonIntegerConst site.path (String.ofList n.text)]
  | _ => []

/-- A constant is warned of where it is a number without a literal form. -/
theorem mem_constWarnings {w : Warning} (h : w ∈ constWarnings value site) :
    ∃ n, value = .num n ∧ n.toInt64? = none ∧
      w = .nonIntegerConst site.path (String.ofList n.text) := by
  unfold constWarnings at h
  split at h
  · next n =>
      split at h
      · cases h
      · next wide => exact ⟨n, rfl, wide, List.mem_singleton.mp h⟩
  · cases h

@[simp] theorem warnings_afterConst :
    (afterConst p value site).warnings = p.warnings ++ constWarnings value site := by
  unfold afterConst constWarnings
  split
  · split
    · exact (List.append_nil _).symm
    · rfl
  · exact (List.append_nil _).symm

@[simp] theorem models_afterEnum : (afterEnum p schema name values).models
    = p.models.insertIdx p.models.length (.ofEnum (enumOf schema name values)) := by
  simp [afterEnum]

@[simp] theorem known_afterEnum : (afterEnum p schema name values).known = p.known := by
  simp [afterEnum]

@[simp] theorem resolving_afterEnum :
    (afterEnum p schema name values).resolving = p.resolving := by
  simp [afterEnum]

@[simp] theorem building_afterEnum : (afterEnum p schema name values).building = p.building := by
  simp [afterEnum]

@[simp] theorem warnings_afterEnum : (afterEnum p schema name values).warnings
    = p.warnings ++ p.nameWarnings anonymousEnum (titled? (textAt "title" schema))
      ++ p.placeWarnings (.ofEnum (enumOf schema name values)) := by
  simp [afterEnum, Progress.placeWarnings, Progress.clashes]

end Leaves

end Walk

namespace Progress

variable (p : Progress) (schema value : Json) (site : Site) (name : Identifier.Resolved)
  (values : List EnumMember)

theorem precedes_afterConst : p.Precedes (Walk.afterConst p value site) :=
  precedes_of_warnings (Walk.models_afterConst ..) (Walk.known_afterConst ..)
    (Walk.warnings_afterConst ..)

theorem precedes_afterEnum : p.Precedes (Walk.afterEnum p schema name values) :=
  (p.precedes_afterName _ _).trans (precedes_place ..)

end Progress

end SchemaLoom
