import Mathlib.Data.List.InsertIdx
import SchemaLoom.Proofs.Walk.Rules

set_option autoImplicit false

/-! # What a walk keeps

A completed walk only adds models and known types, resolves again what was being resolved before,
and leaves no object under construction that was not so before (`Walked.keeps`). Each step keeps
this when its parts do, so the induction over walks needs to look at a step only once.
-/

namespace SchemaLoom

namespace Progress

/-- What is the same or only more after a completed walk. -/
structure Keeps (p q : Progress) : Prop where
  models : p.models.Sublist q.models
  resolving : q.resolving = p.resolving
  known : ∀ reference type, Entries.get? reference p.known = some type →
    Entries.get? reference q.known = some type
  /-- A reference that is being resolved is not remembered before it is done. -/
  unknown : ∀ reference ∈ p.resolving, Entries.get? reference p.known = none →
    Entries.get? reference q.known = none
  building : (Entries.names p.building).Nodup →
    (Entries.names q.building).Nodup ∧ ∀ entry ∈ q.building, entry ∈ p.building

namespace Keeps

variable {p q r : Progress}

theorem refl (p : Progress) : p.Keeps p where
  models := List.Sublist.refl _
  resolving := rfl
  known := fun _ _ h => h
  unknown := fun _ _ h => h
  building := fun h => ⟨h, fun _ he => he⟩

theorem trans (h : p.Keeps q) (h' : q.Keeps r) : p.Keeps r where
  models := h.models.trans h'.models
  resolving := h'.resolving.trans h.resolving
  known := fun reference type known => h'.known reference type (h.known reference type known)
  unknown := fun reference resolving unknown =>
    h'.unknown reference (h.resolving ▸ resolving) (h.unknown reference resolving unknown)
  building := fun distinct =>
    have first := h.building distinct
    have second := h'.building first.1
    ⟨second.1, fun entry he => first.2 entry (second.2 entry he)⟩

/-- A change of models, names and warnings alone. -/
theorem of_eq (models : p.models.Sublist q.models) (known : q.known = p.known)
    (resolving : q.resolving = p.resolving) (building : q.building = p.building) :
    p.Keeps q where
  models := models
  resolving := resolving
  known := fun _ _ h => known ▸ h
  unknown := fun _ _ h => known ▸ h
  building := fun h => by
    rw [building]
    exact ⟨h, fun _ he => he⟩

theorem of_chain {R : Json → Site → Progress → DataType → Progress → Prop}
    {parts : List (Json × Site)} {types : List DataType} (chain : Chain R parts p types q)
    (step : ∀ {schema site p type q}, R schema site p type q → p.Keeps q) : p.Keeps q :=
  chain.invariant p.Keeps (fun part before => before.trans (step part)) (refl p)

end Keeps

variable (p : Progress)

theorem models_sublist_place (slot : Nat) (m : DataModel) :
    p.models.Sublist (p.place slot m).models := by
  have h := List.eraseIdx_sublist (p.models.insertIdx slot m) slot
  rwa [List.eraseIdx_insertIdx_self, ← models_place] at h

theorem models_sublist_closed (path : String) (slot : Nat) (c : DataClass) :
    p.models.Sublist (p.closed path slot c).models :=
  (p.stopBuilding path).models_sublist_place slot (.ofClass c)

/-- A class that is closed is among the models. -/
theorem mem_models_closed {slot : Nat} (inside : slot ≤ p.models.length) (path : String)
    (c : DataClass) : .ofClass c ∈ (p.closed path slot c).models := by
  rw [models_closed, List.mem_insertIdx inside]
  exact Or.inl rfl

/-- An enum that is read is among the models. -/
theorem mem_models_afterEnum (schema : Json) (name : Identifier.Resolved)
    (values : List EnumMember) :
    .ofEnum (Walk.enumOf schema name values) ∈ (Walk.afterEnum p schema name values).models := by
  rw [Walk.models_afterEnum, List.mem_insertIdx (Nat.le_refl _)]
  exact Or.inl rfl

theorem keeps_afterEnum (schema : Json) (name : Identifier.Resolved) (values : List EnumMember) :
    p.Keeps (Walk.afterEnum p schema name values) := by
  have more := p.models_sublist_place p.models.length (.ofEnum (Walk.enumOf schema name values))
  rw [models_place, ← Walk.models_afterEnum] at more
  exact .of_eq more (Walk.known_afterEnum ..) (Walk.resolving_afterEnum ..)
    (Walk.building_afterEnum ..)

theorem keeps_afterConst (value : Json) (site : Site) :
    p.Keeps (Walk.afterConst p value site) := by
  have same : (Walk.afterConst p value site).models = p.models := Walk.models_afterConst ..
  exact .of_eq (same ▸ List.Sublist.refl _) (Walk.known_afterConst ..)
    (Walk.resolving_afterConst ..) (Walk.building_afterConst ..)

variable {p} {q : Progress}

/-- A reference that was resolved between the two is not being resolved any more. -/
theorem resolving_stopResolving_of_start {reference : String} (fresh : reference ∉ p.resolving)
    (same : q.resolving = (p.startResolving reference).resolving) :
    (q.stopResolving reference).resolving = p.resolving := by
  rw [resolving_stopResolving, same, resolving_startResolving _ _ fresh,
    List.filter_cons_of_neg (by simp)]
  refine List.filter_eq_self.2 fun r hr => ?_
  have other : r ≠ reference := fun same => fresh (same ▸ hr)
  simpa using other

/-- An expansion that keeps the progress is remembered. -/
theorem keeps_expand {reference : String} {type : DataType}
    (miss : Entries.get? reference p.known = none) (fresh : reference ∉ p.resolving)
    (h : (p.startResolving reference).Keeps q) :
    p.Keeps ((q.stopResolving reference).remember reference type) := by
  refine ⟨h.models, resolving_stopResolving_of_start fresh h.resolving, ?_, ?_, h.building⟩
  · intro r t known
    have other : r ≠ reference := by
      rintro rfl
      rw [miss] at known
      cases known
    rw [known_remember, Entries.get?_insert_of_ne other]
    exact h.known r t known
  · intro r hr missing
    have other : r ≠ reference := fun same => fresh (same ▸ hr)
    rw [known_remember, Entries.get?_insert_of_ne other]
    exact h.unknown r (p.mem_startResolving.mpr (Or.inr hr)) missing

/-- A class whose fields keep the progress is closed, and its mark is gone. -/
theorem keeps_closed {rootName : String} {object : Entries Json} {site : Site} {slot : Nat}
    {c : DataClass} (h : (p.opened rootName object site).Keeps q) :
    p.Keeps (q.closed site.path slot c) := by
  refine ⟨?_, ?_, ?_, ?_, ?_⟩
  · have fields := h.models
    rw [models_opened] at fields
    exact fields.trans (q.models_sublist_closed site.path slot c)
  · rw [resolving_closed, h.resolving, resolving_opened]
  · intro r t known
    rw [known_closed]
    exact h.known r t (by rwa [known_opened])
  · intro r resolving missing
    rw [known_closed]
    exact h.unknown r (by rwa [resolving_opened]) (by rwa [known_opened])
  · intro distinct
    have fields := h.building (by rw [building_opened]; exact Entries.nodup_names_insert distinct)
    rw [building_closed]
    refine ⟨Entries.nodup_names_erase fields.1, fun entry he => ?_⟩
    -- The mark that was set is gone, and only older ones are left.
    have inserted := fields.2 entry ((Entries.erase_sublist _ _).subset he)
    rw [building_opened] at inserted
    rcases Entries.mem_insert inserted with rfl | before
    · exact absurd rfl (Entries.ne_of_mem_erase fields.1 he)
    · exact before

end Progress

theorem Walked.keeps {document : Json} {rootName : String} {schema : Json} {site : Site}
    {p q : Progress} {type : DataType} (h : Walked document rootName schema site p type q) :
    p.Keeps q := by
  refine Walked.induct (motive := fun _ _ p _ q => p.Keeps q) ?_ h
  intro _ _ p _ q rule
  cases rule with
  | plain => exact .refl p
  | const => exact p.keeps_afterConst ..
  | enum => exact p.keeps_afterEnum ..
  | known => exact .refl p
  | forward => exact .of_eq (List.Sublist.refl _) rfl rfl rfl
  | expand _ miss _ _ fresh part => exact Progress.keeps_expand miss fresh part.2
  | single _ part => exact part.2
  | union _ parts => exact .of_chain parts fun part => part.2
  | object _ _ _ parts => exact Progress.keeps_closed (.of_chain parts fun part => part.2)
  | items _ part => exact part.2

theorem Progress.Precedes.of_chain {R : Json → Site → Progress → DataType → Progress → Prop}
    {parts : List (Json × Site)} {p q : Progress} {types : List DataType}
    (chain : Chain R parts p types q)
    (step : ∀ {schema site p type q}, R schema site p type q → p.Precedes q) : p.Precedes q :=
  chain.invariant p.Precedes (fun part before => before.trans (step part)) (.refl p)

theorem Walked.precedes {document : Json} {rootName : String} {schema : Json} {site : Site}
    {p q : Progress} {type : DataType} (h : Walked document rootName schema site p type q) :
    p.Precedes q := by
  refine Walked.induct (motive := fun _ _ p _ q => p.Precedes q) ?_ h
  intro _ _ p _ q rule
  cases rule with
  | plain => exact .refl p
  | const => exact p.precedes_afterConst ..
  | enum => exact p.precedes_afterEnum ..
  | known => exact .refl p
  | forward => exact p.precedes_warn _
  | expand _ miss _ _ fresh part =>
      exact ⟨part.2.models, (Progress.keeps_expand miss fresh part.1.keeps).known,
        part.2.warnings⟩
  | single _ part => exact part.2
  | union _ parts => exact .of_chain parts fun part => part.2
  | object _ _ _ parts =>
      have fields := Progress.Precedes.of_chain parts fun part => part.2
      exact ((p.precedes_opened ..).trans fields).trans (Progress.precedes_closed ..)
  | items _ part => exact part.2

/-! ## Where models stand -/

theorem insertIdx_length_append {α : Type} (before after : List α) (a : α) :
    (before ++ after).insertIdx before.length a = before ++ a :: after := by
  induction before with
  | nil => rfl
  | cons b rest ih => exact congrArg (b :: ·) ih

/-- A model that is put where the first ones end leaves them in front. -/
theorem prefix_insertIdx {α : Type} {before models : List α} (h : before <+: models) (m : α) :
    before <+: models.insertIdx before.length m := by
  obtain ⟨after, rfl⟩ := h
  rw [insertIdx_length_append]
  exact List.prefix_append ..

/-- **The models of a walk follow those that were there before.** -/
theorem Walked.models_prefix {document : Json} {rootName : String} {schema : Json} {site : Site}
    {p q : Progress} {type : DataType} (h : Walked document rootName schema site p type q) :
    p.models <+: q.models := by
  refine Walked.induct (motive := fun _ _ p _ q => p.models <+: q.models) ?_ h
  intro _ _ p _ q rule
  have chained {parts : List (Json × Site)} {p q : Progress} {types : List DataType}
      (parts : Chain (fun schema site p type q =>
        Walked document rootName schema site p type q ∧ p.models <+: q.models) parts p types q) :
      p.models <+: q.models :=
    parts.invariant (p.models <+: ·.models) (fun part before => before.trans part.2)
      (List.prefix_refl _)
  cases rule with
  | plain | known | forward => exact List.prefix_refl _
  | const => exact (Walk.models_afterConst ..).symm ▸ List.prefix_refl _
  | enum =>
      rw [Walk.models_afterEnum]
      exact prefix_insertIdx (List.prefix_refl _) _
  | expand _ _ _ _ _ part => exact part.2
  | single _ part => exact part.2
  | union _ parts => exact chained parts
  | object _ _ _ parts =>
      have fields := chained parts
      rw [Progress.models_opened] at fields
      rw [Progress.models_closed]
      exact prefix_insertIdx fields _
  | items _ part => exact part.2

/-- **What holds of every model that a step makes holds of all models of a walk.** -/
theorem Walked.models_forall {document : Json} {rootName : String} {p q : Progress}
    {P : DataModel → Prop}
    (enum : ∀ {p schema path literals values hasNull},
      Walk.enumMembers (Walk.enumNameOf p schema).identifier path [] literals
        = .ok (values, hasNull) → P (.ofEnum (Walk.enumOf schema (Walk.enumNameOf p schema) values)))
    (object : ∀ {p : Progress} {own site properties types owner},
      Walk.objectSplit owner own site = (properties, none) → types.length = properties.length →
        P (.ofClass (Walk.classOf own (p.className rootName own site)
          (List.zipWith (Walk.fieldFor (Walk.requiredKeys own)) properties types))))
    {schema : Json} {site : Site} {type : DataType}
    (h : Walked document rootName schema site p type q) (before : ∀ m ∈ p.models, P m) :
    ∀ m ∈ q.models, P m := by
  revert before
  refine Walked.induct
    (motive := fun _ _ p _ q => (∀ m ∈ p.models, P m) → ∀ m ∈ q.models, P m) ?_ h
  intro schema site p type q rule before
  have inserted {slot : Nat} {m : DataModel} {models : List DataModel} (new : P m)
      (old : ∀ m ∈ models, P m) : ∀ other ∈ models.insertIdx slot m, P other := by
    intro other mem
    rcases List.eq_or_mem_of_mem_insertIdx mem with rfl | mem
    · exact new
    · exact old other mem
  cases rule with
  | plain | known => exact before
  | const => rwa [Walk.models_afterConst]
  | enum shaped named read =>
      subst named
      rw [Walk.models_afterEnum]
      exact inserted (enum read) before
  | forward => exact before
  | expand _ _ _ _ _ part => exact part.2 before
  | single _ part | items _ part => exact part.2 before
  | union _ parts => exact parts.invariant (∀ m ∈ ·.models, P m) (fun part => part.2) before
  | object shaped named split parts =>
      subst named
      rw [Progress.models_closed]
      have all := parts.length_eq
      rw [List.length_map] at all
      refine inserted (object split all) ?_
      exact parts.invariant (∀ m ∈ ·.models, P m) (fun part => part.2)
        (by rwa [Progress.models_opened])

theorem DefinitionsWalked.resolving_eq {document : Json} {rootName : String}
    {definitions : List (String × Json)} {p q : Progress}
    (h : DefinitionsWalked document rootName definitions p q)
    (fresh : ∀ definition ∈ definitions, definition.1 ∉ p.resolving) :
    q.resolving = p.resolving := by
  induction h with
  | nil => rfl
  | cons head _ ih =>
      have same := Progress.resolving_stopResolving_of_start (fresh _ List.mem_cons_self)
        head.keeps.resolving
      refine (ih ?_).trans same
      intro definition mem
      rw [same]
      exact fresh definition (List.mem_cons_of_mem _ mem)

theorem DefinitionsWalked.precedes {document : Json} {rootName : String}
    {definitions : List (String × Json)} {p q : Progress}
    (h : DefinitionsWalked document rootName definitions p q) : p.Precedes q := by
  induction h with
  | nil => exact .refl _
  | @cons path _ _ p _ _ _ head _ ih =>
      have whole := (p.precedes_startResolving path).trans head.precedes
      exact (whole.trans (Progress.precedes_stopResolving ..)).trans ih

end SchemaLoom
