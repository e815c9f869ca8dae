import Mathlib.Data.List.InsertIdx
import SchemaLoom.Proofs.Walk.Keeps

set_option autoImplicit false

/-! # Every reference has its model

A type names classes and enums. In the models of a conversion every class and every enum that the
type of the document or the type of a field names is present, and it still is where of each kind
and name only the first model is kept.

While the walk is under way this is not so: an object under construction is named before its class
exists. The invariant `Progress.Backed` therefore counts, besides the models, the names of the
classes that are `pending`; opening a class adds its name to them and closing it makes good for the
name, whatever happened to the mark of the object in between.
-/

namespace SchemaLoom

/-! ## The models that a type names -/

/-- The kind and name of the model that a leaf names. -/
def Leaf.target? : Leaf → Option (DataModel.Kind × String)
  | .classRef name => some (.classes, name)
  | .enumRef name => some (.enums, name)
  | _ => none

namespace DataType

mutual

/-- The kinds and names of the models that a type names, at any depth. -/
def targets : DataType → List (DataModel.Kind × String)
  | .leaf l _ => l.target?.toList
  | .list item _ => item.targets
  | .union members _ => targetsOfAll members

/-- The kinds and names of the models that types name. -/
def targetsOfAll : List DataType → List (DataModel.Kind × String)
  | [] => []
  | t :: rest => t.targets ++ targetsOfAll rest

end

theorem mem_targetsOfAll {types : List DataType} {key : DataModel.Kind × String} :
    key ∈ targetsOfAll types ↔ ∃ t ∈ types, key ∈ t.targets := by
  induction types with
  | nil => simp [targetsOfAll]
  | cons t rest ih => simp [targetsOfAll, ih]

@[simp] theorem targets_withOptional (t : DataType) (o : Bool) :
    (t.withOptional o).targets = t.targets := by
  cases t <;> rfl

/-- Every model that a type names is one of the given ones. -/
def TargetsIn (keys : DataModel.Kind × String → Prop) (t : DataType) : Prop :=
  ∀ key ∈ t.targets, keys key

variable {keys more : DataModel.Kind × String → Prop} {t : DataType}

theorem TargetsIn.mono (h : t.TargetsIn keys) (le : ∀ key, keys key → more key) :
    t.TargetsIn more :=
  fun key hk => le key (h key hk)

theorem targetsIn_withOptional {o : Bool} :
    (t.withOptional o).TargetsIn keys ↔ t.TargetsIn keys := by
  simp [TargetsIn]

theorem targetsIn_of {l : Leaf} (h : l.target? = none) : (DataType.of l).TargetsIn keys := by
  intro key hk
  simp [targets, h] at hk

theorem targetsIn_classRef {name : String} (h : keys (.classes, name)) :
    (DataType.classRef name).TargetsIn keys := by
  intro key hk
  simp only [targets, Leaf.target?, Option.toList_some, List.mem_singleton] at hk
  rwa [hk]

theorem targetsIn_enumRef {name : String} (h : keys (.enums, name)) :
    (DataType.enumRef name).TargetsIn keys := by
  intro key hk
  simp only [targets, Leaf.target?, Option.toList_some, List.mem_singleton] at hk
  rwa [hk]

end DataType

open DataType (TargetsIn)

theorem Scalar.targetsIn_dataType {keys : DataModel.Kind × String → Prop} (s : Scalar) :
    s.dataType.TargetsIn keys := by
  cases s <;> exact DataType.targetsIn_of rfl

/-- A node without parts and without a model names no model. -/
theorem Shape.targetsIn_plainType {keys : DataModel.Kind × String → Prop} {shape : Shape}
    {t : DataType} (h : shape.plainType? = some t) : t.TargetsIn keys := by
  unfold plainType? at h
  split at h <;> cases h
  · exact DataType.targetsIn_of rfl
  · exact DataType.targetsIn_of rfl
  · exact DataType.targetsIn_of rfl
  · exact DataType.targetsIn_of rfl
  · exact Scalar.targetsIn_dataType _
  · intro key hk
    obtain ⟨t, ht, hk⟩ := DataType.mem_targetsOfAll.1 hk
    obtain ⟨s, -, rfl⟩ := List.mem_map.1 ht
    exact s.targetsIn_dataType key hk

theorem Walk.targetsIn_constType {keys : DataModel.Kind × String → Prop} {value : Json}
    {t : DataType} (h : constType? value = some t) : t.TargetsIn keys := by
  cases value with
  | num n =>
      cases h
      split
      · exact DataType.targetsIn_of rfl
      · exact DataType.targetsIn_of rfl
  | null | bool _ | str _ => cases h; exact DataType.targetsIn_of rfl
  | arr _ | obj _ => cases h

/-- A union names the models that its alternatives name. -/
theorem Walk.targetsIn_unionOf {keys : DataModel.Kind × String → Prop} {types : List DataType}
    (h : ∀ t ∈ types, t.TargetsIn keys) : (unionOf types).TargetsIn keys := by
  have kept : ∀ t ∈ types.filter fun t => !t.isNull, t.TargetsIn keys :=
    fun t ht => h t (List.mem_filter.1 ht).1
  unfold unionOf
  rw [DataType.targetsIn_withOptional]
  split
  · exact DataType.targetsIn_of rfl
  · next only eq => exact kept only (by simp [eq])
  · intro key hk
    obtain ⟨t, ht, hk⟩ := DataType.mem_targetsOfAll.1 hk
    exact kept t ht key hk

/-! ## The invariant of the walk -/

/-- Every model that a field of the class names is one of the given ones. -/
def DataClass.TargetsIn (keys : DataModel.Kind × String → Prop) (c : DataClass) : Prop :=
  ∀ field ∈ c.fields, field.type.TargetsIn keys

namespace Progress

/-- The models there are and the classes that are pending. -/
def Offers (p : Progress) (pending : List String) (key : DataModel.Kind × String) : Prop :=
  key ∈ p.models.map DataModel.key ∨ ∃ name ∈ pending, key = (.classes, name)

/-- **The invariant**: whatever the progress names is there or pending. -/
structure Backed (p : Progress) (pending : List String) : Prop where
  models : ∀ c, .ofClass c ∈ p.models → c.TargetsIn (p.Offers pending)
  known : ∀ entry ∈ p.known, entry.2.TargetsIn (p.Offers pending)
  building : ∀ entry ∈ p.building, p.Offers pending (.classes, entry.2)

variable {p q : Progress} {pending : List String}

theorem Offers.mono (le : p.models ⊆ q.models) {key : DataModel.Kind × String}
    (h : p.Offers pending key) : q.Offers pending key :=
  h.imp_left fun there => List.map_subset _ le there

/-- Only the models, the known types and the marks matter to the invariant. -/
theorem Backed.congr (h : p.Backed pending) (models : q.models = p.models)
    (known : q.known = p.known) (building : q.building = p.building) : q.Backed pending := by
  have offers : q.Offers pending = p.Offers pending := by
    unfold Offers
    rw [models]
  refine ⟨?_, ?_, ?_⟩
  · rw [models, offers]; exact h.models
  · rw [known, offers]; exact h.known
  · rw [building, offers]; exact h.building

/-- A model whose fields name only what is there may be put anywhere. -/
theorem Backed.place {slot : Nat} {m : DataModel} (h : p.Backed pending)
    (own : ∀ c, m = .ofClass c → c.TargetsIn ((p.place slot m).Offers pending)) :
    (p.place slot m).Backed pending := by
  have le : p.models ⊆ (p.place slot m).models := (p.models_sublist_place slot m).subset
  refine ⟨fun c hc => ?_, fun entry he => ?_, fun entry he => ?_⟩
  · rw [models_place] at hc
    rcases List.eq_or_mem_of_mem_insertIdx hc with new | old
    · exact own c new.symm
    · exact fun field hf => (h.models c old field hf).mono fun _ => Offers.mono le
  · rw [known_place] at he
    exact (h.known entry he).mono fun _ => Offers.mono le
  · rw [building_place] at he
    exact Offers.mono le (h.building entry he)

theorem Backed.remember {reference : String} {t : DataType} (h : p.Backed pending)
    (ht : t.TargetsIn (p.Offers pending)) :
    ((p.stopResolving reference).remember reference t).Backed pending := by
  refine ⟨h.models, fun entry he => ?_, h.building⟩
  rcases Entries.mem_insert he with rfl | old
  · exact ht
  · exact h.known entry old

/-- An object that is opened makes the name of its class pending. -/
theorem Backed.opened (h : p.Backed pending) (rootName : String) (object : Entries Json)
    (site : Site) :
    (p.opened rootName object site).Backed
      ((p.className rootName object site).identifier :: pending) := by
  have more : ∀ key, p.Offers pending key → (p.opened rootName object site).Offers
      ((p.className rootName object site).identifier :: pending) key := by
    rintro key (there | ⟨name, hname, rfl⟩)
    · exact .inl (by rwa [models_opened])
    · exact .inr ⟨name, List.mem_cons_of_mem _ hname, rfl⟩
  refine ⟨fun c hc field hf => ?_, fun entry he => ?_, fun entry he => ?_⟩
  · exact (h.models c (by rwa [models_opened] at hc) field hf).mono more
  · exact (h.known entry (by rwa [known_opened] at he)).mono more
  · rw [building_opened] at he
    rcases Entries.mem_insert he with rfl | old
    · exact .inr ⟨_, List.mem_cons_self, rfl⟩
    · exact more _ (h.building entry old)

/-- A class that is closed makes good for its name. -/
theorem Offers.closed {path : String} {slot : Nat} {c : DataClass}
    (inside : slot ≤ p.models.length) {key : DataModel.Kind × String}
    (h : p.Offers (c.name :: pending) key) : (p.closed path slot c).Offers pending key := by
  have le : p.models ⊆ (p.closed path slot c).models :=
    (p.models_sublist_closed path slot c).subset
  rcases h with there | ⟨name, hname, rfl⟩
  · exact .inl (List.map_subset _ le there)
  · rcases List.mem_cons.1 hname with rfl | old
    · exact .inl (List.mem_map.2 ⟨.ofClass c, mem_models_closed p inside path c, rfl⟩)
    · exact .inr ⟨name, old, rfl⟩

theorem Backed.closed {path : String} {slot : Nat} {c : DataClass}
    (h : p.Backed (c.name :: pending)) (inside : slot ≤ p.models.length)
    (own : c.TargetsIn (p.Offers (c.name :: pending))) :
    (p.closed path slot c).Backed pending := by
  have made : ∀ key, p.Offers (c.name :: pending) key →
      (p.closed path slot c).Offers pending key := fun _ => Offers.closed inside
  refine ⟨fun d hd field hf => ?_, fun entry he => ?_, fun entry he => ?_⟩
  · rw [models_closed] at hd
    rcases List.eq_or_mem_of_mem_insertIdx hd with new | old
    · cases new
      exact (own field hf).mono made
    · exact (h.models d old field hf).mono made
  · rw [known_closed] at he
    exact (h.known entry he).mono made
  · rw [building_closed] at he
    exact made _ (h.building entry ((Entries.erase_sublist _ _).subset he))

end Progress

/-- What a walk from a backed progress gives. -/
def Progress.BacksFrom (p : Progress) (type : DataType) (q : Progress) : Prop :=
  ∀ pending, p.Backed pending → q.Backed pending ∧ type.TargetsIn (q.Offers pending)

/-- The types of parts walked one after the other name what is there in the end. -/
theorem Chain.backed {document : Json} {rootName : String} {parts : List (Json × Site)}
    {p q : Progress} {types : List DataType}
    (chain : Chain (fun schema site p type q => Walked document rootName schema site p type q ∧
      p.BacksFrom type q) parts p types q)
    {pending : List String} (h : p.Backed pending) :
    q.Backed pending ∧ ∀ t ∈ types, t.TargetsIn (q.Offers pending) := by
  induction chain with
  | nil => exact ⟨h, by simp⟩
  | cons head tail ih =>
      obtain ⟨backed, named⟩ := head.2 pending h
      obtain ⟨done, rest⟩ := ih backed
      have later := (Progress.Keeps.of_chain tail fun part => part.1.keeps).models.subset
      refine ⟨done, fun t ht => ?_⟩
      rcases List.mem_cons.1 ht with rfl | ht
      · exact named.mono fun _ => Progress.Offers.mono later
      · exact rest t ht

theorem Walk.targetsIn_classOf {keys : DataModel.Kind × String → Prop} {object : Entries Json}
    {name : Identifier.Resolved} {required : List String} {properties : List (String × Json)}
    {types : List DataType} (h : ∀ t ∈ types, t.TargetsIn keys) :
    (classOf object name (List.zipWith (fieldFor required) properties types)).TargetsIn keys := by
  intro field hf
  obtain ⟨property, t, mem, rfl⟩ := mem_fields hf
  exact DataType.targetsIn_withOptional.2 (h t (List.of_mem_zip mem).2)

theorem Progress.Backed.afterConst {p : Progress} {pending : List String} (h : p.Backed pending)
    (value : Json) (site : Site) : (Walk.afterConst p value site).Backed pending :=
  h.congr (Walk.models_afterConst ..) (Walk.known_afterConst ..) (Walk.building_afterConst ..)

/-- An enum is there as soon as it is named. -/
theorem Progress.Backed.afterEnum {p : Progress} {pending : List String} (h : p.Backed pending)
    (schema : Json) (name : Identifier.Resolved) (values : List EnumMember) :
    (Walk.afterEnum p schema name values).Backed pending ∧
      (Walk.afterEnum p schema name values).Offers pending (.enums, name.identifier) := by
  have named : (p.afterName Walk.anonymousEnum
      (Walk.titled? (Walk.textAt "title" schema))).Backed pending :=
    h.congr (by simp) (by simp) (by simp)
  have own : ∀ c, DataModel.ofEnum (Walk.enumOf schema name values) = .ofClass c →
      c.TargetsIn ((Walk.afterEnum p schema name values).Offers pending) := by
    intro c hc
    cases hc
  exact ⟨named.place own, .inl (List.mem_map.2 ⟨.ofEnum (Walk.enumOf schema name values),
    p.mem_models_afterEnum schema name values, rfl⟩)⟩

/-- **A walk from a backed progress leads to a backed progress**, and what its type names is there
or pending. -/
theorem Walked.backsFrom {document : Json} {rootName : String} {schema : Json} {site : Site}
    {p q : Progress} {type : DataType} (h : Walked document rootName schema site p type q) :
    p.BacksFrom type q := by
  refine Walked.induct (motive := fun _ _ p type q => p.BacksFrom type q) ?_ h
  intro schema site p type q rule pending backed
  cases rule with
  | plain shaped typed =>
      exact ⟨backed, DataType.targetsIn_withOptional.2 (Shape.targetsIn_plainType typed)⟩
  | const shaped typed =>
      exact ⟨backed.afterConst _ _,
        DataType.targetsIn_withOptional.2 (Walk.targetsIn_constType typed)⟩
  | enum shaped named read =>
      obtain ⟨done, there⟩ := backed.afterEnum schema _ _
      refine ⟨done, DataType.targetsIn_withOptional.2 (DataType.targetsIn_withOptional.2 ?_)⟩
      exact DataType.targetsIn_enumRef there
  | known shaped hit =>
      refine ⟨backed, DataType.targetsIn_withOptional.2 ?_⟩
      exact backed.known _ (Entries.mem_of_get? hit)
  | forward shaped miss resolved building =>
      refine ⟨backed.congr rfl rfl rfl, DataType.targetsIn_withOptional.2 ?_⟩
      exact DataType.targetsIn_classRef (backed.building _ (Entries.mem_of_get? building))
  | expand shaped miss resolved building resolving part =>
      obtain ⟨done, named⟩ := part.2 pending (backed.congr rfl rfl rfl)
      exact ⟨done.remember named, DataType.targetsIn_withOptional.2 named⟩
  | single shaped part =>
      obtain ⟨done, named⟩ := part.2 pending backed
      exact ⟨done, DataType.targetsIn_withOptional.2 named⟩
  | union shaped parts =>
      obtain ⟨done, named⟩ := parts.backed backed
      exact ⟨done, DataType.targetsIn_withOptional.2 (Walk.targetsIn_unionOf named)⟩
  | object shaped named split parts =>
      subst named
      -- The class is pending for its fields, and closing it takes it off the pending ones.
      obtain ⟨filled, fields⟩ := parts.backed (backed.opened rootName _ site)
      have slot := (Progress.Keeps.of_chain parts fun part => part.1.keeps).models.length_le
      rw [Progress.models_opened] at slot
      refine ⟨filled.closed slot (Walk.targetsIn_classOf fields),
        DataType.targetsIn_withOptional.2 (DataType.targetsIn_classRef ?_)⟩
      exact Progress.Offers.closed slot (.inr ⟨_, List.mem_cons_self, rfl⟩)
  | items shaped part =>
      obtain ⟨done, named⟩ := part.2 pending backed
      exact ⟨done, DataType.targetsIn_withOptional.2 named⟩

/-! ## Whole conversions -/

theorem Progress.Backed.initial : Progress.initial.Backed [] where
  models := by
    intro c hc
    cases hc
  known := by
    intro entry he
    cases he
  building := by
    intro entry he
    cases he

theorem DefinitionsWalked.backed {document : Json} {rootName : String}
    {definitions : List (String × Json)} {p q : Progress}
    (h : DefinitionsWalked document rootName definitions p q) (backed : p.Backed []) :
    q.Backed [] := by
  induction h with
  | nil => exact backed
  | cons head _ ih =>
      have walked := (head.backsFrom [] (backed.congr rfl rfl rfl)).1
      exact ih (walked.congr rfl rfl rfl)

/-- Whatever the type of a document and the fields of its classes name is among the models. -/
structure TargetsPresent (root : DataType) (models : List DataModel) : Prop where
  root : root.TargetsIn (· ∈ models.map DataModel.key)
  fields : ∀ c, .ofClass c ∈ models → c.TargetsIn (· ∈ models.map DataModel.key)

/-- Keeping the first model of each kind and name loses no target. -/
theorem TargetsPresent.dedupe {root : DataType} {models : List DataModel}
    (h : TargetsPresent root models) : TargetsPresent root (DataModel.dedupe models) where
  root := h.root.mono fun _ => DataModel.mem_keys_dedupe.2
  fields := fun c hc field hf =>
    have kept := (DataModel.dedupe_sublist models).subset hc
    (h.fields c kept field hf).mono fun _ => DataModel.mem_keys_dedupe.2

theorem TargetsPresent.of_convert {document : Json} {rootName : String} {c : Conversion}
    (h : convert document rootName = .ok c) : TargetsPresent c.root c.models := by
  obtain ⟨p, q, definitions, walked, models, -⟩ := convert_ok h
  obtain ⟨backed, named⟩ := walked.backsFrom [] (definitions.backed Progress.Backed.initial)
  -- Nothing is pending at the end, so what is offered is there.
  have there : ∀ key, q.Offers [] key → key ∈ c.models.map DataModel.key := by
    rintro key (there | ⟨_, pending, -⟩)
    · rwa [models]
    · cases pending
  exact
    { root := named.mono there
      fields := fun d hd field hf => (backed.models d (models ▸ hd) field hf).mono there }

/-- **Every class and every enum that a conversion names has a model**, and it keeps one where
repetitions are dropped. -/
theorem convert_targets_present {document : Json} {rootName : String} {c : Conversion}
    (h : convert document rootName = .ok c) :
    TargetsPresent c.root c.models ∧ TargetsPresent c.root (DataModel.dedupe c.models) := by
  have present := TargetsPresent.of_convert h
  exact ⟨present, present.dedupe⟩

/-- A linked list: its class is named by its own field before it exists, and again from the cache
once the definition has been expanded. -/
def linkedList : Json :=
  .obj [("$defs", .obj [("Cell", .obj [("type", .str "object"), ("properties", .obj [
      ("kind", .obj [("enum", .arr [.str "leaf", .str "branch"])]),
      ("next", .obj [("$ref", .str "#/$defs/Cell")])])])]),
    ("anyOf", .arr [.obj [("$ref", .str "#/$defs/Cell")],
      .obj [("type", .str "array"), ("items", .obj [("$ref", .str "#/$defs/Cell")])]])]

theorem convert_targets_present_linkedList : ∃ c, convert linkedList "List" = .ok c ∧
    TargetsPresent c.root c.models ∧ TargetsPresent c.root (DataModel.dedupe c.models) := by
  have ok : (convert linkedList "List").isOk = true := by decide +kernel
  cases converted : convert linkedList "List" with
  | ok c => exact ⟨c, rfl, convert_targets_present converted⟩
  | error e =>
      rw [converted] at ok
      cases ok

end SchemaLoom
