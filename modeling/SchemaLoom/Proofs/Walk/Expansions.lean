import Mathlib.Data.List.Dedup
import Mathlib.Data.List.Perm.Subperm
import SchemaLoom.Proofs.Walk.Finishes

set_option autoImplicit false

/-! # What a walk expands

`expansions` lists the references that a conversion expands, in the order in which it does, each
with the references inside whose expansions it stands. The list is read off the same descents that
the walk takes (`descent`, see `walk_succ_run`), up to the point where the walk fails if it does.

No reference stands in the list twice, and none inside itself. The reason is one invariant of
three parts: an expanded reference was neither known nor being resolved before, and it is known
after. With the count of models that a visit makes besides those of its expansions this bounds the
models of a conversion.
-/

namespace SchemaLoom

/-- The expansion of a reference inside others, the innermost first. -/
structure Expansion where
  reference : String
  inside : List String
  deriving DecidableEq, Repr

/-- The expansions of a walk that itself stands inside some. -/
def expansionsOf (document : Json) (rootName : String) :
    Nat → List String → Json → Site → Progress → List Expansion
  | 0, _, _, _, _ => []
  | steps + 1, inside, schema, site, p =>
      let d := descent document rootName schema site p
      match d.expands? with
      | none =>
          Walk.along (expansionsOf document rootName steps inside) (walk document rootName steps)
            d.parts d.start
      | some reference =>
          ⟨reference, inside⟩ ::
            Walk.along (expansionsOf document rootName steps (reference :: inside))
              (walk document rootName steps) d.parts d.start

/-- The expansions of definitions walked one after the other, each standing inside its own. -/
def expansionsOfDefinitions (document : Json) (rootName : String) (steps : Nat) :
    List (String × Json) → Progress → List Expansion
  | [], _ => []
  | (path, schema) :: rest, p =>
      expansionsOf document rootName steps [path] schema (.ofReference path)
          (p.startResolving path) ++
        match (walk document rootName steps schema (.ofReference path)).run
            (p.startResolving path) with
        | .ok (_, q) => expansionsOfDefinitions document rootName steps rest (q.stopResolving path)
        | .error _ => []

/-- The expansions of a conversion. -/
def expansions (document : Json) (rootName : String) : List Expansion :=
  let root := Identifier.pascal rootName
  let steps := walkBound document
  let definitions := Pointer.definitions document
  expansionsOfDefinitions document root steps definitions .initial ++
    match (walkDefinitions (walk document root steps) definitions).run .initial with
    | .ok (_, p) => expansionsOf document root steps [] document .root p
    | .error _ => []

/-! ## Lists of expansions -/

/-- A list that visits from a progress may give: every reference is one of the document that is
neither known nor among those that are being resolved, and none is listed twice or inside itself. -/
structure Progress.Lists (document : Json) (p : Progress) (resolving : List String)
    (list : List Expansion) : Prop where
  nodup : (list.map Expansion.reference).Nodup
  listed : ∀ e ∈ list, e.reference ∈ document.references
  unknown : ∀ e ∈ list, e.reference ∉ Entries.names p.known
  fresh : ∀ e ∈ list, e.reference ∉ resolving
  apart : ∀ e ∈ list, e.reference ∉ e.inside

/-- What the expansions of a completed visit leave: exactly their references have become known, and
each pays for the models of one document besides those that the visit makes itself. -/
structure Progress.Pays (document : Json) (p : Progress) (list : List Expansion) (own : Nat)
    (q : Progress) : Prop where
  known : ∀ reference, reference ∈ Entries.names q.known ↔
    reference ∈ Entries.names p.known ∨ ∃ e ∈ list, e.reference = reference
  models : q.models.length ≤ p.models.length + own + list.length * document.size

namespace Progress

variable {document : Json} {p q r : Progress} {resolving : List String}
  {list more : List Expansion} {own other : Nat}

theorem Lists.nil : p.Lists document resolving [] := by
  refine ⟨List.nodup_nil, ?_, ?_, ?_, ?_⟩ <;> simp

theorem Lists.congr (h : p.Lists document resolving list) (known : q.known = p.known) :
    q.Lists document resolving list := by
  refine ⟨h.nodup, h.listed, ?_, h.fresh, h.apart⟩
  rw [known]
  exact h.unknown

theorem Lists.mono {fewer : List String} (h : p.Lists document resolving list)
    (le : fewer ⊆ resolving) : p.Lists document fewer list :=
  { h with fresh := fun e he before => h.fresh e he (le before) }

theorem Pays.nil : p.Pays document [] 0 p := by
  refine ⟨?_, ?_⟩
  · simp
  · omega

theorem Pays.mono (h : p.Pays document list own q) (le : own ≤ other) :
    p.Pays document list other q where
  known := h.known
  models := by
    have models := h.models
    omega

theorem Pays.trans (first : p.Pays document list own q) (second : q.Pays document more other r) :
    p.Pays document (list ++ more) (own + other) r where
  known := by
    intro reference
    rw [second.known, first.known]
    simp only [List.mem_append, or_and_right, exists_or, or_assoc]
  models := by
    have before := first.models
    have after := second.models
    rw [List.length_append, Nat.add_mul]
    omega

/-- What is expanded later is not what has been expanded before. -/
theorem Lists.append (first : p.Lists document resolving list)
    (second : q.Lists document resolving more) (pays : p.Pays document list own q) :
    p.Lists document resolving (list ++ more) where
  nodup := by
    rw [List.map_append, List.nodup_append]
    refine ⟨first.nodup, second.nodup, ?_⟩
    intro a ha b hb same
    obtain ⟨e, he, rfl⟩ := List.mem_map.mp ha
    obtain ⟨e', he', rfl⟩ := List.mem_map.mp hb
    -- What the first list expands is known when the second one begins.
    have known : e.reference ∈ Entries.names q.known :=
      (pays.known _).mpr (Or.inr ⟨e, he, rfl⟩)
    exact second.unknown e' he' (same ▸ known)
  listed := by
    intro e he
    exact (List.mem_append.mp he).elim (first.listed e) (second.listed e)
  unknown := by
    intro e he
    rcases List.mem_append.mp he with he | he
    · exact first.unknown e he
    · intro known
      exact second.unknown e he ((pays.known _).mpr (Or.inl known))
  fresh := by
    intro e he
    exact (List.mem_append.mp he).elim (first.fresh e) (second.fresh e)
  apart := by
    intro e he
    exact (List.mem_append.mp he).elim (first.apart e) (second.apart e)

/-- An expansion stands before what is expanded inside it. -/
theorem Lists.cons {reference : String} {inside : List String}
    (inner : p.Lists document (reference :: resolving) list)
    (listed : reference ∈ document.references) (unknown : Entries.get? reference p.known = none)
    (fresh : reference ∉ resolving) (enclosing : inside ⊆ resolving) :
    p.Lists document resolving (⟨reference, inside⟩ :: list) := by
  have absent := Entries.get?_eq_none_iff.mp unknown
  refine ⟨?_, ?_, ?_, ?_, ?_⟩
  · refine List.nodup_cons.mpr ⟨?_, inner.nodup⟩
    intro again
    obtain ⟨e, he, same⟩ := List.mem_map.mp again
    refine inner.fresh e he ?_
    rw [same]
    exact List.mem_cons_self
  · intro e he
    rcases List.mem_cons.mp he with rfl | he
    · exact listed
    · exact inner.listed e he
  · intro e he
    rcases List.mem_cons.mp he with rfl | he
    · exact absent
    · exact inner.unknown e he
  · intro e he
    rcases List.mem_cons.mp he with rfl | he
    · exact fresh
    · intro before
      exact inner.fresh e he (List.mem_cons_of_mem _ before)
  · intro e he
    rcases List.mem_cons.mp he with rfl | he
    · exact fun within => fresh (enclosing within)
    · exact inner.apart e he

end Progress

/-! ## The invariant of the walk -/

/-- What holds of a visit and the list of its expansions: the list is one that the progress may
give, and it pays for what a completed visit adds. -/
def Progress.Accounts (document : Json) (p : Progress) (list : List Expansion) (own : Nat)
    {α : Type} (out : Except SchemaError (α × Progress)) : Prop :=
  p.Lists document p.resolving list ∧ ∀ {a q}, out = .ok (a, q) → p.Pays document list own q

theorem Walk.accounts_along {document : Json} (visit : Visit)
    (list : Json → Site → Progress → List Expansion) {parts : List (Json × Site)} {p : Progress}
    {resolving : List String} (start : p.resolving = resolving)
    (keeps : ∀ {schema site p type q}, (visit schema site).run p = .ok (type, q) →
      q.resolving = p.resolving)
    (accounts : ∀ part ∈ parts, ∀ p : Progress, p.resolving = resolving →
      p.Accounts document (list part.1 part.2 p) part.1.size ((visit part.1 part.2).run p)) :
    p.Accounts document (along list visit parts p) ((parts.map Prod.fst).map Json.size).sum
      ((each visit parts).run p) := by
  induction parts generalizing p with
  | nil =>
      refine ⟨.nil, ?_⟩
      intro types q made
      cases made
      exact .nil
  | cons part rest ih =>
      obtain ⟨schema, site⟩ := part
      obtain ⟨lists, pays⟩ := accounts (schema, site) List.mem_cons_self p start
      unfold along
      cases made : (visit schema site).run p with
      | error e =>
          simp only [List.append_nil]
          refine ⟨lists, ?_⟩
          intro types q failed
          obtain ⟨type, r, head, -⟩ := run_bind_eq_ok.mp failed
          rw [made] at head
          cases head
      | ok out =>
          obtain ⟨type, r⟩ := out
          have here := pays made
          have later : r.resolving = resolving := (keeps made).trans start
          obtain ⟨tail, after⟩ := ih later fun part mem =>
            accounts part (List.mem_cons_of_mem _ mem)
          rw [later, ← start] at tail
          refine ⟨lists.append tail here, ?_⟩
          intro types q done
          obtain ⟨t, s, head, done⟩ := run_bind_eq_ok.mp done
          rw [made] at head
          cases head
          obtain ⟨ts, s, done, last⟩ := run_bind_eq_ok.mp done
          cases last
          exact here.trans (after done)

section Descents

variable {document schema : Json} {p : Progress} {d : Descent} {visit : Visit}
  {list : Json → Site → Progress → List Expansion}

/-- A node that visits parts of its schema makes one model besides theirs. -/
theorem Descent.Stays.accounts (stays : d.Stays schema p)
    (keeps : ∀ {schema site p type q}, (visit schema site).run p = .ok (type, q) →
      q.resolving = p.resolving)
    (parts : ∀ part ∈ d.parts, ∀ q : Progress, q.resolving = p.resolving →
      q.Accounts document (list part.1 part.2 q) part.1.size ((visit part.1 part.2).run q)) :
    p.Accounts document (Walk.along list visit d.parts d.start) schema.size (d.run visit) := by
  obtain ⟨lists, pays⟩ := Walk.accounts_along visit list stays.resolving keeps parts
  rw [stays.resolving] at lists
  refine ⟨lists.congr stays.known.symm, ?_⟩
  intro type q made
  obtain ⟨types, r, visited, last⟩ := Walk.run_bind_eq_ok.mp made
  have visits := pays visited
  have size := stays.parts.size
  have models := (stays.finish types).models last
  have known := (stays.finish types).known last
  refine ⟨?_, ?_⟩
  · rw [known, ← stays.known]
    exact visits.known
  · have before := visits.models
    rw [stays.models] at before
    omega

/-- An expansion makes the models of its target, which stands in the document. -/
theorem Descent.Jumps.accounts {reference : String} {target : Json} {inside : List String}
    (jumps : d.Jumps document schema p reference target)
    (listed : reference ∈ document.references) (enclosing : inside ⊆ p.resolving)
    (keeps : ∀ {schema site p type q}, (visit schema site).run p = .ok (type, q) →
      q.resolving = p.resolving)
    (part : ∀ q : Progress, q.resolving = reference :: p.resolving →
      q.Accounts document (list target (.ofReference reference) q) target.size
        ((visit target (.ofReference reference)).run q)) :
    p.Accounts document (⟨reference, inside⟩ :: Walk.along list visit d.parts d.start) schema.size
      (d.run visit) := by
  have marked := Progress.resolving_startResolving _ _ jumps.fresh
  have parts (part' : Json × Site) (mem : part' ∈ [(target, Site.ofReference reference)])
      (q : Progress) (same : q.resolving = (p.startResolving reference).resolving) :
      q.Accounts document (list part'.1 part'.2 q) part'.1.size
        ((visit part'.1 part'.2).run q) := by
    cases List.mem_singleton.mp mem
    exact part q (same.trans marked)
  obtain ⟨lists, pays⟩ := Walk.accounts_along visit list rfl keeps parts
  rw [Descent.run, jumps.parts, jumps.start]
  rw [marked] at lists
  have lists := lists.congr (q := p) rfl
  refine ⟨lists.cons listed jumps.unknown jumps.fresh enclosing, ?_⟩
  intro type q made
  obtain ⟨types, r, visited, last⟩ := Walk.run_bind_eq_ok.mp made
  have inner := pays visited
  obtain ⟨models, -, t, known⟩ := jumps.finish last
  refine ⟨?_, ?_⟩
  · intro other
    rw [known, Entries.mem_names_insert, inner.known]
    simp only [List.mem_cons, exists_eq_or_imp, Progress.known_startResolving]
    rw [or_left_comm, eq_comm]
  · have before := inner.models
    have small := (Pointer.resolve?_within jumps.resolved).size_le
    simp only [List.map_cons, List.map_nil, List.sum_cons, List.sum_nil,
      Progress.models_startResolving] at before
    rw [models, List.length_cons, Nat.succ_mul]
    omega

end Descents

/-- **The expansions of a walk**: none is repeated or nested in itself, and they pay for all models
that the walk makes beyond one for each part of the schema. -/
theorem expansionsOf_accounts {document : Json} (rootName : String) (steps : Nat)
    {inside : List String} {schema : Json} (site : Site) {p : Progress}
    (within : schema.Within document) (enclosing : inside ⊆ p.resolving) :
    p.Accounts document (expansionsOf document rootName steps inside schema site p) schema.size
      ((walk document rootName steps schema site).run p) := by
  induction steps generalizing inside schema site p with
  | zero =>
      refine ⟨.nil, ?_⟩
      intro type q made
      cases made
  | succ steps ih =>
      rw [walk_succ_run]
      unfold expansionsOf
      rcases descent_cases document rootName schema site p with stays | ⟨reference, target, jumps⟩
      · simp only [stays.expands?]
        refine stays.accounts walk_keeps_resolving ?_
        intro part mem q same
        refine ih part.2 ((stays.parts.within _ (List.mem_map_of_mem mem)).trans within) ?_
        rw [same]
        exact enclosing
      · simp only [jumps.expands?]
        refine jumps.accounts (within.references_subset jumps.listed) enclosing
          walk_keeps_resolving ?_
        intro q marked
        refine ih _ (Pointer.resolve?_within jumps.resolved) ?_
        rw [marked]
        exact List.cons_subset_cons _ enclosing

/-! ## Whole conversions -/

/-- Each definition pays for itself with the size of the document. What is being resolved changes
from one definition to the next, so nothing is said of it here. -/
theorem expansionsOfDefinitions_accounts {document : Json} (rootName : String) (steps : Nat)
    {definitions : List (String × Json)} (p : Progress)
    (within : ∀ definition ∈ definitions, definition.2.Within document) :
    p.Lists document [] (expansionsOfDefinitions document rootName steps definitions p) ∧
      ∀ {u q}, (walkDefinitions (walk document rootName steps) definitions).run p = .ok (u, q) →
        p.Pays document (expansionsOfDefinitions document rootName steps definitions p)
          (definitions.length * document.size) q := by
  induction definitions generalizing p with
  | nil =>
      refine ⟨.nil, ?_⟩
      intro u q made
      cases made
      rw [List.length_nil, Nat.zero_mul]
      exact .nil
  | cons definition rest ih =>
      obtain ⟨path, schema⟩ := definition
      have inside : schema.Within document := within (path, schema) List.mem_cons_self
      have size := inside.size_le
      have enclosing : [path] ⊆ (p.startResolving path).resolving := by
        intro reference mem
        rw [List.mem_singleton.mp mem]
        exact p.mem_startResolving.mpr (Or.inl rfl)
      obtain ⟨lists, pays⟩ := expansionsOf_accounts rootName steps (.ofReference path) inside
        enclosing
      have lists := (lists.congr (q := p) rfl).mono (List.nil_subset _)
      unfold expansionsOfDefinitions
      cases made : (walk document rootName steps schema (.ofReference path)).run
          (p.startResolving path) with
      | error e =>
          simp only [List.append_nil]
          refine ⟨lists, ?_⟩
          intro u q done
          obtain ⟨_, _, head, -⟩ := walkDefinitions_cons done
          rw [made] at head
          cases head
      | ok out =>
          obtain ⟨type, r⟩ := out
          have paid := pays made
          have here : p.Pays document _ schema.size (r.stopResolving path) :=
            ⟨paid.known, paid.models⟩
          obtain ⟨tail, after⟩ := ih (r.stopResolving path) fun d mem =>
            within d (List.mem_cons_of_mem _ mem)
          refine ⟨lists.append tail here, ?_⟩
          intro u q done
          obtain ⟨_, _, head, done⟩ := walkDefinitions_cons done
          rw [made] at head
          cases head
          refine (here.trans (after done)).mono ?_
          rw [List.length_cons, Nat.succ_mul]
          omega

/-- The expansions of a conversion, and what they pay for: each definition and the document itself
pay once with the size of the document. -/
theorem expansions_accounts (document : Json) (rootName : String) :
    Progress.initial.Lists document [] (expansions document rootName) ∧
      ∀ {c}, convert document rootName = .ok c → c.models.length ≤
        (1 + (Pointer.definitions document).length + (expansions document rootName).length)
          * document.size := by
  have inside (definition : String × Json) (mem : definition ∈ Pointer.definitions document) :
      definition.2.Within document := Pointer.definitions_within mem
  obtain ⟨lists, pays⟩ := expansionsOfDefinitions_accounts (Identifier.pascal rootName)
    (walkBound document) .initial inside
  unfold expansions
  cases made : (walkDefinitions (walk document (Identifier.pascal rootName) (walkBound document))
      (Pointer.definitions document)).run .initial with
  | error e =>
      simp only [made, List.append_nil]
      refine ⟨lists, ?_⟩
      intro c converted
      obtain ⟨q, walked, -⟩ := convert_run converted
      obtain ⟨_, _, definitions, -⟩ := Walk.run_bind_eq_ok.mp walked
      rw [made] at definitions
      cases definitions
  | ok out =>
      obtain ⟨u, p⟩ := out
      obtain ⟨after, paysAfter⟩ := expansionsOf_accounts (Identifier.pascal rootName)
        (walkBound document) .root (.refl : document.Within document) (List.nil_subset p.resolving)
      simp only [made]
      refine ⟨lists.append (after.mono (List.nil_subset _)) (pays made), ?_⟩
      intro c converted
      obtain ⟨q, walked, models, -⟩ := convert_run converted
      obtain ⟨_, _, definitions, walked⟩ := Walk.run_bind_eq_ok.mp walked
      rw [made] at definitions
      cases definitions
      have total := ((pays made).trans (paysAfter walked)).models
      have none : Progress.initial.models.length = 0 := rfl
      rw [models, Nat.add_mul, Nat.add_mul, Nat.one_mul]
      omega

/-- **A conversion ends, expands no reference twice or inside itself, and its models are
bounded.** It never reaches its bound on nested visits, and no greater bound changes it. -/
theorem convert_bounded (document : Json) (rootName : String) :
    convert document rootName ≠ .error .unfinished ∧
    (∀ steps ≥ walkBound document,
      walkDocument document (walk document (Identifier.pascal rootName) steps)
        = walkDocument document (walk document (Identifier.pascal rootName)
            (walkBound document))) ∧
    ((expansions document rootName).map Expansion.reference).Nodup ∧
    (∀ e ∈ expansions document rootName, e.reference ∉ e.inside) ∧
    ∀ c, convert document rootName = .ok c → c.models.length ≤
      (1 + (Pointer.definitions document).length + document.references.dedup.length)
        * document.size := by
  obtain ⟨lists, models⟩ := expansions_accounts document rootName
  refine ⟨convert_ne_unfinished document rootName, ?_, lists.nodup, lists.apart, ?_⟩
  · intro steps enough
    exact walkDocument_steps _ enough
  · intro c converted
    have bound := models converted
    have few : (expansions document rootName).length ≤ document.references.dedup.length := by
      have distinct : (expansions document rootName).map Expansion.reference
          ⊆ document.references.dedup := by
        intro reference mem
        obtain ⟨e, he, rfl⟩ := List.mem_map.mp mem
        exact List.mem_dedup.mpr (lists.listed e he)
      have counted := (List.subperm_of_subset lists.nodup distinct).length_le
      rwa [List.length_map] at counted
    calc c.models.length
        ≤ (1 + (Pointer.definitions document).length + (expansions document rootName).length)
            * document.size := bound
      _ ≤ (1 + (Pointer.definitions document).length + document.references.dedup.length)
            * document.size := Nat.mul_le_mul_right _ (by omega)

/-- Two definitions that refer to each other. -/
def mutualPair : Json :=
  .obj [("$defs", .obj [
      ("Left", .obj [("properties", .obj [("right", .obj [("$ref", .str "#/$defs/Right")])])]),
      ("Right", .obj [("properties", .obj [("left", .obj [("$ref", .str "#/$defs/Left")])])])]),
    ("$ref", .str "#/$defs/Left")]

-- Either is expanded once, inside the other one, though each is reached from three places.
example : expansions mutualPair "Pair"
    = [⟨"#/$defs/Right", ["#/$defs/Left"]⟩, ⟨"#/$defs/Left", ["#/$defs/Right"]⟩] := by
  decide +kernel

end SchemaLoom
