import SchemaLoom.Proofs.Walk.Keeps
import SchemaLoom.Proofs.Walk.Parts

set_option autoImplicit false

/-! # A walk ends

A walk carries a bound on how deep its visits nest. The bound is never reached: a visit inside a
schema goes to a part that is less deep, and a visit that leaves the schema leaves one reference
fewer that may be expanded. `walk_finishes` counts both in one measure, and `walk_steps` draws the
conclusion that a greater bound gives the same walk, so that the walk is the recursion of its step
and the bound no part of what it means.
-/

namespace SchemaLoom

/-- How many references of the document are not being resolved. -/
def Progress.unresolved (document : Json) (p : Progress) : Nat :=
  (document.references.filter (· ∉ p.resolving)).length

theorem Progress.unresolved_congr (document : Json) {p q : Progress}
    (h : q.resolving = p.resolving) : q.unresolved document = p.unresolved document := by
  unfold unresolved
  rw [h]

theorem Progress.unresolved_le (document : Json) (p : Progress) :
    p.unresolved document ≤ document.references.length :=
  List.length_filter_le _ _

/-- An expansion leaves one reference fewer. -/
theorem Progress.unresolved_startResolving_lt {document : Json} {p : Progress} {reference : String}
    (listed : reference ∈ document.references) (fresh : reference ∉ p.resolving) :
    (p.startResolving reference).unresolved document < p.unresolved document := by
  unfold unresolved
  rw [resolving_startResolving _ _ fresh]
  have fewer : (document.references.filter (· ∉ reference :: p.resolving)).Sublist
      (document.references.filter (· ∉ p.resolving)) := by
    refine List.monotone_filter_right _ fun r hr => ?_
    simp only [List.mem_cons, not_or, decide_eq_true_eq] at hr ⊢
    exact hr.2
  have before : reference ∈ document.references.filter (· ∉ p.resolving) :=
    List.mem_filter.mpr ⟨listed, by simpa using fresh⟩
  have after : reference ∉ document.references.filter (· ∉ reference :: p.resolving) := by
    intro there
    have out := (List.mem_filter.mp there).2
    simp at out
  refine Nat.lt_of_le_of_ne fewer.length_le fun same => ?_
  exact after (fewer.eq_of_length same ▸ before)

theorem Walk.each_finishes {visit : Visit} {parts : List (Json × Site)} {p : Progress}
    {resolving : List String} (start : p.resolving = resolving)
    (keeps : ∀ {schema site p type q}, (visit schema site).run p = .ok (type, q) →
      q.resolving = p.resolving)
    (finishes : ∀ part ∈ parts, ∀ p : Progress, p.resolving = resolving →
      (visit part.1 part.2).run p ≠ .error .unfinished) :
    (each visit parts).run p ≠ .error .unfinished := by
  induction parts generalizing p with
  | nil =>
      intro failed
      cases failed
  | cons part rest ih =>
      intro failed
      rcases run_bind_eq_error.mp failed with head | ⟨type, q, made, failed⟩
      · exact finishes part List.mem_cons_self p start head
      · have later : q.resolving = resolving := (keeps made).trans start
        rcases run_bind_eq_error.mp failed with tail | ⟨types, r, -, last⟩
        · exact ih later (fun part mem => finishes part (List.mem_cons_of_mem _ mem)) tail
        · cases last

theorem walk_keeps_resolving {document : Json} {rootName : String} {steps : Nat} {schema : Json}
    {site : Site} {p q : Progress} {type : DataType}
    (h : (walk document rootName steps schema site).run p = .ok (type, q)) :
    q.resolving = p.resolving :=
  (Walked.keeps ⟨steps, h⟩).resolving

/-- **The bound is never reached**: each visit of a part of the schema leaves less depth, each
expansion leaves fewer references, and an expansion starts from no more than the depth of the
document. -/
theorem walk_finishes {document : Json} {rootName : String} {steps : Nat} {schema : Json}
    {site : Site} {p : Progress} (within : schema.Within document)
    (bound : p.unresolved document * document.depth + schema.depth ≤ steps) :
    (walk document rootName steps schema site).run p ≠ .error .unfinished := by
  induction steps generalizing schema site p with
  | zero =>
      have deep := schema.one_le_depth
      omega
  | succ steps ih =>
      intro failed
      rw [walk_succ_run] at failed
      rcases descent_cases document rootName schema site p with stays | ⟨reference, target, jumps⟩
      -- Down the schema there is less depth and as many references as before.
      · rcases Walk.run_bind_eq_error.mp failed with parts | ⟨types, r, -, last⟩
        · refine Walk.each_finishes stays.resolving walk_keeps_resolving ?_ parts
          intro part mem q same
          have inside : part.1 ∈ (descent document rootName schema site p).parts.map Prod.fst :=
            List.mem_map_of_mem mem
          have less := stays.parts.depth _ inside
          have measure := Progress.unresolved_congr document same
          refine ih ((stays.parts.within _ inside).trans within) ?_
          rw [measure]
          omega
        · exact (stays.finish types).finished r last
      -- An expansion may begin at any depth; the reference that it uses up pays for that.
      · rcases Walk.run_bind_eq_error.mp failed with parts | ⟨types, r, -, last⟩
        · rw [jumps.parts, jumps.start] at parts
          refine Walk.each_finishes rfl walk_keeps_resolving ?_ parts
          intro part mem q same
          cases List.mem_singleton.mp mem
          have inside := Pointer.resolve?_within jumps.resolved
          have shallow := inside.depth_le
          have deep := schema.one_le_depth
          have fewer : q.unresolved document < p.unresolved document := by
            rw [Progress.unresolved_congr document same]
            exact Progress.unresolved_startResolving_lt (within.references_subset jumps.listed)
              jumps.fresh
          have product : (q.unresolved document + 1) * document.depth
              ≤ p.unresolved document * document.depth := Nat.mul_le_mul_right _ fewer
          rw [Nat.succ_mul] at product
          refine ih inside ?_
          show q.unresolved document * document.depth + target.depth ≤ steps
          omega
        · exact jumps.finished types r last

/-! ## More steps change nothing -/

theorem Walk.each_congr {visit visit' : Visit} {parts : List (Json × Site)} {p : Progress}
    (same : ∀ {schema site p}, (visit schema site).run p ≠ .error .unfinished →
      (visit' schema site).run p = (visit schema site).run p)
    (finishes : (each visit parts).run p ≠ .error .unfinished) :
    (each visit' parts).run p = (each visit parts).run p := by
  induction parts generalizing p with
  | nil => rfl
  | cons part rest ih =>
      have head : (visit part.1 part.2).run p ≠ .error .unfinished :=
        fun failed => finishes (run_bind_eq_error.mpr (Or.inl failed))
      unfold each
      rw [StateT.run_bind, StateT.run_bind, same head]
      cases made : (visit part.1 part.2).run p with
      | error e => rfl
      | ok out =>
          have tail : (each visit rest).run out.2 ≠ .error .unfinished := by
            intro failed
            refine finishes (run_bind_eq_error.mpr (Or.inr ⟨out.1, out.2, made, ?_⟩))
            exact run_bind_eq_error.mpr (Or.inl failed)
          show StateT.run (each visit' rest >>= fun types => pure (out.1 :: types)) out.2
            = StateT.run (each visit rest >>= fun types => pure (out.1 :: types)) out.2
          rw [StateT.run_bind, StateT.run_bind, ih tail]

theorem Descent.run_congr {visit visit' : Visit} {d : Descent}
    (same : ∀ {schema site p}, (visit schema site).run p ≠ .error .unfinished →
      (visit' schema site).run p = (visit schema site).run p)
    (finishes : d.run visit ≠ .error .unfinished) : d.run visit' = d.run visit := by
  have parts : (Walk.each visit d.parts).run d.start ≠ .error .unfinished :=
    fun failed => finishes (Walk.run_bind_eq_error.mpr (Or.inl failed))
  unfold Descent.run
  rw [StateT.run_bind, StateT.run_bind, Walk.each_congr same parts]

/-- A walk that does not reach its bound is the same with one step more. -/
theorem walk_succ_eq {document : Json} {rootName : String} {steps : Nat} {schema : Json}
    {site : Site} {p : Progress}
    (finishes : (walk document rootName steps schema site).run p ≠ .error .unfinished) :
    (walk document rootName (steps + 1) schema site).run p
      = (walk document rootName steps schema site).run p := by
  induction steps generalizing schema site p with
  | zero => exact absurd rfl finishes
  | succ steps ih =>
      rw [walk_succ_run] at finishes
      rw [walk_succ_run, walk_succ_run document rootName steps]
      exact Descent.run_congr ih finishes

/-- From the bound of the document on, the number of steps does not matter. -/
theorem walk_steps {document : Json} (rootName : String) {steps : Nat} {schema : Json}
    (site : Site) (within : schema.Within document) (enough : walkBound document ≤ steps) :
    walk document rootName steps schema site
      = walk document rootName (walkBound document) schema site := by
  induction enough with
  | refl => rfl
  | @step steps enough ih =>
      rw [← ih]
      funext p
      refine walk_succ_eq (walk_finishes within ?_)
      have few := Nat.mul_le_mul_right document.depth (p.unresolved_le document)
      have shallow := within.depth_le
      have enough : (document.references.length + 1) * document.depth ≤ steps := enough
      rw [Nat.succ_mul] at enough
      omega

/-! ## Documents -/

theorem walkDefinitions_congr {visit visit' : Visit} {definitions : List (String × Json)}
    (same : ∀ definition ∈ definitions, ∀ site, visit' definition.2 site = visit definition.2 site) :
    walkDefinitions visit' definitions = walkDefinitions visit definitions := by
  induction definitions with
  | nil => rfl
  | cons definition rest ih =>
      unfold walkDefinitions
      rw [same definition List.mem_cons_self, ih fun d mem => same d (List.mem_cons_of_mem _ mem)]

theorem walkDocument_steps {document : Json} (rootName : String) {steps : Nat}
    (enough : walkBound document ≤ steps) :
    walkDocument document (walk document rootName steps)
      = walkDocument document (walk document rootName (walkBound document)) := by
  unfold walkDocument
  rw [walk_steps rootName .root .refl enough]
  rw [walkDefinitions_congr fun definition mem site =>
    walk_steps rootName site (Pointer.definitions_within mem) enough]

/-- A conversion walks the definitions and then the document, with any numbers of steps that are
enough. -/
theorem convert_eq (document : Json) (rootName : String) {m n : Nat}
    (enough : walkBound document ≤ m) (enough' : walkBound document ≤ n) :
    convert document rootName = (do
      let (_, p) ← (walkDefinitions (walk document (Identifier.pascal rootName) m)
        (Pointer.definitions document)).run .initial
      let (root, q) ← (walk document (Identifier.pascal rootName) n document .root).run p
      return ⟨q.models, root, q.warnings⟩) := by
  rw [walk_steps _ .root .refl enough', walkDefinitions_congr fun definition mem site =>
    walk_steps (Identifier.pascal rootName) site (Pointer.definitions_within mem) enough]
  unfold convert walkDocument
  simp only [StateT.run_bind, bind_assoc]
  rfl

/-- A walk within the bound of the document ends, whatever is being resolved. -/
theorem walk_bound_finishes {document : Json} (rootName : String) {schema : Json} (site : Site)
    (p : Progress) (within : schema.Within document) :
    (walk document rootName (walkBound document) schema site).run p ≠ .error .unfinished := by
  refine walk_finishes within ?_
  have few := Nat.mul_le_mul_right document.depth (p.unresolved_le document)
  have shallow := within.depth_le
  unfold walkBound
  rw [Nat.succ_mul]
  omega

/-- **A conversion ends.** -/
theorem convert_ne_unfinished (document : Json) (rootName : String) :
    convert document rootName ≠ .error .unfinished := by
  intro failed
  rcases exists_walk_eq_error failed with ⟨path, schema, p, mem, failed⟩ | ⟨p, root⟩
  · exact walk_bound_finishes _ _ _ (Pointer.definitions_within mem) failed
  · exact walk_bound_finishes _ .root p .refl root

end SchemaLoom
