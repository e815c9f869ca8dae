import SchemaLoom.Json.Reading

set_option autoImplicit false

/-! # Reading below a place

A reader is told at which place it reads, and it uses the place only to say where a fault is. So
reading below another place gives the same value, and a fault has that place in front of its own
(`Relative`). Whatever is made of relative parts is relative, down to the records.

From this follows what is asked for elsewhere: whether a value is read does not depend on the place
(`Relative.eq_ok`), and a fault is never outside of what was read (`Relative.place_of_error`).
-/

namespace SchemaLoom

/-- The fault with a place in front of its own. -/
def Located.under {ε : Type} (outer : Place) (e : Located ε) : Located ε :=
  ⟨outer ++ e.place, e.cause⟩

/-- What is done at a place below another one is done at the place itself, but for the place of a
fault. -/
def Relative {ε α : Type} (run : Place → Except (Located ε) α) : Prop :=
  ∀ outer inner, run (outer ++ inner) = (run inner).mapError (Located.under outer)

namespace Relative

variable {ε α β : Type} {run : Place → Except (Located ε) α}

theorem ok (a : α) : Relative (ε := ε) fun _ => .ok a := fun _ _ => rfl

theorem fault (cause : ε) (below : Place) :
    Relative (α := α) fun place => .error ⟨place ++ below, cause⟩ := fun outer inner => by
  show (Except.error ⟨outer ++ inner ++ below, cause⟩ : Except (Located ε) α)
    = .error ⟨outer ++ (inner ++ below), cause⟩
  rw [List.append_assoc]

theorem here (cause : ε) : Relative (α := α) fun place => .error ⟨place, cause⟩ :=
  fun _ _ => rfl

theorem bind (h : Relative run) {next : α → Place → Except (Located ε) β}
    (more : ∀ a, Relative (next a)) :
    Relative fun place => run place >>= fun a => next a place := by
  intro outer inner
  show (run (outer ++ inner) >>= fun a => next a (outer ++ inner))
    = (run inner >>= fun a => next a inner).mapError (Located.under outer)
  rw [h]
  cases run inner with
  | error e => rfl
  | ok a => exact more a outer inner

theorem below (h : Relative run) (step : Place) : Relative fun place => run (place ++ step) :=
  fun outer inner => by
    show run (outer ++ inner ++ step) = _
    rw [List.append_assoc, h]

/-- A value that is read at one place is read at every place. -/
theorem eq_ok (h : Relative run) {place : Place} {a : α} (read : run place = .ok a)
    (other : Place) : run other = .ok a := by
  have anywhere (place : Place) : run place = (run []).mapError (Located.under place) := by
    simpa using h place []
  rw [anywhere] at read ⊢
  cases start : run [] with
  | error e =>
      rw [start] at read
      cases read
  | ok b =>
      rw [start] at read
      exact read

/-- A fault is at the place or below it. -/
theorem place_of_error (h : Relative run) {place : Place} {e : Located ε}
    (read : run place = .error e) : ∃ below, e.place = place ++ below := by
  have anywhere : run place = (run []).mapError (Located.under place) := by simpa using h place []
  rw [anywhere] at read
  cases start : run [] with
  | error own =>
      rw [start] at read
      cases read
      exact ⟨own.place, rfl⟩
  | ok b =>
      rw [start] at read
      cases read

end Relative

theorem memberPlace_eq_append (place : Place) (key : String) (draft : Draft) :
    memberPlace place key draft = place ++ memberPlace [] key draft := by
  cases draft <;> simp [memberPlace]

theorem Relative.atMember {ε α : Type} {run : Place → Except (Located ε) α} (h : Relative run)
    (key : String) (draft : Draft) : Relative fun place => run (memberPlace place key draft) := by
  have shifted : (fun place => run (memberPlace place key draft))
      = fun place => run (place ++ memberPlace [] key draft) :=
    funext fun place => congrArg run (memberPlace_eq_append place key draft)
  rw [shifted]
  exact h.below _

/-! ## Documents -/

namespace Draft

mutual

theorem relative_toJson : (draft : Draft) → Relative fun place => draft.toJson place
  | .null | .bool _ | .num (.good _) | .str (.good _) => .ok _
  | .num (.faulty _ _) | .str (.faulty _ _) | .broken _ | .noColon _ => .here _
  | .arr true _ _ | .obj true _ _ => .here _
  | .arr false items stop => by
      simp only [toJson, Bool.false_eq_true, if_false]
      refine (relative_toItems 0 items).bind fun values => ?_
      cases stop.nextFault? with
      | some cause => exact .here _
      | none => exact .ok _
  | .obj false members stop => by
      simp only [toJson, Bool.false_eq_true, if_false]
      refine (relative_toMembers members).bind fun values => ?_
      cases stop.nextFault? with
      | some cause => exact .fault _ _
      | none => exact .ok _

theorem relative_toItems (i : Nat) :
    (items : List Draft) → Relative fun place => toItems place i items
  | [] => .ok _
  | item :: rest => by
      simp only [toItems]
      refine ((relative_toJson item).below _).bind fun value => ?_
      exact (relative_toItems (i + 1) rest).bind fun values => .ok _

theorem relative_toMembers : (members : List (Token String × Draft)) →
    Relative fun place => toMembers place members
  | [] => .ok _
  | (.faulty _ _, _) :: _ => .fault _ _
  | (.good key, value) :: rest => by
      simp only [toMembers]
      refine ((relative_toJson value).atMember key value).bind fun value => ?_
      exact (relative_toMembers rest).bind fun values => .ok _

end

end Draft

/-! ## Readers -/

namespace Reader

variable {α ρ : Type}

/-- The reader uses the place for its faults alone. -/
def IsRelative (reader : Reader α) : Prop := ∀ draft, Relative fun place => reader place draft

theorem isRelative_string : IsRelative string := by
  intro draft
  rcases draft with _ | _ | ⟨_ | _⟩ | ⟨_ | _⟩ | _ | _ | _ | _
  case str.good text => exact .ok text
  all_goals exact .here _

theorem isRelative_bool : IsRelative bool := by
  intro draft
  rcases draft with _ | _ | ⟨_ | _⟩ | ⟨_ | _⟩ | _ | _ | _ | _
  case bool value => exact .ok value
  all_goals exact .here _

theorem isRelative_json : IsRelative json := by
  intro draft outer inner
  have shifted : draft.toJson (outer ++ inner)
      = (draft.toJson inner).mapError (Located.under outer) := draft.relative_toJson outer inner
  simp only [json, shifted]
  cases draft.toJson inner <;> rfl

theorem IsRelative.optional {reader : Reader α} (h : reader.IsRelative) :
    reader.optional.IsRelative := by
  intro draft
  cases draft
  case null => exact .ok none
  all_goals exact (h _).bind fun a => .ok (some a)

/-- A reader is relative if what is made of its value does not depend on the place. -/
theorem IsRelative.map {reader : Reader α} (h : reader.IsRelative) (change : α → ρ) :
    IsRelative fun place draft => do
      let a ← reader place draft
      return change a :=
  fun draft => (h draft).bind fun a => .ok (change a)

theorem IsRelative.items {reader : Reader α} (h : reader.IsRelative) (i : Nat)
    (drafts : List Draft) : Relative fun place => reader.items place i drafts := by
  induction drafts generalizing i with
  | nil => exact .ok []
  | cons draft rest ih =>
      simp only [Reader.items]
      exact ((h draft).below _).bind fun a => (ih (i + 1)).bind fun more => .ok (a :: more)

theorem IsRelative.list {reader : Reader α} (h : reader.IsRelative) :
    reader.list.IsRelative := by
  intro draft
  rcases draft with _ | _ | ⟨_ | _⟩ | ⟨_ | _⟩ | _ | _ | ⟨_ | _, drafts, stop⟩ | _
  case arr.true => exact .here _
  case arr.false =>
      simp only [Reader.list, Bool.false_eq_true, if_false]
      refine (h.items 0 drafts).bind fun values => ?_
      cases stop.nextFault? with
      | some fault => exact .here _
      | none => exact .ok values
  all_goals exact .here _

end Reader

/-! ## Records -/

namespace Layout

variable {ρ : Type} {layout : Layout ρ}

theorem relative_readItems (stop : ArrayStop) (total : Nat) {fields : List (Field ρ)}
    (each : ∀ field ∈ fields, field.read.IsRelative) (i : Nat) (drafts : List Draft) (record : ρ) :
    Relative fun place => layout.readItems place stop total i fields drafts record := by
  induction fields generalizing i drafts record with
  | nil =>
      cases drafts with
      | nil =>
          simp only [readItems]
          cases stop.closeFault? with
          | some fault => exact .here _
          | none => exact .ok record
      | cons draft rest =>
          simp only [readItems]
          split <;> exact .here _
  | cons field fields ih =>
      obtain ⟨own, others⟩ := List.forall_mem_cons.mp each
      cases drafts with
      | nil =>
          simp only [readItems]
          cases stop.nextFault? with
          | some fault => exact .here _
          | none =>
              cases field.required with
              | true => exact .here _
              | false => exact ih others (i + 1) [] record
      | cons draft rest =>
          simp only [readItems]
          exact ((own draft).below _).bind fun change => ih others (i + 1) rest (change record)

theorem relative_readMembers (stop : ObjectStop)
    (each : ∀ field ∈ layout.fields, field.read.IsRelative) (seen : List String)
    (members : List (Token String × Draft)) (record : ρ) :
    Relative fun place => layout.readMembers place stop seen members record := by
  induction members generalizing seen record with
  | nil =>
      simp only [readMembers]
      cases stop.nextFault? with
      | some fault => exact .fault _ _
      | none =>
          cases layout.fields.find? fun field => field.required && !seen.contains field.name with
          | some field => exact .here _
          | none => exact .ok record
  | cons member rest ih =>
      obtain ⟨key | ⟨strict, skipping⟩, draft⟩ := member
      · simp only [readMembers]
        cases found : layout.fields.find? fun field => field.matches key with
        | some field =>
            dsimp only
            cases seen.contains field.name with
            | true => exact .here _
            | false =>
                have own := each field (List.mem_of_find?_eq_some found)
                exact ((own draft).atMember key draft).bind fun change => ih _ (change record)
        | none =>
            dsimp only
            cases layout.skipsUnknown with
            | true =>
                cases draft.skipFault? with
                | some fault => exact (Relative.here _).atMember key draft
                | none => exact ih seen record
            | false => exact .fault _ _
      · exact .fault _ _

theorem isRelative_reader (each : ∀ field ∈ layout.fields, field.read.IsRelative) :
    layout.reader.IsRelative := by
  intro draft
  rcases draft with
    _ | _ | ⟨_ | _⟩ | ⟨_ | _⟩ | _ | _ | ⟨_ | _, drafts, stop⟩ | ⟨_ | _, members, stop⟩
  case arr.true | obj.true => exact .here _
  case arr.false => exact relative_readItems stop _ each 0 drafts _
  case obj.false => exact relative_readMembers stop each [] members _
  all_goals exact .here _

end Layout

end SchemaLoom
