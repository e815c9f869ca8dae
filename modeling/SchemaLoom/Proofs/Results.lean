set_option autoImplicit false

/-! # Results that are there

Readers and conversions are written as one step after the other, each of which may fail. Their
result is there when that of every step is, so the value that a chain of steps gave is followed back
to the values that its steps gave. The failures are left out here: which one comes out is said where
they are placed.
-/

namespace SchemaLoom

variable {ε α β : Type}

theorem bind_eq_ok_iff {x : Except ε α} {f : α → Except ε β} {b : β} :
    (x >>= f) = .ok b ↔ ∃ a, x = .ok a ∧ f a = .ok b := by
  cases x with
  | error e => exact iff_of_false (by rintro ⟨⟩) (by rintro ⟨a, ⟨⟩, -⟩)
  | ok a =>
      constructor
      · exact fun h => ⟨a, rfl, h⟩
      · rintro ⟨a', ⟨⟩, h⟩
        exact h

/-- A result that is only changed is there when the result itself is. -/
theorem exists_map_eq_ok {x : Except ε α} {f : α → β} {P : β → Prop} :
    (∃ b, (do let a ← x; return f a) = .ok b ∧ P b) ↔ ∃ a, x = .ok a ∧ P (f a) := by
  cases x with
  | error e => exact iff_of_false (by rintro ⟨b, ⟨⟩, -⟩) (by rintro ⟨a, ⟨⟩, -⟩)
  | ok a =>
      constructor
      · rintro ⟨b, ⟨⟩, h⟩
        exact ⟨a, rfl, h⟩
      · rintro ⟨a', ⟨⟩, h⟩
        exact ⟨f a, rfl, h⟩

/-- A list is there when its head and its tail are. -/
theorem bind_cons_eq_ok_iff {x : Except ε α} {y : Except ε (List β)} {f : α → β}
    {values : List β} : (do let a ← x; return f a :: (← y)) = .ok values ↔
      ∃ a, x = .ok a ∧ ∃ more, y = .ok more ∧ values = f a :: more := by
  rw [bind_eq_ok_iff]
  refine exists_congr fun a => and_congr_right fun _ => bind_eq_ok_iff.trans ?_
  refine exists_congr fun more => and_congr_right fun _ => ?_
  exact ⟨fun same => (Except.ok.inj same).symm, congrArg _ ∘ Eq.symm⟩

/-- What is read off a result tells that there is one. -/
theorem exists_of_toOption {result : Except ε α} {f : α → β} {b : β}
    (h : result.toOption.map f = some b) : ∃ a, result = .ok a ∧ f a = b := by
  cases result with
  | error e => cases h
  | ok a => exact ⟨a, rfl, Option.some.inj h⟩

end SchemaLoom
