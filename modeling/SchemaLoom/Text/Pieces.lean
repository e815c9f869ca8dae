set_option autoImplicit false

/-! # Pieces of a text

A text is cut at every separator; `n` separators make `n + 1` pieces, empty ones included.
-/

namespace SchemaLoom.Text

/-- The pieces of a text between the characters that separate. -/
def pieces (separates : Char → Bool) : List Char → List (List Char)
  | [] => [[]]
  | c :: rest =>
      if separates c then [] :: pieces separates rest
      else match pieces separates rest with
        | [] => [[c]]
        | piece :: others => (c :: piece) :: others

theorem pieces_ne_nil (separates : Char → Bool) (cs : List Char) : pieces separates cs ≠ [] := by
  cases cs with
  | nil => simp [pieces]
  | cons c rest =>
      unfold pieces
      split
      · simp
      · split <;> simp

theorem pieces_cons_of_separates {separates : Char → Bool} {c : Char} (h : separates c = true)
    (rest : List Char) : pieces separates (c :: rest) = [] :: pieces separates rest := by
  simp [pieces, h]

theorem pieces_cons_of_not {separates : Char → Bool} {c : Char} (h : separates c = false)
    {rest piece : List Char} {others : List (List Char)}
    (hrest : pieces separates rest = piece :: others) :
    pieces separates (c :: rest) = (c :: piece) :: others := by
  simp [pieces, h, hrest]

/-- A text without separators is one piece. -/
theorem pieces_of_all_not {separates : Char → Bool} {cs : List Char}
    (h : ∀ c ∈ cs, separates c = false) : pieces separates cs = [cs] := by
  induction cs with
  | nil => rfl
  | cons c rest ih =>
      exact pieces_cons_of_not (h c (by simp)) (ih fun x hx => h x (by simp [hx]))

end SchemaLoom.Text
