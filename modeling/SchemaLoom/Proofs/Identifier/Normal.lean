import SchemaLoom.Proofs.Identifier.Names

set_option autoImplicit false

/-! # Identifiers of identifiers

An identifier is a single word, so its own identifier is that word with its first letter in the case
that is asked for. Nothing but that letter and the guard in front of a digit depends on the case, and
both are set again when the case changes: an identifier in one case is as good a name as the text it
was made of (`of_of`). The four laws of absorption are the instances of this, and two texts have the
same identifier in one case if they have it in the other (`of_eq_of_iff`).
-/

namespace SchemaLoom.Identifier

/-! ## The first character -/

/-- The case of a character can be set again, and a digit has none. -/
theorem Case.first_first (case other : Case) {c : Char} (h : c.isAlphanum = true) :
    case.first (other.first c) = case.first c ∧ (other.first c).isDigit = c.isDigit ∧
      (c.isDigit = true → case.first c = c) := by
  cases case <;> cases other <;> exact forall_isAlphanum h (by decide +kernel)

/-- The guards of the two cases are one letter in these cases. -/
theorem Case.first_guardLetter (case other : Case) :
    case.first (guardLetter other) = guardLetter case ∧
      (guardLetter other).isAlphanum = true ∧ (guardLetter other).isDigit = false := by
  cases case <;> cases other <;> decide

theorem guardDigit_of_isDigit (case : Case) {c : Char} (h : c.isDigit = true) (rest : List Char) :
    guardDigit case (c :: rest) = guardLetter case :: c :: rest := if_pos h

theorem guardDigit_of_not_isDigit (case : Case) {c : Char} (h : c.isDigit = false)
    (rest : List Char) : guardDigit case (c :: rest) = c :: rest := by
  refine if_neg ?_
  rw [h]
  exact Bool.false_ne_true

/-! ## Single words -/

/-- A text of letters and digits is one word. -/
theorem words_of_plain {text : List Char} (filled : text ≠ [])
    (plain : ∀ c ∈ text, c.isAlphanum = true) : words text = [text] := by
  have whole : Text.pieces separatesWords text = [text] :=
    Text.pieces_of_all_not fun c hc => separatesWords_of_isAlphanum (plain c hc)
  have kept : text.filter Char.isAlphanum = text := List.filter_eq_self.mpr plain
  rw [words, whole, List.map_singleton, kept]
  exact List.filter_cons_of_pos (by simpa using filled)

/-- The identifier of a word differs from it in front alone. -/
theorem ofChars_of_plain (case : Case) {c : Char} {rest : List Char}
    (plain : ∀ d ∈ c :: rest, d.isAlphanum = true) :
    ofChars case (c :: rest) = guardDigit case (case.first c :: rest) := by
  rw [ofChars, words_of_plain (List.cons_ne_nil c rest) plain, join_cons, List.flatMap_nil,
    List.append_nil]

/-- The case of a word that has been put into another case is set again. -/
theorem ofChars_guardDigit (case other : Case) {c : Char} {rest : List Char}
    (plain : ∀ d ∈ c :: rest, d.isAlphanum = true) :
    ofChars case (guardDigit other (other.first c :: rest))
      = guardDigit case (case.first c :: rest) := by
  have own := plain c List.mem_cons_self
  have after : ∀ d ∈ rest, d.isAlphanum = true := fun d hd => plain d (List.mem_cons_of_mem _ hd)
  obtain ⟨again, digit, -⟩ := case.first_first other own
  cases guarded : c.isDigit with
  | false =>
      rw [guarded] at digit
      have first := (other.first_of_isAlphanum own).1
      rw [guardDigit_of_not_isDigit other digit,
        ofChars_of_plain case (List.forall_mem_cons.mpr ⟨first, after⟩), again]
  | true =>
      -- The digit stays as it is, and the letter in front of it is the one of the case.
      obtain ⟨letter, plainLetter, notDigit⟩ := case.first_guardLetter other
      rw [(other.first_first case own).2.2 guarded, (case.first_first other own).2.2 guarded,
        guardDigit_of_isDigit other guarded, guardDigit_of_isDigit case guarded,
        ofChars_of_plain case (List.forall_mem_cons.mpr ⟨plainLetter, plain⟩), letter,
        guardDigit_of_not_isDigit case (case.first_guardLetter case).2.2]

/-! ## Conversions of identifiers -/

theorem of_eq_empty_iff {case : Case} {raw : String} : of case raw = "" ↔ isUsable raw = false := by
  rw [← Decidable.not_iff_not, Bool.not_eq_false]
  exact of_ne_empty_iff

/-- **The identifier of an identifier is that of the name**, whatever the two cases are. -/
theorem of_of (case other : Case) (raw : String) : of case (of other raw) = of case raw := by
  cases usable : isUsable raw with
  | true =>
      obtain ⟨c, rest, plain, written⟩ := exists_ofChars_eq (words_ne_nil_of_isUsable usable)
      unfold of
      rw [String.toList_ofList, written, written, ofChars_guardDigit case other plain]
  | false =>
      have none (case : Case) : of case raw = "" := of_eq_empty_iff.mpr usable
      rw [none other, none case]
      cases case <;> rfl

/-- Names that have the same identifier in one case have the same one in every case. -/
theorem of_eq_of_iff (case other : Case) {raw raw' : String} :
    of case raw = of case raw' ↔ of other raw = of other raw' := by
  have carries (case other : Case) (same : of case raw = of case raw') :
      of other raw = of other raw' := by
    rw [← of_of other case raw, same, of_of]
  exact ⟨carries case other, carries other case⟩

/-- An identifier is resolved to itself and needs no alias. -/
theorem resolve_of (case : Case) (raw : String) :
    resolve case (of case raw) = ⟨of case raw, none⟩ := by
  unfold resolve
  simp [of_of, needsAlias]

theorem isNamed_of_eq_isUsable (case : Case) (raw : String) :
    case.isNamed (of case raw) = isUsable raw := by
  cases usable : isUsable raw with
  | true => exact isNamed_of_isUsable case usable
  | false =>
      rw [of_eq_empty_iff.mpr usable]
      cases case <;> rfl

/-- **Identifiers are a normal form of names**: a name without a letter or a digit has none, any
other name has one in either case, and converting an identifier is converting its name, so names
collide in both cases or in neither and no identifier asks for an alias of itself. -/
theorem identifiers_normal (raw : String) :
    (pascal raw = "" ↔ camel raw = "") ∧
    (camel raw = "" ↔ ∀ c ∈ raw.toList, c.isAlphanum = false) ∧
    (isTypeName (pascal raw) = isUsable raw ∧ isFieldName (camel raw) = isUsable raw) ∧
    (pascal (pascal raw) = pascal raw ∧ camel (camel raw) = camel raw) ∧
    (pascal (camel raw) = pascal raw ∧ camel (pascal raw) = camel raw) ∧
    (∀ other, camel raw = camel other ↔ pascal raw = pascal other) ∧
    ∀ case, resolve case (of case raw) = ⟨of case raw, none⟩ := by
  have empty : camel raw = "" ↔ ∀ c ∈ raw.toList, c.isAlphanum = false := by
    rw [camel, of_eq_empty_iff, isUsable, List.any_eq_false]
    simp only [Bool.not_eq_true]
  refine ⟨?_, empty, ⟨?_, ?_⟩, ⟨?_, ?_⟩, ⟨?_, ?_⟩, ?_, ?_⟩
  · rw [pascal, camel, of_eq_empty_iff, of_eq_empty_iff]
  · exact isNamed_of_eq_isUsable .pascal raw
  · exact isNamed_of_eq_isUsable .camel raw
  · exact of_of .pascal .pascal raw
  · exact of_of .camel .camel raw
  · exact of_of .pascal .camel raw
  · exact of_of .camel .pascal raw
  · exact fun other => of_eq_of_iff .camel .pascal
  · exact fun case => resolve_of case raw

-- A digit in front is guarded once, by a letter that changes its case with the rest.
example : pascal "2-factor" = "V2Factor" ∧ camel (pascal "2-factor") = "v2Factor" := by
  decide +kernel

end SchemaLoom.Identifier
