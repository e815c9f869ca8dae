import SchemaLoom.Identifier

set_option autoImplicit false

/-! # What identifiers look like

A name is usable if it has a letter or a digit of the basic alphabet. The identifier of a usable name
is a word of such characters and starts with a letter in the case that was asked for, a capital or a
small one (`isNamed_of`); the identifier of any other name is empty (`of_ne_empty_iff`). Whatever is
named after a title, a key or a text can rely on this without looking at words again.
-/

namespace SchemaLoom

/-- Whether a name is a word of ASCII letters and digits. -/
def isIdentifier (name : String) : Bool :=
  !name.toList.isEmpty && name.toList.all Char.isAlphanum

/-- Whether a name is one of a class or an enum. -/
def isTypeName (name : String) : Bool := isIdentifier name && name.toList.head?.any Char.isUpper

/-- Whether a name is one of a field. -/
def isFieldName (name : String) : Bool := isIdentifier name && name.toList.head?.any Char.isLower

namespace Identifier

/-- Whether a name has a letter or a digit. -/
def isUsable (raw : String) : Bool := raw.toList.any Char.isAlphanum

/-- Whether a name is written in a case. -/
def Case.isNamed : Case → String → Bool
  | .pascal => isTypeName
  | .camel => isFieldName

/-- Whether a name of a case may start with a character. -/
def Case.opens : Case → Char → Bool
  | .pascal => Char.isUpper
  | .camel => Char.isLower

theorem isNamed_ofList (case : Case) (first : Char) (rest : List Char) :
    case.isNamed (String.ofList (first :: rest))
      = ((first.isAlphanum && rest.all Char.isAlphanum) && case.opens first) := by
  cases case <;> simp [Case.isNamed, isTypeName, isFieldName, isIdentifier, Case.opens]

/-! ## Characters -/

theorem toNat_lt_of_isAlphanum {c : Char} (h : c.isAlphanum = true) : c.toNat < 128 := by
  change (decide (c.val ≥ 'A'.val ∧ c.val ≤ 'Z'.val)
    || (decide (c.val ≥ 'a'.val) && decide (c.val ≤ 'z'.val))
    || (decide (c.val ≥ '0'.val) && decide (c.val ≤ '9'.val))) = true at h
  simp only [Bool.or_eq_true, Bool.and_eq_true, decide_eq_true_eq, ge_iff_le,
    UInt32.le_iff_toNat_le] at h
  show c.val.toNat < 128
  rcases h with (upper | lower) | digit
  · exact Nat.lt_of_le_of_lt upper.2 (by decide)
  · exact Nat.lt_of_le_of_lt lower.2 (by decide)
  · exact Nat.lt_of_le_of_lt digit.2 (by decide)

/-- There are few letters and digits, so what holds of all of them can be tested. -/
@[elab_as_elim]
theorem forall_isAlphanum {motive : Char → Prop} {c : Char} (h : c.isAlphanum = true)
    (few : ∀ n < 128, (Char.ofNat n).isAlphanum = true → motive (Char.ofNat n)) : motive c := by
  have here := few c.toNat (toNat_lt_of_isAlphanum h)
  rw [Char.ofNat_toNat] at here
  exact here h

/-- A letter or a digit stays one in either case, and a letter gets the case. -/
theorem cases_of_isAlphanum {c : Char} (h : c.isAlphanum = true) :
    (c.toUpper.isAlphanum = true ∧ (c.toUpper.isDigit = false → c.toUpper.isUpper = true)) ∧
      c.toLower.isAlphanum = true ∧ (c.toLower.isDigit = false → c.toLower.isLower = true) := by
  refine forall_isAlphanum h ?_
  decide +kernel

/-! ## Words -/

theorem mem_flatten_pieces {separates : Char → Bool} {raw : List Char} {c : Char} :
    c ∈ (Text.pieces separates raw).flatten ↔ c ∈ raw ∧ separates c = false := by
  induction raw with
  | nil => simp [Text.pieces]
  | cons d rest ih =>
      cases cut : separates d with
      | true =>
          rw [Text.pieces_cons_of_separates cut, List.flatten_cons, List.nil_append, ih,
            List.mem_cons]
          constructor
          · rintro ⟨there, keeps⟩
            exact ⟨Or.inr there, keeps⟩
          · rintro ⟨rfl | there, keeps⟩
            · rw [cut] at keeps
              cases keeps
            · exact ⟨there, keeps⟩
      | false =>
          obtain ⟨piece, others, split⟩ := List.exists_cons_of_ne_nil
            (Text.pieces_ne_nil separates rest)
          rw [Text.pieces_cons_of_not cut split]
          rw [split, List.flatten_cons] at ih
          rw [List.flatten_cons, List.cons_append, List.mem_cons, ih, List.mem_cons]
          constructor
          · rintro (rfl | ⟨there, keeps⟩)
            · exact ⟨Or.inl rfl, cut⟩
            · exact ⟨Or.inr there, keeps⟩
          · rintro ⟨rfl | there, keeps⟩
            · exact Or.inl rfl
            · exact Or.inr ⟨there, keeps⟩

/-- No letter and no digit separates words. -/
theorem separatesWords_of_isAlphanum {c : Char} (h : c.isAlphanum = true) :
    separatesWords c = false := by
  by_cases under : c = '_'
  · subst under
    cases h
  · by_cases dash : c = '-'
    · subst dash
      cases h
    · simp [separatesWords, under, dash]

theorem isAlphanum_of_mem_words {raw word : List Char} (mem : word ∈ words raw) :
    word ≠ [] ∧ ∀ c ∈ word, c.isAlphanum = true := by
  obtain ⟨among, some⟩ := List.mem_filter.mp mem
  obtain ⟨piece, -, rfl⟩ := List.mem_map.mp among
  exact ⟨by simpa using some, fun c hc => (List.mem_filter.mp hc).2⟩

/-- A name has no word if it has no letter and no digit. -/
theorem words_eq_nil_iff {raw : List Char} :
    words raw = [] ↔ ∀ c ∈ raw, c.isAlphanum = false := by
  constructor
  · intro empty c hc
    cases plain : c.isAlphanum with
    | false => rfl
    | true =>
        have there : c ∈ (Text.pieces separatesWords raw).flatten :=
          mem_flatten_pieces.mpr ⟨hc, separatesWords_of_isAlphanum plain⟩
        obtain ⟨piece, among, inside⟩ := List.mem_flatten.mp there
        have kept : c ∈ piece.filter Char.isAlphanum := List.mem_filter.mpr ⟨inside, plain⟩
        have word : piece.filter Char.isAlphanum ∈ words raw :=
          List.mem_filter.mpr ⟨List.mem_map_of_mem among, by simpa using List.ne_nil_of_mem kept⟩
        rw [empty] at word
        cases word
  · intro plain
    refine List.eq_nil_iff_forall_not_mem.mpr fun word mem => ?_
    obtain ⟨c, hc⟩ := List.exists_mem_of_ne_nil word (isAlphanum_of_mem_words mem).1
    obtain ⟨among, -⟩ := List.mem_filter.mp mem
    obtain ⟨piece, cut, rfl⟩ := List.mem_map.mp among
    obtain ⟨inside, kept⟩ := List.mem_filter.mp hc
    have there := (mem_flatten_pieces.mp (List.mem_flatten.mpr ⟨piece, cut, inside⟩)).1
    rw [plain c there] at kept
    cases kept

theorem isAlphanum_of_mem_capitalize {word : List Char} (plain : ∀ c ∈ word, c.isAlphanum = true) :
    ∀ c ∈ capitalize word, c.isAlphanum = true := by
  cases word with
  | nil => exact plain
  | cons first rest =>
      intro c hc
      rcases List.mem_cons.mp hc with rfl | hc
      · exact (cases_of_isAlphanum (plain first List.mem_cons_self)).1.1
      · exact plain c (List.mem_cons_of_mem _ hc)

/-! ## Identifiers -/

/-- The first character of an identifier. -/
def Case.first : Case → Char → Char
  | .pascal => Char.toUpper
  | .camel => Char.toLower

theorem Case.first_of_isAlphanum (case : Case) {c : Char} (h : c.isAlphanum = true) :
    (case.first c).isAlphanum = true ∧
      ((case.first c).isDigit = false → case.opens (case.first c) = true) := by
  cases case with
  | pascal => exact (cases_of_isAlphanum h).1
  | camel => exact (cases_of_isAlphanum h).2

theorem join_cons (case : Case) (c : Char) (rest : List Char) (others : List (List Char)) :
    join case ((c :: rest) :: others) = case.first c :: (rest ++ others.flatMap capitalize) := by
  cases case <;> rfl

/-- A digit in front is guarded by a letter of the case. -/
theorem isNamed_guardDigit (case : Case) {c : Char} {rest : List Char}
    (opens : c.isDigit = false → case.opens c = true)
    (plain : ∀ d ∈ c :: rest, d.isAlphanum = true) :
    case.isNamed (String.ofList (guardDigit case (c :: rest))) = true := by
  have all := List.all_eq_true.mpr plain
  show case.isNamed (String.ofList
    (if c.isDigit then guardLetter case :: c :: rest else c :: rest)) = true
  cases digit : c.isDigit with
  | false =>
      rw [if_neg Bool.false_ne_true, isNamed_ofList, opens digit, Bool.and_true]
      exact all
  | true =>
      have letter : (guardLetter case).isAlphanum = true ∧ case.opens (guardLetter case) = true := by
        cases case <;> decide
      rw [if_pos rfl, isNamed_ofList, letter.1, letter.2, all]
      rfl

/-- What follows the first character of an identifier does not depend on the case. -/
theorem exists_ofChars_eq {raw : List Char} (some : words raw ≠ []) :
    ∃ c rest, (∀ d ∈ c :: rest, d.isAlphanum = true) ∧
      ∀ case, ofChars case raw = guardDigit case (case.first c :: rest) := by
  have each : ∀ word ∈ words raw, word ≠ [] ∧ ∀ c ∈ word, c.isAlphanum = true :=
    fun word => isAlphanum_of_mem_words
  unfold ofChars
  generalize words raw = cut at some each
  obtain ⟨word, others, rfl⟩ := List.exists_cons_of_ne_nil some
  obtain ⟨filled, plain⟩ := each word List.mem_cons_self
  obtain ⟨c, rest, rfl⟩ := List.exists_cons_of_ne_nil filled
  refine ⟨c, rest ++ others.flatMap capitalize, fun d hd => ?_, fun case => by rw [join_cons]⟩
  rw [← List.cons_append] at hd
  rcases List.mem_append.mp hd with own | later
  · exact plain d own
  · obtain ⟨other, mem, there⟩ := List.mem_flatMap.mp later
    exact isAlphanum_of_mem_capitalize (each other (List.mem_cons_of_mem _ mem)).2 d there

theorem words_ne_nil_of_isUsable {raw : String} (h : isUsable raw = true) :
    words raw.toList ≠ [] := by
  intro none
  obtain ⟨c, hc, plain⟩ := List.any_eq_true.mp h
  rw [words_eq_nil_iff.mp none c hc] at plain
  cases plain

/-- The identifier of a name that has a letter or a digit is written in its case. -/
theorem isNamed_of_isUsable (case : Case) {raw : String} (h : isUsable raw = true) :
    case.isNamed (of case raw) = true := by
  obtain ⟨c, rest, plain, written⟩ := exists_ofChars_eq (words_ne_nil_of_isUsable h)
  obtain ⟨first, opens⟩ := case.first_of_isAlphanum (plain c List.mem_cons_self)
  rw [of, written]
  refine isNamed_guardDigit case opens fun d hd => ?_
  rcases List.mem_cons.mp hd with rfl | hd
  · exact first
  · exact plain d (List.mem_cons_of_mem _ hd)

theorem ne_empty_of_isNamed {case : Case} {name : String} (h : case.isNamed name = true) :
    name ≠ "" := by
  rintro rfl
  cases case <;> cases h

/-- **A name has an identifier if it has a letter or a digit**, in either case. -/
theorem of_ne_empty_iff {case : Case} {raw : String} : of case raw ≠ "" ↔ isUsable raw = true := by
  constructor
  · intro named
    cases usable : isUsable raw with
    | true => rfl
    | false =>
        have none : words raw.toList = [] := by
          refine words_eq_nil_iff.mpr fun c hc => ?_
          simpa using List.any_eq_false.mp usable c hc
        refine absurd ?_ named
        rw [of, ofChars, none]
        cases case <;> rfl
  · exact fun usable => ne_empty_of_isNamed (isNamed_of_isUsable case usable)

/-- **An identifier is written in its case**, unless it is empty. -/
theorem isNamed_of {case : Case} {raw : String} (named : of case raw ≠ "") :
    case.isNamed (of case raw) = true :=
  isNamed_of_isUsable case (of_ne_empty_iff.mp named)

/-- An identifier has its name as its alias where the two differ. -/
theorem alias?_resolve (case : Case) (raw : String) :
    (resolve case raw).alias? = if raw = of case raw then none else some raw := by
  unfold resolve
  by_cases same : raw = of case raw
  · simp [needsAlias, ← same]
  · simp [needsAlias, same]

/-- The identifier of a name with its alias tells the name. -/
theorem getD_alias?_resolve (case : Case) (raw : String) :
    (resolve case raw).alias?.getD (resolve case raw).identifier = raw := by
  rw [alias?_resolve]
  by_cases same : raw = of case raw
  · rw [if_pos same]
    exact same.symm
  · rw [if_neg same]
    rfl

end Identifier

end SchemaLoom
