import Mathlib.Data.List.TakeDrop
import SchemaLoom.Proofs.Baml.Normal
import SchemaLoom.Proofs.Json.Pointers
import SchemaLoom.Proofs.Json.Strings

set_option autoImplicit false

/-! # Types are read back

The text of a type is read back by a reader that knows two levels: alternatives, separated by
bars, and items, a leaf or alternatives in parentheses with the marks behind it. What is read is the
normal form of the type. Names have to start with an upper-case letter, so that no keyword and no
number is one, and a union needs two members, so that its text has a bar.
-/

namespace SchemaLoom

namespace DataType

/-- The type of alternatives: one alternative is itself. -/
def ofAlternatives : List DataType → DataType
  | [t] => t
  | ts => .union ts false

/-- Whether the type is a union that is written without parentheses. -/
def isBareUnion (t : DataType) : Bool := t.isUnion && !t.isOptional

theorem alternatives_of_not_bareUnion {t : DataType} (h : t.isBareUnion = false) :
    t.alternatives = [t] := by
  cases t with
  | leaf l o => rfl
  | list item o => rfl
  | union members o =>
      cases o with
      | true => rfl
      | false => cases h

theorem isBareUnion_normal (t : DataType) : t.normal.isBareUnion = t.isBareUnion := by
  cases t <;> simp [normal, isBareUnion, isUnion, isOptional]

theorem ofAlternatives_of_two_le {ts : List DataType} (h : 2 ≤ ts.length) :
    ofAlternatives ts = .union ts false := by
  unfold ofAlternatives
  split
  · exact absurd h (Nat.not_succ_le_self 1)
  · rfl

/-- A type is told by its alternatives. -/
theorem ofAlternatives_normal {t : DataType} (h : t.wellFormed = true) :
    ofAlternatives t.normal.alternatives = t.normal := by
  cases t with
  | leaf l o => rfl
  | list item o => rfl
  | union members o =>
      cases o with
      | true => rfl
      | false =>
          obtain ⟨two, all⟩ := wellFormed_union h
          have long := length_normalMembers all
          exact ofAlternatives_of_two_le (Nat.le_trans two long)

end DataType

namespace Baml

open DataType (ofAlternatives)

/-! ## Reading leaves -/

/-- The characters of words, which are names, keywords and integers. -/
def wordChar (c : Char) : Bool := c.isAlphanum || c = '-'

/-- The characters of integers. -/
def numberChar (c : Char) : Bool := c = '-' || c.isDigit

/-- The integer of a word. -/
def intOf : List Char → Int
  | '-' :: digits => -(Nat.ofDigitChars 10 digits 0 : Int)
  | digits => (Nat.ofDigitChars 10 digits 0 : Int)

/-- The leaves that are written as a word that starts with a lower-case letter. -/
def keywordLeaves : List Leaf :=
  [.string, .int, .float, .bool, .null, .literalBool true, .literalBool false]

/-- The leaf of a word. -/
def leafOfWord? (word : List Char) : Option Leaf :=
  match word with
  | [] => none
  | c :: _ =>
      if c.isUpper then some (.classRef (String.ofList word))
      else if numberChar c then some (.literalInt (intOf word))
      else keywordLeaves.find? fun l => leafSource l = word

/-- Reads a leaf off the front of a text. -/
def readLeaf (cs : List Char) : Option (Leaf × List Char) :=
  match cs with
  | '"' :: rest =>
      match scanString rest with
      | (.good text, some rest) => some (.literalString text, rest)
      | _ => none
  | cs =>
      let (word, rest) := cs.span wordChar
      (leafOfWord? word).map fun l => (l, rest)

/-- A text does not go on with a character of a kind. -/
def Ends (p : Char → Bool) (rest : List Char) : Prop := ∀ c ∈ rest.head?, p c = false

theorem Ends.cons {p : Char → Bool} {c : Char} {rest : List Char} (h : p c = false) :
    Ends p (c :: rest) := by
  rintro _ ⟨⟩
  exact h

theorem Ends.mono {p q : Char → Bool} {rest : List Char} (h : Ends p rest)
    (imp : ∀ c, q c = true → p c = true) : Ends q rest := by
  intro c hc
  cases goesOn : q c with
  | false => rfl
  | true =>
      rw [← h c hc]
      exact (imp c goesOn).symm

theorem span_append {p : Char → Bool} {word rest : List Char} (h : ∀ c ∈ word, p c = true)
    (ends : Ends p rest) : (word ++ rest).span p = (word, rest) := by
  have stop : rest.takeWhile p = [] ∧ rest.dropWhile p = rest := by
    cases rest with
    | nil => exact ⟨rfl, rfl⟩
    | cons c more =>
        have off : p c = false := ends c rfl
        simp [off]
  rw [List.span_eq_takeWhile_dropWhile, List.takeWhile_append_of_pos h,
    List.dropWhile_append_of_pos h, stop.1, stop.2, List.append_nil]

theorem intOf_intText (value : Int) : intOf (JsonNumber.intText value) = value := by
  have back := Nat.ofDigitChars_toDigits (b := 10) (n := value.natAbs) (by omega) (by omega)
  unfold JsonNumber.intText
  split
  · rw [intOf, back]
    omega
  · rw [intOf, back]
    · omega
    · intro digits same
      have minus : '-' ∈ Nat.toDigits 10 value.natAbs := same ▸ List.mem_cons_self
      exact Pointer.not_mem_toDigits rfl minus

theorem wordChar_of_numberChar {c : Char} (h : numberChar c = true) : wordChar c = true := by
  rw [numberChar, Bool.or_eq_true] at h
  rcases h with minus | digit
  · simp [wordChar, minus]
  · simp [wordChar, Char.isAlphanum, digit]

theorem not_upper_of_numberChar {c : Char} (h : numberChar c = true) : c.isUpper = false := by
  rw [numberChar, Bool.or_eq_true, decide_eq_true_eq] at h
  rcases h with rfl | digit
  · rfl
  · have below : c.toNat ≤ 57 := (Char.isDigit_iff_toNat.1 digit).2
    cases upper : c.isUpper with
    | false => rfl
    | true =>
        have above : 'A'.val ≤ c.val := (of_decide_eq_true upper).1
        have atLeast : 65 ≤ c.toNat := UInt32.le_iff_toNat_le.1 above
        omega

theorem numberChar_of_mem_intText {value : Int} {c : Char} (h : c ∈ JsonNumber.intText value) :
    numberChar c = true := by
  have ofDigits (h : c ∈ Nat.toDigits 10 value.natAbs) : numberChar c = true := by
    have digit := Nat.isDigit_of_mem_toDigits (by omega) (by omega) h
    rw [numberChar, digit, Bool.or_true]
  unfold JsonNumber.intText at h
  split at h
  · rcases List.mem_cons.1 h with rfl | digits
    · rfl
    · exact ofDigits digits
  · exact ofDigits h

theorem leafOfWord?_intText (value : Int) :
    leafOfWord? (JsonNumber.intText value) = some (.literalInt value) := by
  cases text : JsonNumber.intText value with
  | nil =>
      unfold JsonNumber.intText at text
      split at text
      · cases text
      · exact absurd text Nat.toDigits_ne_nil
  | cons c more =>
      have mem : c ∈ JsonNumber.intText value := text ▸ List.mem_cons_self
      have number : numberChar c = true := numberChar_of_mem_intText mem
      have back := intOf_intText value
      rw [text] at back
      simp only [leafOfWord?, not_upper_of_numberChar number, Bool.false_eq_true, if_false, back]
      exact if_pos number

theorem leafOfWord?_typeName {name : String} (h : isTypeName name = true) :
    leafOfWord? name.toList = some (.classRef name) := by
  have upper := (Bool.and_eq_true_iff.1 h).2
  cases text : name.toList with
  | nil => simp [text] at upper
  | cons c more =>
      rw [text, List.head?_cons, Option.any_some] at upper
      rw [leafOfWord?, if_pos upper, ← text, String.ofList_toList]

theorem wordChar_of_mem_identifier {name : String} (h : isIdentifier name = true) {c : Char}
    (hc : c ∈ name.toList) : wordChar c = true := by
  have all := List.all_eq_true.1 (Bool.and_eq_true_iff.1 h).2 c hc
  rw [wordChar, all, Bool.true_or]

theorem readLeaf_word {word rest : List Char} {l : Leaf} (h : word.all wordChar = true)
    (told : leafOfWord? word = some l) (ends : Ends wordChar rest) :
    readLeaf (word ++ rest) = some (l, rest) := by
  cases word with
  | nil => cases told
  | cons c more =>
      -- A quote would start a literal, but it is no character of a word.
      have noQuote : c ≠ '"' := by
        rintro rfl
        cases h
      unfold readLeaf
      split
      · next same => exact absurd (List.cons.inj same).1 noQuote
      · rw [span_append (List.all_eq_true.1 h) ends]
        simp only [told, Option.map_some]

/-- **A leaf is read back.** -/
theorem readLeaf_leafSource {l : Leaf} (h : l.wellFormed = true) {rest : List Char}
    (ends : Ends wordChar rest) : readLeaf (leafSource l ++ rest) = some (l.normal, rest) := by
  have reference (name : String) (named : isTypeName name = true) :
      readLeaf (name.toList ++ rest) = some (.classRef name, rest) := by
    have word := (Bool.and_eq_true_iff.1 named).1
    have all : name.toList.all wordChar = true :=
      List.all_eq_true.2 fun c hc => wordChar_of_mem_identifier word hc
    exact readLeaf_word all (leafOfWord?_typeName named) ends
  cases l with
  | literalString text =>
      show readLeaf ('"' :: text.toList.flatMap Json.escapedChar ++ ['"'] ++ rest) = _
      rw [List.append_assoc, List.cons_append, List.singleton_append, readLeaf,
        Json.scanString_written, String.ofList_toList]
      rfl
  | literalInt value =>
      have all : (JsonNumber.intText value).all wordChar = true :=
        List.all_eq_true.2 fun c hc => wordChar_of_numberChar (numberChar_of_mem_intText hc)
      exact readLeaf_word all (leafOfWord?_intText value) ends
  | classRef name => exact reference name h
  | enumRef name => exact reference name h
  | literalBool value => cases value <;> exact readLeaf_word rfl rfl ends
  | _ => exact readLeaf_word rfl rfl ends

/-! ## Reading types -/

/-- Reads the marks behind an item. -/
def readMarks (t : DataType) : List Char → DataType × List Char
  | '[' :: ']' :: rest => readMarks (.list t false) rest
  | '?' :: rest => readMarks t.optional rest
  | rest => (t, rest)

mutual

/-- Reads alternatives separated by bars. The text after a bar is shorter, for whatever items may
be. -/
def readAlternatives (cs : List Char) : Option (List DataType × List Char) :=
  match readItem cs with
  | some (t, ' ' :: '|' :: ' ' :: rest) =>
      if rest.length < cs.length then
        (readAlternatives rest).map fun (ts, rest) => (t :: ts, rest)
      else none
  | some (t, rest) => some ([t], rest)
  | none => none
termination_by (cs.length, 1)

/-- Reads a leaf, or alternatives in parentheses, with the marks behind it. -/
def readItem (cs : List Char) : Option (DataType × List Char) :=
  match readLeaf cs with
  | some (l, rest) => some (readMarks (.leaf l false) rest)
  | none =>
      match cs with
      | '(' :: inner =>
          match readAlternatives inner with
          | some (ts, ')' :: rest) => some (readMarks (ofAlternatives ts) rest)
          | _ => none
      | _ => none
termination_by (cs.length, 0)

end

/-- Reads a type off the front of a text. -/
def readType (cs : List Char) : Option (DataType × List Char) :=
  (readAlternatives cs).map fun (ts, rest) => (ofAlternatives ts, rest)

/-- Reads the alternatives after the ones read, if there is a bar. -/
def readMore (ts : List DataType) (rest : List Char) : Option (List DataType × List Char) :=
  match rest with
  | ' ' :: '|' :: ' ' :: rest => (readAlternatives rest).map fun (more, rest) => (ts ++ more, rest)
  | rest => some (ts, rest)

/-- The characters that go on with an item. -/
def itemChar (c : Char) : Bool := wordChar c || c = '[' || c = '?'

theorem readMarks_of_ends (t : DataType) {rest : List Char} (ends : Ends itemChar rest) :
    readMarks t rest = (t, rest) := by
  match rest, ends with
  | [], _ => rfl
  | c :: more, ends =>
      have off := ends c rfl
      unfold readMarks
      split
      · next same =>
          obtain ⟨rfl, -⟩ := List.cons.inj same
          exact absurd off (by decide)
      · next same =>
          obtain ⟨rfl, -⟩ := List.cons.inj same
          exact absurd off (by decide)
      · rfl

/-- Where an item is read, the alternatives go on after it. -/
theorem readAlternatives_of_item {cs rest : List Char} {t : DataType}
    (item : readItem cs = some (t, rest)) (shorter : rest.length ≤ cs.length) :
    readAlternatives cs = readMore [t] rest := by
  rw [readAlternatives, item]
  unfold readMore
  split
  · next t' rest' same =>
      obtain ⟨rfl, rfl⟩ := Prod.mk.inj (Option.some.inj same)
      have less : rest'.length < cs.length := by
        simp only [List.length_cons] at shorter
        omega
      rw [if_pos less]
      rfl
  · next t' rest' other same =>
      obtain ⟨rfl, rfl⟩ := Prod.mk.inj (Option.some.inj same)
      split
      · exact absurd rfl (other _)
      · rfl
  · next h => cases h

theorem readItem_parenthesized {inner rest : List Char} {ts : List DataType}
    (read : readAlternatives (inner ++ ')' :: rest) = some (ts, ')' :: rest)) :
    readItem (parenthesized inner ++ rest) = some (readMarks (ofAlternatives ts) rest) := by
  have text : parenthesized inner ++ rest = '(' :: (inner ++ ')' :: rest) := by
    simp [parenthesized]
  have noLeaf : readLeaf ('(' :: (inner ++ ')' :: rest)) = none := rfl
  rw [text, readItem.eq_def, noLeaf]
  simp only [read]

theorem readMore_append (ts us : List DataType) (rest : List Char) :
    (readMore us rest).map (fun (more, rest) => (ts ++ more, rest)) = readMore (ts ++ us) rest := by
  unfold readMore
  split
  · rw [Option.map_map]
    refine Option.map_congr fun read _ => ?_
    simp only [Function.comp_apply, List.append_assoc]
  · rfl

/-! ## Types in context -/

/-- What is read of a text that starts with the type: as an item, which marks may follow, unless the
type is a bare union, and as alternatives, which more may follow. -/
structure Reads (context : String) (t : DataType) : Prop where
  item {rest : List Char} : t.isBareUnion = false → Ends wordChar rest →
    readItem ((typeSource context t).1 ++ rest) = some (readMarks t.normal rest)
  alternatives {rest : List Char} : Ends itemChar rest →
    readAlternatives ((typeSource context t).1 ++ rest) = readMore t.normal.alternatives rest

section

variable {context : String} {t : DataType} {rest : List Char}

/-- A type that is read as an item is read as the one alternative that it is. -/
theorem Reads.of_item (whole : t.isBareUnion = false)
    (item : ∀ {rest : List Char}, Ends wordChar rest →
      readItem ((typeSource context t).1 ++ rest) = some (readMarks t.normal rest)) :
    Reads context t where
  item _ ends := item ends
  alternatives {rest} ends := by
    have word : Ends wordChar rest :=
      ends.mono fun c h => by simp only [itemChar, h, Bool.true_or]
    have read := item word
    -- No mark follows, so what is read as an item is the type itself.
    rw [readMarks_of_ends t.normal ends] at read
    have one : t.normal.alternatives = [t.normal] :=
      DataType.alternatives_of_not_bareUnion ((DataType.isBareUnion_normal t).trans whole)
    rw [one]
    exact readAlternatives_of_item read (by simp)

/-- A mark is read where it is written. -/
theorem readItem_marked (plain : DataType) {text : List Char} (single : t.isUnion = false)
    (told : plain.withOptional (t.isOptional && !t.isNull) = t.normal)
    (read : ∀ {rest : List Char}, Ends wordChar rest →
      readItem (text ++ rest) = some (readMarks plain rest)) (ends : Ends wordChar rest) :
    readItem (marked t text ++ rest) = some (readMarks t.normal rest) := by
  cases mark : t.isOptional && !t.isNull with
  | true =>
      rw [mark] at told
      have written : marked t text ++ rest = text ++ '?' :: rest := by
        simp [marked, mark, single]
      have after : Ends wordChar ('?' :: rest) := .cons rfl
      rw [written, read after, ← told]
      rfl
  | false =>
      rw [mark, DataType.withOptional_false] at told
      have written : marked t text = text := by simp [marked, mark]
      rw [written, read ends, told]

/-- A type in parentheses is read as an item, be it bare or not: the parentheses hold its
alternatives, and those tell it. -/
theorem Reads.parenthesized (h : Reads context t) (formed : t.wellFormed = true) :
    readItem (parenthesized (typeSource context t).1 ++ rest)
      = some (readMarks t.normal rest) := by
  have closing : Ends itemChar (')' :: rest) := .cons rfl
  rw [readItem_parenthesized (h.alternatives closing), DataType.ofAlternatives_normal formed]

/-- An item type is read in front of brackets. -/
theorem Reads.list {item : DataType} {o : Bool} (h : Reads context item)
    (formed : item.wellFormed = true) : Reads context (.list item o) := by
  have brackets {rest : List Char} :
      readItem (grouped item (typeSource context item).1 ++ '[' :: ']' :: rest)
        = some (readMarks (.list item.normal false) rest) := by
    unfold grouped
    split
    · exact h.parenthesized formed
    · next bare =>
        have whole : item.isBareUnion = false := by
          cases union : item.isBareUnion with
          | false => rfl
          | true => exact absurd (Bool.or_eq_true_iff.2 (.inl union)) bare
        have ends : Ends wordChar ('[' :: ']' :: rest) := .cons rfl
        exact h.item whole ends
  -- The brackets are a mark of the item, the mark of the list stands behind them.
  refine .of_item rfl fun ends => ?_
  show readItem
    (marked (.list item o) (grouped item (typeSource context item).1 ++ ['[', ']']) ++ _) = _
  refine readItem_marked (.list item.normal false) rfl ?_ (fun _ => ?_) ends
  · simp [DataType.isOptional, DataType.isNull, DataType.withOptional, DataType.normal]
  · rw [List.append_assoc]
    exact brackets

theorem Reads.leaf {l : Leaf} {o : Bool} (formed : l.wellFormed = true) :
    Reads context (.leaf l o) := by
  have read {rest : List Char} (ends : Ends wordChar rest) :
      readItem (leafSource l ++ rest) = some (readMarks (.leaf l.normal false) rest) := by
    rw [readItem.eq_def, readLeaf_leafSource formed ends]
  refine .of_item rfl fun ends => ?_
  refine readItem_marked (.leaf l.normal false) rfl ?_ read ends
  cases l <;> simp [DataType.isOptional, DataType.isNull, DataType.withOptional, DataType.normal]

/-- What is read of a text that starts with the members of a union. -/
def ReadsMembers (context : String) (ts : List DataType) : Prop :=
  ∀ {rest : List Char}, Ends itemChar rest →
    readAlternatives (Baml.alternatives (typeSources context ts).1 ++ rest)
      = readMore (DataType.normalMembers ts) rest

theorem Reads.union {members : List DataType} {o : Bool} (h : ReadsMembers context members)
    (formed : (DataType.union members o).wellFormed = true) : Reads context (.union members o) := by
  cases o with
  | false => exact ⟨nofun, h⟩
  | true =>
      refine .of_item rfl fun {rest} _ => ?_
      have closing : Ends itemChar (')' :: '?' :: rest) := .cons rfl
      have read := readItem_parenthesized (h closing)
      have told : ofAlternatives (DataType.normalMembers members)
          = .union (DataType.normalMembers members) false :=
        DataType.ofAlternatives_normal (t := .union members false) formed
      rw [told] at read
      show readItem (Baml.parenthesized _ ++ ['?'] ++ rest) = _
      rw [List.append_assoc]
      exact read

theorem ReadsMembers.singleton (h : Reads context t) : ReadsMembers context [t] := by
  intro rest ends
  have alone : Baml.alternatives (typeSources context [t]).1 = (typeSource context t).1 :=
    List.intercalate_singleton
  rw [alone, h.alternatives ends, DataType.normalMembers, DataType.normalMembers, List.append_nil]

theorem ReadsMembers.cons {next : DataType} {ts : List DataType} (h : Reads context t)
    (more : ReadsMembers context (next :: ts)) : ReadsMembers context (t :: next :: ts) := by
  intro rest ends
  have bar : Baml.alternatives (typeSources context (t :: next :: ts)).1 ++ rest
      = (typeSource context t).1 ++ ' ' :: '|' :: ' '
        :: (Baml.alternatives (typeSources context (next :: ts)).1 ++ rest) := by
    show " | ".toList.intercalate ((typeSource context t).1 :: (typeSource context next).1
      :: (typeSources context ts).1) ++ rest = _
    rw [List.intercalate_cons_cons, List.append_assoc, List.append_assoc]
    rfl
  have blank : Ends itemChar (' ' :: '|' :: ' '
      :: (Baml.alternatives (typeSources context (next :: ts)).1 ++ rest)) := .cons rfl
  rw [bar, h.alternatives blank, readMore, more ends, readMore_append]
  rfl

end

mutual

/-- **A type is read back in its normal form**, whatever follows it that does not go on with it.
The item of a list is read as an item or in parentheses as alternatives, so both readings are
carried through the induction. -/
theorem reads_typeSource (context : String) : ∀ {t : DataType}, t.wellFormed = true →
    Reads context t
  | .leaf _ _, formed => .leaf formed
  | .list _ _, formed => .list (reads_typeSource context formed) formed
  | .union members _, formed => by
      obtain ⟨two, all⟩ := DataType.wellFormed_union formed
      have some : members ≠ [] := by
        rintro rfl
        cases two
      exact .union (reads_typeSources context some all) formed

theorem reads_typeSources (context : String) : ∀ {ts : List DataType}, ts ≠ [] →
    DataType.wellFormedAll ts = true → ReadsMembers context ts
  | [], members, _ => absurd rfl members
  | [t], _, formed => by
      have first := (Bool.and_eq_true_iff.1 formed).1
      exact ReadsMembers.singleton (reads_typeSource context first)
  | t :: next :: ts, _, formed => by
      have both := Bool.and_eq_true_iff.1 formed
      exact ReadsMembers.cons (reads_typeSource context both.1)
        (reads_typeSources context (List.cons_ne_nil next ts) both.2)

end

theorem readType_typeSource (context : String) {t : DataType} (formed : t.wellFormed = true)
    {rest : List Char} (ends : Ends itemChar rest)
    (noBar : ∀ more, rest ≠ ' ' :: '|' :: ' ' :: more) :
    readType ((typeSource context t).1 ++ rest) = some (t.normal, rest) := by
  have last : readMore t.normal.alternatives rest = some (t.normal.alternatives, rest) := by
    unfold readMore
    split
    · exact absurd rfl (noBar _)
    · rfl
  rw [readType, (reads_typeSource context formed).alternatives ends, last, Option.map_some]
  simp only [DataType.ofAlternatives_normal formed]

end Baml

end SchemaLoom
