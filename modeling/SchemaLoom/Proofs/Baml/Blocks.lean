import SchemaLoom.Proofs.Baml.RawStrings
import SchemaLoom.Proofs.Baml.Types

set_option autoImplicit false

/-! # Blocks are read back

Readers for what all blocks have in common: words, attributes that may be absent, lines with a
name and blocks with lines. A reader takes what it reads off the front of a text and leaves the
rest. Each one is followed by what it reads of the text that is written for it, in front of any rest
that cannot be taken for a part of it.
-/

namespace SchemaLoom.Baml

/-- A reader of values off the front of a text. -/
abbrev Reader (α : Type) : Type := StateT (List Char) Option α

section

variable {α β : Type}

theorem Reader.bind_eq_of_eq {read : Reader α} {cs rest : List Char} {x : α}
    (h : read cs = some (x, rest)) (next : α → Reader β) : (read >>= next) cs = next x rest := by
  show (read cs).bind _ = _
  rw [h]
  rfl

theorem Reader.bind_eq_none {read : Reader α} {cs : List Char} (h : read cs = none)
    (next : α → Reader β) : (read >>= next) cs = none := by
  show (read cs).bind _ = _
  rw [h]
  rfl

/-! ## Words and attributes -/

/-- Takes a fixed text. -/
def expect (label : List Char) : Reader Unit := fun cs =>
  (cs.dropPrefix? label).map fun rest => ((), rest)

theorem dropPrefix?_append (label rest : List Char) :
    (label ++ rest).dropPrefix? label = some rest :=
  List.dropPrefix?_eq_some_iff.2 ⟨label, rfl, beq_self_eq_true label⟩

theorem expect_append (label rest : List Char) :
    expect label (label ++ rest) = some ((), rest) := by
  rw [expect, dropPrefix?_append]
  rfl

/-- Reads a name. -/
def readName : Reader String := fun cs =>
  let (word, rest) := cs.span Char.isAlphanum
  if word.isEmpty then none else some (String.ofList word, rest)

theorem readName_append {name : String} (h : isIdentifier name = true) {rest : List Char}
    (ends : Ends Char.isAlphanum rest) : readName (name.toList ++ rest) = some (name, rest) := by
  obtain ⟨nonempty, all⟩ := Bool.and_eq_true_iff.1 h
  -- An empty word is no name, so that a line of attributes is no line of a part.
  have filled : name.toList.isEmpty = false := by simpa using nonempty
  rw [readName, span_append (List.all_eq_true.1 all) ends]
  simp only [filled, Bool.false_eq_true, if_false, String.ofList_toList]

/-- Reads a quoted string. -/
def readQuoted : Reader String
  | '"' :: rest =>
      match scanString rest with
      | (.good text, some rest) => some (text, rest)
      | _ => none
  | _ => none

theorem readQuoted_append (text : String) (rest : List Char) :
    readQuoted (Json.quotedChars text.toList ++ rest) = some (text, rest) := by
  have written : Json.quotedChars text.toList ++ rest
      = '"' :: (text.toList.flatMap Json.escapedChar ++ '"' :: rest) := by
    simp [Json.quotedChars]
  rw [written, readQuoted, Json.scanString_written, String.ofList_toList]

/-- Reads a raw string as a value. -/
def readRawText : Reader String := fun cs =>
  (readRaw cs).map fun (text, rest) => (String.ofList text, rest)

theorem readRawText_append (text : String) (rest : List Char) :
    readRawText (rawString text.toList ++ rest) = some (text, rest) := by
  rw [readRawText, readRaw_rawString, Option.map_some]
  simp only [String.ofList_toList]

/-- Reads what stands between an opening and a closing text, if the opening text is there. -/
def readOptional (opening closing : List Char) (read : Reader α) : Reader (Option α) := fun cs =>
  match cs.dropPrefix? opening with
  | none => some (none, cs)
  | some inner => (do
      let x ← read
      expect closing
      return some x : Reader (Option α)) inner

/-- What is only written when it is present is read as present or absent. -/
theorem readOptional_append (source : Option α → List Char) {opening closing : List Char}
    {read : Reader α} {write : α → List Char}
    (back : ∀ x rest, read (write x ++ rest) = some (x, rest)) (absent : source none = [])
    (present : ∀ x, source (some x) = opening ++ (write x ++ closing)) (x? : Option α)
    {rest : List Char} (h : rest.dropPrefix? opening = none) :
    readOptional opening closing read (source x? ++ rest) = some (x?, rest) := by
  cases x? with
  | none => rw [absent, List.nil_append, readOptional, h]
  | some x =>
      have first := back x (closing ++ rest)
      rw [present, List.append_assoc, List.append_assoc, readOptional, dropPrefix?_append]
      show (read >>= _) _ = _
      rw [Reader.bind_eq_of_eq first, Reader.bind_eq_of_eq (expect_append closing rest)]
      rfl

/-- Reads the description of a part. -/
def readDescription : Reader (Option String) :=
  readOptional " @description(".toList [')'] readRawText

theorem readDescription_append (description? : Option String) {rest : List Char}
    (h : rest.dropPrefix? " @description(".toList = none) :
    readDescription (descriptionSource [' ', '@'] description? ++ rest)
      = some (description?, rest) := by
  refine readOptional_append (descriptionSource [' ', '@']) readRawText_append rfl (fun _ => ?_)
    description? h
  simp [descriptionSource]

/-- Reads the alias of a part. -/
def readAlias : Reader (Option String) := readOptional " @alias(".toList [')'] readQuoted

theorem readAlias_append (alias? : Option String) {rest : List Char}
    (h : rest.dropPrefix? " @alias(".toList = none) :
    readAlias (aliasSource [' ', '@'] alias? ++ rest) = some (alias?, rest) := by
  refine readOptional_append (aliasSource [' ', '@']) readQuoted_append rfl (fun _ => ?_) alias? h
  simp [aliasSource]

/-! ## Repetition -/

/-- Reads as many values as there are. Each leaves a shorter text, for whatever the reader is. -/
def readMany (read : Reader α) (cs : List Char) : List α × List Char :=
  match read cs with
  | some (x, rest) =>
      if rest.length < cs.length then
        let (xs, rest) := readMany read rest
        (x :: xs, rest)
      else ([], cs)
  | none => ([], cs)
termination_by cs.length

/-- Texts written one after the other are read one after the other. -/
theorem readMany_flatMap (told : β → α) {read : Reader α} {write : β → List Char}
    {rest : List Char} (stop : read rest = none) (xs : List β)
    (back : ∀ x ∈ xs, ∀ rest, read (write x ++ rest) = some (told x, rest))
    (filled : ∀ x ∈ xs, write x ≠ []) :
    readMany read (xs.flatMap write ++ rest) = (xs.map told, rest) := by
  induction xs with
  | nil =>
      rw [readMany, List.flatMap_nil, List.nil_append, stop]
      rfl
  | cons x more ih =>
      have here := List.mem_cons_self (a := x) (l := more)
      have shorter : (more.flatMap write ++ rest).length
          < ((x :: more).flatMap write ++ rest).length := by
        have positive := List.length_pos_of_ne_nil (filled x here)
        simp only [List.flatMap_cons, List.length_append]
        omega
      have first := back x here (more.flatMap write ++ rest)
      rw [← List.append_assoc, ← List.flatMap_cons] at first
      rw [readMany, first]
      simp only [shorter, if_true]
      rw [ih (fun y hy => back y (List.mem_cons_of_mem x hy))
        fun y hy => filled y (List.mem_cons_of_mem x hy)]
      rfl

/-! ## Lines -/

/-- Reads a line that starts with a name. -/
def readLine (readTail : String → Reader α) : Reader α := do
  expect [' ', ' ']
  let name ← readName
  let x ← readTail name
  expect ['\n']
  return x

theorem readLine_line {readTail : String → Reader α} {name : String} {tail rest : List Char} {x : α}
    (named : isIdentifier name = true) (ends : Ends Char.isAlphanum (tail ++ ['\n']))
    (read : readTail name (tail ++ '\n' :: rest) = some (x, '\n' :: rest)) :
    readLine readTail (line (name.toList ++ tail) ++ rest) = some (x, rest) := by
  have written : line (name.toList ++ tail) ++ rest
      = [' ', ' '] ++ (name.toList ++ (tail ++ '\n' :: rest)) := by
    simp [line]
  have after : Ends Char.isAlphanum (tail ++ '\n' :: rest) := by
    cases tail with
    | nil => exact ends
    | cons c more => exact ends
  have last : expect ['\n'] ('\n' :: rest) = some ((), rest) := expect_append ['\n'] rest
  rw [written]
  unfold readLine
  rw [Reader.bind_eq_of_eq (expect_append _ _), Reader.bind_eq_of_eq (readName_append named after),
    Reader.bind_eq_of_eq read, Reader.bind_eq_of_eq last]
  rfl

/-! ## Blocks -/

/-- Reads the description of a block, on a line of its own. -/
def readBlockDescription : Reader (Option String) :=
  readOptional "  @@description(".toList [')', '\n'] readRawText

theorem readBlockDescription_append (description? : Option String) {rest : List Char}
    (h : rest.dropPrefix? "  @@description(".toList = none) :
    readBlockDescription (attributeLine (descriptionSource ['@', '@'] description?) ++ rest)
      = some (description?, rest) := by
  refine readOptional_append (fun x? => attributeLine (descriptionSource ['@', '@'] x?))
    readRawText_append rfl (fun _ => ?_) description? h
  simp [descriptionSource, attributeLine, line]

/-- Reads the alias of a block, on a line of its own. -/
def readBlockAlias : Reader (Option String) :=
  readOptional "  @@alias(".toList [')', '\n'] readQuoted

theorem readBlockAlias_append (alias? : Option String) {rest : List Char}
    (h : rest.dropPrefix? "  @@alias(".toList = none) :
    readBlockAlias (attributeLine (aliasSource ['@', '@'] alias?) ++ rest)
      = some (alias?, rest) := by
  refine readOptional_append (fun x? => attributeLine (aliasSource ['@', '@'] x?))
    readQuoted_append rfl (fun _ => ?_) alias? h
  simp [aliasSource, attributeLine, line]

/-- Reads the lines of a block. -/
def readLines (readTail : String → Reader α) : Reader (List α) := fun cs =>
  some (readMany (readLine readTail) cs)

/-- Reads a block of a kind: the lines, each with a name and a tail, and the attributes. -/
def readBlock (kind : String) (readTail : String → Reader α)
    (make : String → List α → Option String → Option String → DataModel) : Reader DataModel := do
  expect (kind.toList ++ [' '])
  let name ← readName
  expect [' ', '\x7b', '\n']
  let parts ← readLines readTail
  let description? ← readBlockDescription
  let alias? ← readBlockAlias
  expect ['\x7d', '\n']
  return make name parts description? alias?

/-- No line of a part is where the attributes of a block or its end are. -/
theorem readLine_blockAttributes (readTail : String → Reader α)
    (description? alias? : Option String) (rest : List Char) :
    readLine readTail (blockAttributes description? alias? ++ '\x7d' :: rest) = none := by
  cases description? <;> cases alias? <;> rfl

/-- **A block is read back**, where its lines are. -/
theorem readBlock_block {kind : String} {readTail : String → Reader α}
    (make : String → List α → Option String → Option String → DataModel) {name : String}
    (named : isIdentifier name = true) {lines : List Char} {parts : List α}
    (read : ∀ {rest : List Char}, readLine readTail rest = none →
      readLines readTail (lines ++ rest) = some (parts, rest))
    (description? alias? : Option String) (rest : List Char) :
    readBlock kind readTail make
        (block kind name (lines ++ blockAttributes description? alias?) ++ rest)
      = some (make name parts description? alias?, rest) := by
  have written : block kind name (lines ++ blockAttributes description? alias?) ++ rest
      = (kind.toList ++ [' ']) ++ (name.toList ++ ([' ', '\x7b', '\n'] ++ (lines
        ++ (blockAttributes description? alias? ++ '\x7d' :: '\n' :: rest)))) := by
    simp [block]
  have blank (more : List Char) : Ends Char.isAlphanum ([' ', '\x7b', '\n'] ++ more) := .cons rfl
  have ended := read (readLine_blockAttributes readTail description? alias? ('\n' :: rest))
  have described : readBlockDescription
        (blockAttributes description? alias? ++ '\x7d' :: '\n' :: rest)
      = some (description?, attributeLine (aliasSource ['@', '@'] alias?)
        ++ '\x7d' :: '\n' :: rest) := by
    rw [blockAttributes, List.append_assoc]
    apply readBlockDescription_append
    cases alias? <;> rfl
  have aliased : readBlockAlias
        (attributeLine (aliasSource ['@', '@'] alias?) ++ '\x7d' :: '\n' :: rest)
      = some (alias?, '\x7d' :: '\n' :: rest) := readBlockAlias_append alias? rfl
  have last : expect ['\x7d', '\n'] ('\x7d' :: '\n' :: rest) = some ((), rest) :=
    expect_append ['\x7d', '\n'] rest
  rw [written]
  unfold readBlock
  rw [Reader.bind_eq_of_eq (expect_append _ _),
    Reader.bind_eq_of_eq (readName_append named (blank _)),
    Reader.bind_eq_of_eq (expect_append _ _), Reader.bind_eq_of_eq ended,
    Reader.bind_eq_of_eq described, Reader.bind_eq_of_eq aliased, Reader.bind_eq_of_eq last]
  rfl

end

end SchemaLoom.Baml
