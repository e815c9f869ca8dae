import SchemaLoom.Json.Printer
import SchemaLoom.Json.Scan

set_option autoImplicit false

/-! # Strings that are written are read back

A string is written with its quotes, backslashes and control characters escaped. Scanning it gives
one unit for each character, a code where the character is written by its digits, and ends at the
closing quote; joining the units gives the characters back. So the text that follows a string never
matters, and different strings are written differently.
-/

namespace SchemaLoom.Json

/-- The code that the escape of a control character stands for. -/
theorem hexValue?_hexDigit {n : Nat} (h : n < 16) : hexValue? (hexDigit n) = some n := by
  have table : ∀ n : Fin 16, hexValue? (hexDigit n) = some n.val := by decide
  exact table ⟨n, h⟩

/-- The characters that are written by a letter of their own. -/
def lettered : List Char := ['"', '\\', '\x08', '\t', '\n', '\x0c', '\r']

theorem escapedChar_of_not_lettered {c : Char} (h : c ∉ lettered) :
    escapedChar c = if c.toNat < 32
      then ['\\', 'u', '0', '0', hexDigit (c.toNat / 16), hexDigit (c.toNat % 16)] else [c] := by
  simp only [lettered, List.mem_cons, List.not_mem_nil, or_false, not_or] at h
  simp [escapedChar, h]

/-- The unit that a written character is scanned as. -/
def unitOf (c : Char) : TextUnit :=
  if c ∉ lettered ∧ c.toNat < 32 then .code c.toNat else .char c

/-- A plain character is scanned as itself. -/
theorem scanUnits_cons {c : Char} (h : c ∉ lettered) (printable : ¬ c.toNat < 32)
    (rest : List Char) : scanUnits (c :: rest) = (scanUnits rest).cons (.char c) := by
  simp only [lettered, List.mem_cons, List.not_mem_nil, or_false, not_or] at h
  rw [scanUnits.eq_def]
  split
  case h_7 first more _ _ _ _ _ same =>
      obtain ⟨rfl, rfl⟩ := List.cons.inj same
      rw [if_neg printable]
  all_goals simp_all

/-- **A written character is scanned as its unit**, whatever follows it. -/
theorem scanUnits_escapedChar (c : Char) (rest : List Char) :
    scanUnits (escapedChar c ++ rest) = (scanUnits rest).cons (unitOf c) := by
  by_cases letter : c ∈ lettered
  · simp only [lettered, List.mem_cons, List.not_mem_nil, or_false] at letter
    rcases letter with rfl | rfl | rfl | rfl | rfl | rfl | rfl <;> rfl
  · rw [escapedChar_of_not_lettered letter]
    by_cases control : c.toNat < 32
    · have first := hexValue?_hexDigit (n := c.toNat / 16) (by omega)
      have second := hexValue?_hexDigit (n := c.toNat % 16) (by omega)
      have code : hexCode? '0' '0' (hexDigit (c.toNat / 16)) (hexDigit (c.toNat % 16))
          = some c.toNat := by
        have zero : hexValue? '0' = some 0 := rfl
        have sum : (0 * 16 + 0) * 256 + c.toNat / 16 * 16 + c.toNat % 16 = c.toNat := by omega
        simp only [hexCode?, first, second, zero]
        exact congrArg some sum
      have unit : unitOf c = .code c.toNat := if_pos ⟨letter, control⟩
      rw [if_pos control, unit]
      simp only [List.cons_append, List.nil_append, scanUnits, code]
    · have unit : unitOf c = .char c := if_neg fun both => control both.2
      rw [if_neg control, unit]
      exact scanUnits_cons letter control rest

theorem scanUnits_written (text rest : List Char) :
    scanUnits (text.flatMap escapedChar ++ '"' :: rest) = ⟨text.map unitOf, .closed, rest⟩ := by
  induction text with
  | nil => rfl
  | cons c more ih =>
      rw [List.flatMap_cons, List.append_assoc, scanUnits_escapedChar, ih]
      rfl

/-- The units of a written text are joined to the text. -/
theorem joinUnits_written (text : List Char) :
    joinUnits .closed (text.map unitOf) = .ok text := by
  induction text with
  | nil => rfl
  | cons c more ih =>
      rw [List.map_cons]
      by_cases digits : c ∉ lettered ∧ c.toNat < 32
      · have unit : unitOf c = .code c.toNat := if_pos digits
        have notSecond : isSecondHalf c.toNat = false := by
          simp only [isSecondHalf, Bool.and_eq_false_iff, decide_eq_false_iff_not]
          omega
        have notFirst : isFirstHalf c.toNat = false := by
          simp only [isFirstHalf, Bool.and_eq_false_iff, decide_eq_false_iff_not]
          omega
        rw [unit, joinUnits.eq_def]
        simp only [notSecond, notFirst, ih, Char.ofNat_toNat]
        rfl
      · have unit : unitOf c = .char c := if_neg digits
        rw [unit, joinUnits, ih]
        rfl

/-- **A written string is read back**, and the text after it is left as it is. -/
theorem scanString_written (text rest : List Char) :
    scanString (text.flatMap escapedChar ++ '"' :: rest)
      = (.good (String.ofList text), some rest) := by
  simp only [scanString, scanUnits_written, joinUnits_written, if_true]

end SchemaLoom.Json
