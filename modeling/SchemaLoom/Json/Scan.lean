import SchemaLoom.Json.Draft
import SchemaLoom.Json.Numeral

set_option autoImplicit false

/-! # From text to drafts

`Draft.scan` reads one value off the front of a text. It reads in one pass for strict and
skipping readers alike: every token records what each of them would say.
-/

namespace SchemaLoom

/-- Drops the blanks that may stand between tokens. -/
def skipBlanks (cs : List Char) : List Char :=
  cs.dropWhile fun c => c = ' ' || c = '\n' || c = '\t' || c = '\r'

/-! ## Strings

A string is first cut into units, a unit being a character or a 16-bit code given by an escape.
A second pass joins the codes into characters. -/

/-- A part of a string in a text. -/
inductive TextUnit where
  | char (c : Char)
  | code (n : Nat)
  deriving DecidableEq, Repr

/-- How a string ends after the units that were read. -/
inductive TextStop where
  | closed
  | ended
  | control
  /-- A backslash is followed by a character that starts no escape. -/
  | unknownEscape
  /-- Four hexadecimal digits are due and something else stands there. -/
  | badDigits
  deriving DecidableEq, Repr

/-- The units of a string, the way it ends, and the text after it. -/
structure TextScan where
  units : List TextUnit
  stop : TextStop
  rest : List Char

/-- The scan with a unit put in front. -/
def TextScan.cons (unit : TextUnit) (scan : TextScan) : TextScan :=
  { scan with units := unit :: scan.units }

/-- The value of a hexadecimal digit. -/
def hexValue? (c : Char) : Option Nat :=
  if '0' ≤ c && c ≤ '9' then some (c.toNat - '0'.toNat)
  else if 'a' ≤ c && c ≤ 'f' then some (c.toNat - 'a'.toNat + 10)
  else if 'A' ≤ c && c ≤ 'F' then some (c.toNat - 'A'.toNat + 10)
  else none

/-- The number that four hexadecimal digits denote. -/
def hexCode? (a b c d : Char) : Option Nat := do
  return ((← hexValue? a) * 16 + (← hexValue? b)) * 256 + (← hexValue? c) * 16 + (← hexValue? d)

/-- The character of an escape by a single letter. -/
def escapeLetter? : Char → Option Char
  | '"' => some '"'
  | '\\' => some '\\'
  | '/' => some '/'
  | 'b' => some '\x08'
  | 'f' => some '\x0c'
  | 'n' => some '\n'
  | 'r' => some '\r'
  | 't' => some '\t'
  | _ => none

/-- How many bytes the characters take in the text. -/
def byteCount (cs : List Char) : Nat := (String.ofList cs).utf8ByteSize

/-- Cuts the string that starts after its opening quote into units. An escape by digits takes the
next four bytes, and it is at the end of the text if there are fewer. -/
def scanUnits : List Char → TextScan
  | [] => ⟨[], .ended, []⟩
  | '"' :: rest => ⟨[], .closed, rest⟩
  | '\\' :: 'u' :: a :: b :: c :: d :: rest =>
      match hexCode? a b c d with
      | some n => (scanUnits rest).cons (.code n)
      | none => ⟨[], .badDigits, []⟩
  | '\\' :: 'u' :: rest => ⟨[], if byteCount rest < 4 then .ended else .badDigits, []⟩
  | ['\\'] => ⟨[], .ended, []⟩
  | '\\' :: c :: rest =>
      match escapeLetter? c with
      | some e => (scanUnits rest).cons (.char e)
      | none => ⟨[], .unknownEscape, []⟩
  | c :: rest => if c.toNat < 32 then ⟨[], .control, []⟩ else (scanUnits rest).cons (.char c)

/-- The fault of a string that ends like this, `none` for a closed one. -/
def TextStop.fault? : TextStop → Option SyntaxError
  | closed => none
  | ended => some .endInString
  | control => some .controlCharacter
  | unknownEscape | badDigits => some .badEscape

/-- The fault of a string that ends like this after the first half of a surrogate pair. -/
def TextStop.pairFault : TextStop → SyntaxError
  | ended => .endInString
  | badDigits => .badEscape
  | closed | control | unknownEscape => .brokenPair

/-- Whether a code is the first half of a surrogate pair. -/
def isFirstHalf (n : Nat) : Bool := 0xD800 ≤ n && n ≤ 0xDBFF

/-- Whether a code is the second half of a surrogate pair. -/
def isSecondHalf (n : Nat) : Bool := 0xDC00 ≤ n && n ≤ 0xDFFF

/-- The character of a surrogate pair. -/
def pairedChar (first second : Nat) : Char :=
  Char.ofNat (0x10000 + (first - 0xD800) * 0x400 + (second - 0xDC00))

/-- Joins the units of a string into its characters. -/
def joinUnits (stop : TextStop) : List TextUnit → Except SyntaxError (List Char)
  | [] => match stop.fault? with
      | some fault => .error fault
      | none => .ok []
  | .char c :: rest => return c :: (← joinUnits stop rest)
  | .code n :: rest =>
      if isSecondHalf n then .error .loneSurrogate
      else if isFirstHalf n then
        match rest with
        | [] => .error stop.pairFault
        | .char _ :: _ => .error .brokenPair
        | .code m :: rest =>
            if isSecondHalf m then return pairedChar n m :: (← joinUnits stop rest)
            else .error .loneSurrogate
      else return Char.ofNat n :: (← joinUnits stop rest)

/-- Reads a string after its opening quote. The remaining text is `none` when the text breaks in
the string. -/
def scanString (cs : List Char) : Token String × Option (List Char) :=
  let scan := scanUnits cs
  let token := match joinUnits scan.stop scan.units with
    | .ok chars => .good (String.ofList chars)
    | .error fault => .faulty fault scan.stop.fault?
  (token, if scan.stop = .closed then some scan.rest else none)

/-! ## Numbers and words -/

/-- The fault that a strict reader reports for a failing numeral. -/
def Numeral.Fault.strict : Numeral.Fault → SyntaxError
  | ended => .endInValue
  | malformed => .badNumber

/-- Reads a number. -/
def scanNumber (cs : List Char) : Token JsonNumber × Option (List Char) :=
  match Numeral.scan cs with
  | .ok (numeral, rest) =>
      match numeral.value? with
      | some value => (.good value, some rest)
      | none => (.faulty .numberOutOfRange none, some rest)
  | .error fault => (.faulty fault.strict (some .badNumber), none)

/-- Reads the rest of a word after its first letter. -/
def scanWord (value : Draft) : List Char → List Char → Draft × Option (List Char)
  | [], rest => (value, some rest)
  | _ :: _, [] => (.broken .endInValue, none)
  | w :: word, c :: rest =>
      if w = c then scanWord value word rest else (.broken .expectedWord, none)

/-! ## Values -/

mutual

/-- Reads a value off the front of a text, behind blanks. The first argument bounds the number of
nested calls, the second is the number of arrays and objects that may still be nested. The
remaining text is `none` when the text breaks in the value. -/
def scanValue : Nat → Nat → List Char → Draft × Option (List Char)
  | 0, _, _ => (.broken .endInValue, none)
  | fuel + 1, room, cs =>
      match skipBlanks cs with
      | [] => (.broken .endInValue, none)
      | 'n' :: rest => scanWord .null "ull".toList rest
      | 't' :: rest => scanWord (.bool true) "rue".toList rest
      | 'f' :: rest => scanWord (.bool false) "alse".toList rest
      | '"' :: rest =>
          let (token, rest) := scanString rest
          (.str token, rest)
      | '[' :: rest =>
          let (items, stop, rest) := scanItems fuel (room - 1) true rest
          (.arr (room = 0) items stop, rest)
      | '\x7b' :: rest =>
          let (members, stop, rest) := scanMembers fuel (room - 1) true rest
          (.obj (room = 0) members stop, rest)
      | c :: rest =>
          if c = '-' || c.isDigit then
            let (token, rest) := scanNumber (c :: rest)
            (.num token, rest)
          else (.broken .expectedValue, none)

/-- Reads the items of an array up to its end; the flag tells that none has been read. -/
def scanItems : Nat → Nat → Bool → List Char →
    List Draft × ArrayStop × Option (List Char)
  | 0, _, _, _ => ([], .ended, none)
  | fuel + 1, room, first, cs =>
      match skipBlanks cs with
      | [] => ([], .ended, none)
      | ']' :: rest => ([], .closed, some rest)
      | c :: rest =>
          if first then scanItem fuel room (c :: rest)
          else if c = ',' then
            match skipBlanks rest with
            | [] => ([], .commaEnded, none)
            | ']' :: _ => ([], .commaBracket, none)
            | rest => scanItem fuel room rest
          else ([], .unexpected, none)

/-- Reads an item and the items after it. -/
def scanItem : Nat → Nat → List Char → List Draft × ArrayStop × Option (List Char)
  | 0, _, _ => ([], .ended, none)
  | fuel + 1, room, cs =>
      match scanValue fuel room cs with
      | (item, none) => ([item], .ended, none)
      | (item, some rest) =>
          let (items, stop, rest) := scanItems fuel room false rest
          (item :: items, stop, rest)

/-- Reads the members of an object up to its end; the flag tells that none has been read. -/
def scanMembers : Nat → Nat → Bool → List Char →
    List (Token String × Draft) × ObjectStop × Option (List Char)
  | 0, _, _, _ => ([], .broken .endInObject .endInObject, none)
  | fuel + 1, room, first, cs =>
      match skipBlanks cs with
      | [] => ([], .broken .endInObject .endInObject, none)
      | '\x7d' :: rest => ([], .closed, some rest)
      | '"' :: rest =>
          if first then scanMember fuel room rest
          else ([], .broken .expectedCommaOrBrace .expectedCommaOrBrace, none)
      | c :: rest =>
          if first then ([], .broken .keyNotString .keyNotString, none)
          else if c = ',' then
            match skipBlanks rest with
            | [] => ([], .broken .endInValue .endInObject, none)
            | '\x7d' :: _ => ([], .broken .trailingComma .keyNotString, none)
            | '"' :: rest => scanMember fuel room rest
            | _ => ([], .broken .keyNotString .keyNotString, none)
          else ([], .broken .expectedCommaOrBrace .expectedCommaOrBrace, none)

/-- Reads a member after the opening quote of its key, and the members after it. -/
def scanMember : Nat → Nat → List Char →
    List (Token String × Draft) × ObjectStop × Option (List Char)
  | 0, _, _ => ([], .broken .endInObject .endInObject, none)
  | fuel + 1, room, cs =>
      match scanString cs with
      | (key, none) => ([(key, .broken .endInObject)], .closed, none)
      | (key, some rest) =>
          match skipBlanks rest with
          | ':' :: rest =>
              match scanValue fuel room rest with
              | (value, none) => ([(key, value)], .closed, none)
              | (value, some rest) =>
                  let (members, stop, rest) := scanMembers fuel room false rest
                  ((key, value) :: members, stop, rest)
          | [] => ([(key, .noColon .endInObject)], .closed, none)
          | _ => ([(key, .noColon .expectedColon)], .closed, none)

end

/-- How many arrays and objects may be nested. -/
def nestingLimit : Nat := 127

/-- Reads one value off the front of a text; the remaining text is `none` when the text breaks in
the value. Of three nested calls one takes a character, so three calls for each suffice. -/
def Draft.scanNested (limit : Nat) (cs : List Char) : Draft × Option (List Char) :=
  scanValue (3 * cs.length + 3) limit cs

/-- Reads one value off the front of a text with the usual nesting limit. -/
def Draft.scan (cs : List Char) : Draft × Option (List Char) := Draft.scanNested nestingLimit cs

end SchemaLoom
