import SchemaLoom.Json.Basic

set_option autoImplicit false

/-! # Numerals

A numeral is a number as a document writes it: an optional minus sign, whole digits without a
superfluous leading zero, an optional fraction and an optional exponent.

Its value is an integer when it has neither fraction nor exponent and fits a machine word; minus
zero is a double. Any other numeral is a double, computed in the arithmetic of doubles from the
leading digits that fit 64 bits and one or more powers of ten, each step rounded.
-/

namespace SchemaLoom

/-- The parts of a numeral. No fraction is an empty one. -/
structure Numeral where
  negative : Bool
  whole : List Char
  fraction : List Char
  /-- The sign and the digits of the exponent; `true` means a negative exponent. -/
  exponent : Option (Bool × List Char)
  deriving DecidableEq, Repr

namespace Numeral

/-- How a text fails to be a numeral: it ends too early, or a character does not belong. -/
inductive Fault where
  | ended
  | malformed
  deriving DecidableEq, Repr

/-- The fault of a place where a digit is due. -/
def Fault.before : List Char → Fault
  | [] => .ended
  | _ => .malformed

/-! ## Reading -/

/-- Reads at least one digit. -/
def scanDigits (cs : List Char) : Except Fault (List Char × List Char) :=
  match cs.takeWhile Char.isDigit with
  | [] => .error (.before cs)
  | digits => .ok (digits, cs.dropWhile Char.isDigit)

/-- Reads the whole part, which starts with `0` only if that is all of it. -/
def scanWhole (cs : List Char) : Except Fault (List Char × List Char) :=
  match scanDigits cs with
  | .ok ('0' :: _ :: _, _) => .error .malformed
  | result => result

/-- Reads an optional fraction. -/
def scanFraction : List Char → Except Fault (List Char × List Char)
  | '.' :: rest => scanDigits rest
  | cs => .ok ([], cs)

/-- Reads an optional sign; `true` means a minus. -/
def scanSign : List Char → Bool × List Char
  | '+' :: rest => (false, rest)
  | '-' :: rest => (true, rest)
  | cs => (false, cs)

/-- Reads an optional exponent. -/
def scanExponent : List Char → Except Fault (Option (Bool × List Char) × List Char)
  | [] => .ok (none, [])
  | c :: rest =>
      if c = 'e' || c = 'E' then do
        let (negative, rest) := scanSign rest
        let (digits, rest) ← scanDigits rest
        return (some (negative, digits), rest)
      else .ok (none, c :: rest)

/-- Reads a numeral; the remaining text comes with it. -/
def scan (cs : List Char) : Except Fault (Numeral × List Char) := do
  let (negative, cs) := match cs with
    | '-' :: rest => (true, rest)
    | _ => (false, cs)
  let (whole, cs) ← scanWhole cs
  let (fraction, cs) ← scanFraction cs
  let (exponent, cs) ← scanExponent cs
  return (⟨negative, whole, fraction, exponent⟩, cs)

/-! ## Value -/

/-- The value of a digit. -/
def digitValue (c : Char) : Nat := c.toNat - '0'.toNat

/-- The number that digits denote. -/
def natValue (digits : List Char) : Nat :=
  digits.foldl (fun n c => 10 * n + digitValue c) 0

/-- Appends digits to a significand while it fits 64 bits; the digits from the first one that does
not fit on come with it. -/
def accumulate (significand : Nat) : List Char → Nat × List Char
  | [] => (significand, [])
  | c :: rest =>
      let next := 10 * significand + digitValue c
      if next < UInt64.size then accumulate next rest else (significand, c :: rest)

/-- A power of ten as a double. -/
def powerOfTen (n : Nat) : Float := Float.ofScientific 1 false n

/-- The greatest power of ten that is a double. -/
def greatestPower : Nat := 308

/-- `f * 10 ^ exponent` by doubles, `none` when it is out of range. A very small exponent is
worked off in steps, `steps` of which bring every 64-bit number to zero. -/
def scaled? (f : Float) (exponent : Int) : Nat → Option Float
  | 0 => some f
  | steps + 1 =>
      if exponent.natAbs ≤ greatestPower then
        if 0 ≤ exponent then
          let product := f * powerOfTen exponent.toNat
          if product.isInf then none else some product
        else some (f / powerOfTen exponent.natAbs)
      else if f == 0 then some f
      else if 0 ≤ exponent then none
      else scaled? (f / powerOfTen greatestPower) (exponent + greatestPower) steps

/-- The double nearest to a significand times a power of ten as the scaling computes it. -/
def double? (negative : Bool) (significand : Nat) (exponent : Int) : Option JsonNumber :=
  (scaled? (UInt64.ofNat significand).toFloat exponent 8).map fun f =>
    .double (if negative then -f else f).toBits

/-- The greatest exponent that is computed with; beyond it only zero has a value upwards, and
everything is zero downwards. -/
def greatestExponent : Nat := 0x7FFFFFFF

/-- The integer a numeral without fraction and exponent denotes, when the word it needs exists
and it is not minus zero. -/
def int? (negative : Bool) (significand : Nat) : Option JsonNumber :=
  if negative then
    if 0 < significand && significand ≤ 0x8000000000000000 then some (.int (-(significand : Int)))
    else none
  else some (.int significand)

/-- The value of a numeral, `none` when it is beyond the range of doubles. -/
def value? (n : Numeral) : Option JsonNumber :=
  let (leading, dropped) := accumulate 0 n.whole
  let (significand, ignored) := accumulate leading n.fraction
  let places : Int := dropped.length - (n.fraction.length - ignored.length : Nat)
  match n.exponent with
  | some (downwards, digits) =>
      let exponent : Int := natValue digits
      if exponent ≤ greatestExponent then
        double? n.negative significand (places + if downwards then -exponent else exponent)
      else if significand ≠ 0 && !downwards then none
      else double? n.negative 0 0
  | none =>
      if n.fraction.isEmpty && dropped.isEmpty then
        int? n.negative significand <|> double? n.negative significand 0
      else double? n.negative significand places

end Numeral

end SchemaLoom
