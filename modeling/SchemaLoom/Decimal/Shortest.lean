set_option autoImplicit false

/-! # The shortest decimal of a double

A finite double is `mantissa * 2 ^ exponent`. The reals that round to it form an interval that
reaches halfway to each neighbour; the ends belong to it exactly when the mantissa is even,
because ties round to even. The shortest decimal of the double is the one in that interval with
the fewest digits and, of two with equally many, the nearer one.

The search walks the decimal grids `10 ^ p` from coarse to fine. If any point of a grid lies in
the interval then so does one of the two points next to the double itself, so only those two are
tried, in exact arithmetic on natural numbers.
-/

namespace SchemaLoom.Decimal

/-- The parts of a finite nonzero double's absolute value `mantissa * 2 ^ exponent`.
`narrowBelow` says that the next smaller double is half as far away as the next larger one. -/
structure BinaryParts where
  mantissa : Nat
  exponent : Int
  narrowBelow : Bool

/-- The bit above the 52 bits of the fraction. It is part of the mantissa of most doubles, but it
is not stored. -/
def hiddenBit : Nat := 0x10000000000000

/-- Reads the parts off the bits of a double: 52 bits of fraction below 11 bits of exponent. -/
def BinaryParts.ofBits (bits : UInt64) : BinaryParts :=
  let fraction : Nat := bits.toNat % hiddenBit
  let biased : Nat := bits.toNat / hiddenBit % 0x800
  if biased = 0 then ⟨fraction, -1074, false⟩
  else ⟨hiddenBit + fraction, (biased : Int) - 1075, fraction = 0 && biased ≠ 1⟩

/-- The decimal `coefficient * 10 ^ exponent`. -/
structure Scaled where
  coefficient : Nat
  exponent : Int
  deriving DecidableEq, Repr

namespace BinaryParts

/-- The factor that brings quarter units `2 ^ (exponent - 2)` to the common scale with the grid
`10 ^ p`. -/
def quarterScale (parts : BinaryParts) (p : Int) : Nat :=
  Nat.pow 2 (parts.exponent - 2).toNat * Nat.pow 10 (-p).toNat

/-- The factor that brings the grid `10 ^ p` to the common scale. -/
def gridScale (parts : BinaryParts) (p : Int) : Nat :=
  Nat.pow 2 (2 - parts.exponent).toNat * Nat.pow 10 p.toNat

/-- The distance, in quarter units, to the lower end of the interval. -/
def quartersBelow (parts : BinaryParts) : Nat := if parts.narrowBelow then 1 else 2

/-- Whether `coefficient * 10 ^ p` rounds to the double. -/
def rounds (parts : BinaryParts) (p : Int) (coefficient : Nat) : Bool :=
  let point := coefficient * parts.gridScale p
  let lower := (4 * parts.mantissa - parts.quartersBelow) * parts.quarterScale p
  let upper := (4 * parts.mantissa + 2) * parts.quarterScale p
  if parts.mantissa % 2 = 0 then lower ≤ point && point ≤ upper
  else lower < point && point < upper

/-- The point of the grid `10 ^ p` that stands for the double, if one of the two next to it
rounds to it; of two, the nearer, and on a tie the even one. -/
def onGrid? (parts : BinaryParts) (p : Int) : Option Nat :=
  let scale := parts.gridScale p
  let below := 4 * parts.mantissa * parts.quarterScale p / scale
  let rest := 4 * parts.mantissa * parts.quarterScale p % scale
  match parts.rounds p below, parts.rounds p (below + 1) with
  | true, true =>
      if 2 * rest < scale || (2 * rest = scale && below % 2 = 0) then some below
      else some (below + 1)
  | true, false => some below
  | false, true => some (below + 1)
  | false, false => none

/-- Walks down the grids from `10 ^ p`; `steps` bounds the walk. -/
def search (parts : BinaryParts) : Nat → Int → Scaled
  | 0, p => ⟨4 * parts.mantissa * parts.quarterScale p / parts.gridScale p, p⟩
  | steps + 1, p =>
      match parts.onGrid? p with
      | some coefficient => ⟨coefficient, p⟩
      | none => search parts steps (p - 1)

/-- An exponent of ten above the double: `30103 / 100000` bounds the decimal logarithm of 2. -/
def startExponent (parts : BinaryParts) : Int :=
  Int.fdiv ((parts.exponent + (parts.mantissa.log2 : Int) + 1) * 30103) 100000 + 1

/-- The shortest decimal. Seventeen digits always suffice, and the walk starts at most three
grids above the first digit, so the bound on the walk is never reached. -/
def shortest (parts : BinaryParts) : Scaled := parts.search 32 parts.startExponent

end BinaryParts

end SchemaLoom.Decimal
