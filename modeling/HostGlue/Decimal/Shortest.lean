import HostGlue.Decimal.Binary

/-!
# The shortest text of a number

A diagnostic shows a number by the fewest decimal digits that read back to it. This file holds

* `Interval`, the numbers that round to a given magnitude, and the test whether a decimal lies in it
  (`Interval.contains`), in naturals only;
* `shortest`, the search: on the grids of 1, 2, … digits it takes the value's two neighbours, the
  first grid with a hit wins, of two hits the nearer, and of two equally near ones that of the
  format's `Tie`;
* `Notation`, the decisions of a format about ties and about positional and scientific writing, and
  `Notation.text`, which lays the digits out.
-/

namespace HostGlue.Decimal

/-! ## 1. Which digits -/

/-- The decimal `digits · 10 ^ scale`. -/
structure Scaled where
  digits : Nat
  scale : Int
  deriving DecidableEq

/-- A decimal as a quotient of naturals. -/
def Scaled.ratio (d : Scaled) : Nat × Nat :=
  (d.digits * powerAbove 10 d.scale, powerAbove 10 (-d.scale))

/-- The numbers that round to a magnitude: quarters of its last place below and above, the ends
    included iff the mantissa is even. -/
structure Interval where
  low : Nat
  high : Nat
  exponent : Int
  closed : Bool

/-- The interval around a magnitude. Below a power of two the neighbour is nearer. -/
def Interval.around (b : Binary) : Interval where
  low := if b.mantissa = Binary.leastFull ∧ Binary.minExponent < b.exponent
    then 4 * b.mantissa - 1 else 4 * b.mantissa - 2
  high := 4 * b.mantissa + 2
  exponent := b.exponent - 2
  closed := b.mantissa % 2 == 0

/-- Whether a decimal lies in the interval. -/
def Interval.contains (i : Interval) (d : Scaled) : Bool :=
  let low := Binary.ratio ⟨i.low, i.exponent⟩
  let high := Binary.ratio ⟨i.high, i.exponent⟩
  let v := d.ratio
  if i.closed then low.1 * v.2 ≤ v.1 * low.2 && v.1 * high.2 ≤ high.1 * v.2
  else low.1 * v.2 < v.1 * low.2 && v.1 * high.2 < high.1 * v.2

/-- The least `k` for which the magnitude is below `10 ^ k`. From 1 on it is the number of digits
    before the point; below 1 it is read off the quotient turned over, rounded up. -/
def magnitude (b : Binary) : Int :=
  let r := b.ratio
  if r.2 ≤ r.1 then (Nat.toDigits 10 (r.1 / r.2)).length
  else 1 - (Nat.toDigits 10 ((r.2 + r.1 - 1) / r.1 - 1)).length

/-- The two neighbours of a magnitude among the multiples of `10 ^ scale`. -/
def neighbours (b : Binary) (scale : Int) : Scaled × Scaled :=
  let r := b.ratio
  let q := (r.1 * powerAbove 10 (-scale)) / (r.2 * powerAbove 10 scale)
  (⟨q, scale⟩, ⟨q + 1, scale⟩)

/-- Which neighbour stands for a number in the middle of the two. -/
inductive Tie where
  /-- The one whose last digit is even. -/
  | even
  /-- The greater one. -/
  | up
  deriving DecidableEq

/-- Whether a tie goes to the lower neighbour. -/
def Tie.takesLower (lower : Scaled) : Tie → Bool
  | .even => lower.digits % 2 == 0
  | .up => false

/-- Whether a number is shown by the lower of its two neighbours: it is the nearer one, or as near
    as the other one and the tie goes to it. -/
def lowerIsNearer (tie : Tie) (b : Binary) (lower : Scaled) : Bool :=
  let r := b.ratio
  let value := 2 * (r.1 * powerAbove 10 (-lower.scale))
  let middle := (2 * lower.digits + 1) * (r.2 * powerAbove 10 lower.scale)
  value < middle || (value == middle && tie.takesLower lower)

/-- The nearest decimal with a given scale that reads back, if one does. -/
def hit? (tie : Tie) (b : Binary) (scale : Int) : Option Scaled :=
  let i := Interval.around b
  let n := neighbours b scale
  match i.contains n.1, i.contains n.2 with
  | true, true => some (if lowerIsNearer tie b n.1 then n.1 else n.2)
  | true, false => some n.1
  | false, true => some n.2
  | false, false => none

/-- Moves trailing zeros of the digits into the scale. -/
def stripZeros : Nat → Scaled → Scaled
  | 0, d => d
  | fuel + 1, d =>
    if d.digits ≠ 0 ∧ d.digits % 10 = 0 then stripZeros fuel ⟨d.digits / 10, d.scale + 1⟩ else d

/-- The fewest digits that read back to a magnitude that is not zero. -/
def shortest (tie : Tie) (b : Binary) : Scaled :=
  let k := magnitude b
  match (List.range 18).findSome? fun n => hit? tie b (k - (n + 1 : Nat)) with
  | some d => stripZeros 20 d
  | none => ⟨b.ratio.1 * powerAbove 5 (-b.exponent), -((-b.exponent).toNat : Int)⟩

/-! ## 2. How they are laid out -/

/-- The decisions of a format. Numbers whose first digit has place `10 ^ p` with
    `positionalFrom ≤ p < positionalBelow` are written positionally, all others with an exponent;
    a missing bound excludes nothing. -/
structure Notation where
  tie : Tie
  positionalFrom : Option Int
  positionalBelow : Option Int

/-- Digits with a point behind the first `whole` of them; both sides have at least one digit. -/
def positional (digits : List Char) (whole : Int) : List Char :=
  if whole ≤ 0 then
    ['0', '.'] ++ List.replicate (-whole).toNat '0' ++ digits
  else if digits.length ≤ whole.toNat then
    digits ++ List.replicate (whole.toNat - digits.length) '0' ++ ['.', '0']
  else
    digits.take whole.toNat ++ '.' :: digits.drop whole.toNat

/-- Digits with a point behind the first one and an exponent with its sign. -/
def scientific (digits : List Char) (place : Int) : List Char :=
  let mantissa := match digits with
    | d :: e :: rest => d :: '.' :: e :: rest
    | ds => ds
  let sign := if place < 0 then '-' else '+'
  mantissa ++ 'e' :: sign :: Nat.toDigits 10 place.natAbs

/-- The text of a magnitude. -/
def Notation.magnitudeText (n : Notation) (b : Binary) : List Char :=
  if b.mantissa = 0 then ['0', '.', '0']
  else
    let d := shortest n.tie b
    let digits := Nat.toDigits 10 d.digits
    let place : Int := digits.length + d.scale - 1
    if n.positionalFrom.all (· ≤ place) && n.positionalBelow.all (place < ·)
    then positional digits (place + 1)
    else scientific digits place

/-- The text of a signed magnitude. Zero keeps its sign. -/
def Notation.text (n : Notation) (negative : Bool) (b : Binary) : String :=
  String.ofList (if negative then '-' :: n.magnitudeText b else n.magnitudeText b)

end HostGlue.Decimal
