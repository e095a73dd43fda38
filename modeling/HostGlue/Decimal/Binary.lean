/-!
# Numbers with a binary mantissa

A number literal that is no integer denotes the nearest number with 53 binary digits. All of it is
computed on naturals:

* `Binary` is a magnitude `mantissa · 2 ^ exponent`; the sign is kept beside it by the users;
* `Binary.ofRatio?` rounds a quotient of naturals to the nearest magnitude, a tie to the even
  mantissa, and has no answer beyond the greatest one;
* `Binary.mul?` and `Binary.div?` round the exact product and quotient, and `Binary.ofDecimal?`
  rounds a decimal.
-/

namespace HostGlue.Decimal

/-- What a power with an integer exponent has above the line: `base ^ e` for a positive exponent,
    and 1 otherwise. Below the line it has what the negated exponent has above. -/
def powerAbove (base : Nat) (e : Int) : Nat := Nat.pow base e.toNat

/-- The magnitude `mantissa · 2 ^ exponent`. -/
structure Binary where
  mantissa : Nat
  exponent : Int
  deriving DecidableEq

namespace Binary

/-- The binary digits of a mantissa. -/
def precision : Nat := 53

/-- The least mantissa with all digits. -/
def leastFull : Nat := Nat.pow 2 (precision - 1)

/-- The least natural with a digit too many. -/
def tooLong : Nat := Nat.pow 2 precision

/-- The exponent of the smallest magnitude, and of every mantissa with fewer digits. -/
def minExponent : Int := -1074

/-- The exponent of the greatest magnitudes. -/
def maxExponent : Int := 971

/-- The magnitude zero. -/
def zero : Binary := ⟨0, minExponent⟩

/-- A magnitude as a quotient of naturals. -/
def ratio (b : Binary) : Nat × Nat :=
  (b.mantissa * powerAbove 2 b.exponent, powerAbove 2 (-b.exponent))

/-- The quotient of two naturals to the nearest natural, a tie to the even one. -/
def divRound (num den : Nat) : Nat :=
  let q := num / den
  let r := num % den
  if 2 * r < den then q
  else if 2 * r = den then (if q % 2 = 0 then q else q + 1)
  else q + 1

/-- A quotient divided by a power of two, as a quotient of naturals. -/
def scaled (num den : Nat) (e : Int) : Nat × Nat :=
  (num * powerAbove 2 (-e), den * powerAbove 2 e)

/-- The exponent at which a positive quotient has a mantissa of `precision` digits. The difference
    of the binary logarithms is off by at most one. -/
def fittingExponent (num den : Nat) : Int :=
  let guess : Int := (Nat.log2 num : Int) - Nat.log2 den - precision
  let s := scaled num den (guess + 1)
  if s.1 / s.2 < leastFull then guess else guess + 1

/-- The nearest magnitude to a quotient, or nothing beyond the greatest one. -/
def ofRatio? (num den : Nat) : Option Binary :=
  if num = 0 then some zero
  else
    let e := max (fittingExponent num den) minExponent
    let s := scaled num den e
    let m := divRound s.1 s.2
    let b : Binary := if m = tooLong then ⟨leastFull, e + 1⟩ else ⟨m, e⟩
    if b.exponent ≤ maxExponent then some b else none

/-- The nearest magnitude to a natural. -/
def ofNat? (n : Nat) : Option Binary :=
  ofRatio? n 1

/-- The rounded product. -/
def mul? (a b : Binary) : Option Binary :=
  ofRatio? (a.ratio.1 * b.ratio.1) (a.ratio.2 * b.ratio.2)

/-- The rounded quotient by a magnitude that is not zero. -/
def div? (a b : Binary) : Option Binary :=
  ofRatio? (a.ratio.1 * b.ratio.2) (a.ratio.2 * b.ratio.1)

/-- The nearest magnitude to `digits · 10 ^ scale`. Far outside the range of magnitudes the answer
    is known from the number of digits alone. -/
def ofDecimal? (digits : Nat) (scale : Int) : Option Binary :=
  if digits = 0 then some zero
  else
    let top : Int := (Nat.toDigits 10 digits).length + scale
    if top < -400 then some zero
    else if 400 < top then none
    else ofRatio? (digits * powerAbove 10 scale) (powerAbove 10 (-scale))

end Binary

end HostGlue.Decimal
