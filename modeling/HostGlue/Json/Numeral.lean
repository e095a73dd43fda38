import HostGlue.Decimal.Shortest
import HostGlue.Digits
import HostGlue.Shape

/-!
# JSON numbers

A number is read in two steps, because a number that is skipped may be as great as it likes:

* `scanNumeral` splits a numeral of the grammar into its parts (`Numeral`);
* `Numeral.value?` is the number it denotes. A numeral without fraction and exponent that fits 64
  bits is an integer, except `-0`; every other one has a binary mantissa. One beyond the greatest
  magnitude denotes nothing.

The mantissa is not the nearest one to the numeral. It is computed from as many leading digits as
fit 64 bits, scaled by a power of ten in one rounded step, or more of them for a small number.
-/

namespace HostGlue.Json

open Decimal (Binary)

/-! ## 1. Numerals -/

/-- The parts of a numeral. Each digit list has at least one digit. -/
structure Numeral where
  negative : Bool
  whole : List Char
  fraction : Option (List Char)
  exponent : Option (Bool × List Char)
  deriving DecidableEq

/-- The digits at the start of a text, and the rest. -/
def spanDigits (cs : List Char) : List Char × List Char :=
  (cs.takeWhile Char.isDigit, cs.dropWhile Char.isDigit)

/-- One digit or more at the start of a text. -/
def scanDigits (cs : List Char) : Except Fault (List Char × List Char) :=
  match cs with
  | [] => .error .truncated
  | c :: _ => if c.isDigit then .ok (spanDigits cs) else .error .malformed

/-- The whole part: a lone zero, or digits that do not begin with one. -/
def scanWhole : List Char → Except Fault (List Char × List Char)
  | '0' :: c :: rest => if c.isDigit then .error .malformed else .ok (['0'], c :: rest)
  | cs => scanDigits cs

/-- The digits behind a point, if there is one. -/
def scanFraction : List Char → Except Fault (Option (List Char) × List Char)
  | '.' :: rest => do
    let (ds, rest) ← scanDigits rest
    return (some ds, rest)
  | cs => .ok (none, cs)

/-- The exponent, if there is one. -/
def scanExponent : List Char → Except Fault (Option (Bool × List Char) × List Char)
  | c :: rest =>
    if c = 'e' ∨ c = 'E' then do
      let (ds, behind) ← scanDigits (Digits.sign rest).2
      return (some ((Digits.sign rest).1, ds), behind)
    else .ok (none, c :: rest)
  | [] => .ok (none, [])

/-- The minus in front of a numeral: whether there is one. -/
def scanMinus : List Char → Bool × List Char
  | '-' :: rest => (true, rest)
  | cs => (false, cs)

/-- The numeral at the start of a text, and the rest. -/
def scanNumeral (cs : List Char) : Except Fault (Numeral × List Char) := do
  let (whole, rest) ← scanWhole (scanMinus cs).2
  let (fraction, rest) ← scanFraction rest
  let (exponent, rest) ← scanExponent rest
  return (⟨(scanMinus cs).1, whole, fraction, exponent⟩, rest)

/-! ### Scanning goes forward -/

theorem scanDigits_length {cs : List Char} {r : List Char × List Char}
    (h : scanDigits cs = .ok r) : r.2.length < cs.length := by
  unfold scanDigits at h
  split at h
  · cases h
  · rename_i c cs
    split at h
    · rename_i hc
      cases h
      have := (List.dropWhile_sublist (p := Char.isDigit) (l := cs)).length_le
      simp only [spanDigits, List.dropWhile_cons, hc, if_true, List.length_cons]
      omega
    · cases h

theorem scanWhole_length {cs : List Char} {r : List Char × List Char}
    (h : scanWhole cs = .ok r) : r.2.length < cs.length := by
  unfold scanWhole at h
  split at h
  · split at h
    · cases h
    · cases h
      simp
  · exact scanDigits_length h

theorem scanFraction_length {cs : List Char} {r : Option (List Char) × List Char}
    (h : scanFraction cs = .ok r) : r.2.length ≤ cs.length := by
  unfold scanFraction at h
  split at h
  · obtain ⟨p, hp, h⟩ := bind_eq_ok.1 h
    cases h
    exact Nat.le_succ_of_le (Nat.le_of_lt (scanDigits_length hp))
  · cases h
    exact Nat.le_refl _

theorem scanExponent_length {cs : List Char} {r : Option (Bool × List Char) × List Char}
    (h : scanExponent cs = .ok r) : r.2.length ≤ cs.length := by
  unfold scanExponent at h
  split at h
  · rename_i c cs
    split at h
    · obtain ⟨p, hp, h⟩ := bind_eq_ok.1 h
      cases h
      have := scanDigits_length hp
      have := Digits.sign_length cs
      simp only [List.length_cons]
      omega
    · cases h
      exact Nat.le_refl _
  · cases h
    exact Nat.le_refl _

theorem scanMinus_length (cs : List Char) : (scanMinus cs).2.length ≤ cs.length := by
  unfold scanMinus
  split <;> simp

theorem scanNumeral_length {cs : List Char} {r : Numeral × List Char}
    (h : scanNumeral cs = .ok r) : r.2.length < cs.length := by
  unfold scanNumeral at h
  obtain ⟨w, hw, h⟩ := bind_eq_ok.1 h
  obtain ⟨f, hf, h⟩ := bind_eq_ok.1 h
  obtain ⟨e, he, h⟩ := bind_eq_ok.1 h
  cases h
  have := scanMinus_length cs
  have := scanWhole_length hw
  have := scanFraction_length hf
  have := scanExponent_length he
  dsimp only
  omega

/-! ## 2. Values -/

/-- What a numeral denotes. -/
inductive Number where
  | integer (n : Int)
  | float (negative : Bool) (magnitude : Binary)
  deriving DecidableEq

/-- The greatest number of 64 bits. -/
def maxWord : Nat := 0xFFFFFFFFFFFFFFFF

/-- The magnitude of the least signed number of 64 bits. -/
def maxNegative : Nat := 0x8000000000000000

/-- Goes on with a number by further digits, as far as it stays within `maxWord`: the number, and
    the digits that did not fit any more. -/
def takeLeading (n : Nat) : List Char → Nat × List Char
  | [] => (n, [])
  | d :: ds =>
    if maxWord < 10 * n + Digits.value d then (n, d :: ds)
    else takeLeading (10 * n + Digits.value d) ds

/-- The magnitude nearest to a power of ten. -/
def powerOfTen (k : Nat) : Binary :=
  (Binary.ofNat? (Nat.pow 10 k)).getD Binary.zero

/-- The greatest power of ten that is a magnitude. -/
def maxPower : Nat := 308

/-- Divides a number of times by the greatest power, unless zero is reached before. -/
def divideOften : Nat → Binary → Option Binary
  | 0, b => some b
  | n + 1, b =>
    if b.mantissa = 0 then some b
    else (b.div? (powerOfTen maxPower)).bind (divideOften n)

/-- Divides by a power of ten, in steps of `maxPower` and a last one of `maxPower` at most. -/
def scaleDown (b : Binary) (k : Nat) : Option Binary :=
  let steps := (k - 1) / maxPower
  (divideOften steps b).bind fun b => b.div? (powerOfTen (k - steps * maxPower))

/-- Multiplies by a power of ten, up to the greatest magnitude. -/
def scaleUp (b : Binary) (k : Nat) : Option Binary :=
  if k ≤ maxPower then b.mul? (powerOfTen k)
  else if b.mantissa = 0 then some b
  else none

/-- The magnitude of `n · 10 ^ scale`, rounded at each step. -/
def scaledMagnitude? (n : Nat) (scale : Int) : Option Binary := do
  let b ← Binary.ofNat? n
  if 0 ≤ scale then scaleUp b scale.toNat else scaleDown b (-scale).toNat

/-- The power of ten that an exponent gives. -/
def exponentValue : Option (Bool × List Char) → Int
  | none => 0
  | some (true, ds) => -(Digits.number 10 ds : Int)
  | some (false, ds) => Digits.number 10 ds

/-- The magnitude a numeral denotes, if there is one that great. -/
def Numeral.magnitude? (x : Numeral) : Option Binary :=
  let whole := takeLeading 0 x.whole
  let fraction := x.fraction.getD []
  let all := takeLeading whole.1 fraction
  let scale : Int := whole.2.length - (fraction.length - all.2.length : Nat)
  scaledMagnitude? all.1 (scale + exponentValue x.exponent)

/-- The integer a numeral denotes, if it is one of 64 bits. -/
def Numeral.integer? (x : Numeral) : Option Int :=
  if x.fraction.isSome || x.exponent.isSome then none
  else
    let n := Digits.number 10 x.whole
    if x.negative then (if 0 < n ∧ n ≤ maxNegative then some (-(n : Int)) else none)
    else if n ≤ maxWord then some n
    else none

/-- What a numeral denotes, unless it is beyond the greatest magnitude. -/
def Numeral.value? (x : Numeral) : Option Number :=
  match x.integer? with
  | some n => some (.integer n)
  | none => x.magnitude?.map (.float x.negative)

/-- Numbers are shown positionally from `1e-5` up to `1e16`, and a tie goes to the even digit. -/
def layout : Decimal.Notation where
  tie := .even
  positionalFrom := some (-5)
  positionalBelow := some 16

end HostGlue.Json
