/-!
# Digits and the numbers they spell

Both document formats give numbers and characters by their digits, and everything that is written
gives integers in decimal. This file fixes

* `hex?`, the value of a digit of any base up to 16, in either case, and `isHex`;
* `number`, what a list of digits spells in a base, and `hexNumber?`, which also checks the digits;
* `sign`, which takes a sign off a text, and `ofInt`, an integer in decimal.

The digits of a number spell the number (`number_toDigits`).
-/

namespace HostGlue.Digits

/-- The value of a digit of a base up to 16. -/
def hex? (c : Char) : Option Nat :=
  if '0' ≤ c ∧ c ≤ '9' then some (c.toNat - '0'.toNat)
  else if 'a' ≤ c ∧ c ≤ 'f' then some (c.toNat - 'a'.toNat + 10)
  else if 'A' ≤ c ∧ c ≤ 'F' then some (c.toNat - 'A'.toNat + 10)
  else none

/-- A hexadecimal digit. -/
def isHex (c : Char) : Bool := (hex? c).isSome

/-- The value of a digit. What is no digit counts as zero. -/
def value (c : Char) : Nat := (hex? c).getD 0

/-- Goes on with a number by further digits. -/
def numberFrom (base : Nat) : Nat → List Char → Nat
  | n, [] => n
  | n, d :: ds => numberFrom base (base * n + value d) ds

/-- The number digits spell in a base. -/
def number (base : Nat) (ds : List Char) : Nat := numberFrom base 0 ds

/-- The number hexadecimal digits spell, if all of them are such digits. -/
def hexNumber? (ds : List Char) : Option Nat :=
  if ds.all isHex then some (number 16 ds) else none

/-- The sign at the start of a text: whether it is a minus, and what stands behind it. -/
def sign : List Char → Bool × List Char
  | '+' :: rest => (false, rest)
  | '-' :: rest => (true, rest)
  | cs => (false, cs)

theorem sign_length (cs : List Char) : (sign cs).2.length ≤ cs.length := by
  unfold sign
  split <;> simp

/-- An integer in decimal. -/
def ofInt (n : Int) : String :=
  let digits := String.ofList (Nat.toDigits 10 n.natAbs)
  if n < 0 then "-" ++ digits else digits

/-! ## The digits of a number -/

theorem numberFrom_append (base : Nat) :
    ∀ (n : Nat) (ds es : List Char),
      numberFrom base n (ds ++ es) = numberFrom base (numberFrom base n ds) es
  | _, [], _ => rfl
  | n, d :: ds, es => numberFrom_append base (base * n + value d) ds es

theorem hex?_digitChar : ∀ d < 16, hex? d.digitChar = some d := by
  decide

theorem value_digitChar {d : Nat} (h : d < 16) : value d.digitChar = d := by
  simp [value, hex?_digitChar d h]

/-- The digits of a number spell the number. -/
theorem number_toDigits {base : Nat} (hlow : 1 < base) (hhigh : base ≤ 16) (n : Nat) :
    number base (Nat.toDigits base n) = n := by
  induction n using Nat.strongRecOn with
  | ind n ih =>
    by_cases h : n < base
    · rw [Nat.toDigits_of_lt_base h]
      simp [number, numberFrom, value_digitChar (Nat.lt_of_lt_of_le h hhigh)]
    · have hle : base ≤ n := Nat.le_of_not_lt h
      have hdiv : n / base < n := Nat.div_lt_self (by omega) hlow
      have hmod : n % base < 16 := Nat.lt_of_lt_of_le (Nat.mod_lt n (by omega)) hhigh
      have hq := ih (n / base) hdiv
      unfold number at hq
      rw [Nat.toDigits_of_base_le hlow hle, number, numberFrom_append, hq]
      simp only [numberFrom, value_digitChar hmod]
      exact Nat.div_add_mod n base

/-- Numbers with the same digits are the same. -/
theorem toDigits_inj {m n : Nat} (h : Nat.toDigits 10 m = Nat.toDigits 10 n) : m = n := by
  rw [← number_toDigits (by decide : 1 < 10) (by decide) m, h,
    number_toDigits (by decide) (by decide)]

theorem isDigit_of_mem {n : Nat} {c : Char} (h : c ∈ Nat.toDigits 10 n) : c.isDigit = true :=
  Nat.isDigit_of_mem_toDigits (by decide) (by decide) h

/-- A number begins with a digit. -/
theorem exists_toDigits (n : Nat) : ∃ c rest, Nat.toDigits 10 n = c :: rest ∧ c.isDigit = true := by
  cases h : Nat.toDigits 10 n with
  | nil => exact absurd h Nat.toDigits_ne_nil
  | cons c rest => exact ⟨c, rest, rfl, isDigit_of_mem (h ▸ List.mem_cons_self)⟩

/-- A natural number is written by its digits. -/
theorem toList_ofInt_natCast (n : Nat) : (ofInt n).toList = Nat.toDigits 10 n := by
  rw [ofInt, if_neg (by omega), Int.natAbs_natCast, String.toList_ofList]

end HostGlue.Digits
