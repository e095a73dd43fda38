import HostGlue.Proofs.Json.Writing

/-!
# Integers of 32 bits, literal by literal

An integer is read from a literal of any length, and it is written in decimal. This file says which
literals are read, and that the integer is written as the literal was:

* `Whole.eq_toDigits`, that digits without a needless zero in front are the digits of the number they
  spell, so that a number has one spelling (by induction on the digits, from the left);
* `Int32Literal`, the literals of integers of 32 bits: digits, perhaps with a minus in front, but not
  `-0`;
* `readInt32_eq_ok_iff`: **from a literal an integer is read exactly if it is written as that literal**,
  and `exists_readInt32_iff`, that the literals that are read are those of integers of 32 bits.
-/

namespace HostGlue.Json

/-! ## 1. One spelling per number -/

/-- A digit is the digit of its value. -/
theorem digitChar_value {d : Char} (h : d.isDigit = true) :
    Digits.value d < 10 ∧ (Digits.value d).digitChar = d := by
  obtain ⟨hlow, hhigh⟩ := Char.isDigit_iff_toNat.mp h
  change 48 ≤ d.toNat at hlow
  change d.toNat ≤ 57 at hhigh
  have hd : Nat.digitChar (d.toNat - 48) = d := by
    apply Char.toNat_inj.mp
    rw [Nat.toNat_digitChar_of_lt_ten (by omega)]
    omega
  have hvalue : Digits.value d = d.toNat - 48 := by
    rw [← hd, Digits.value_digitChar (by omega), hd]
  rw [hvalue]
  exact ⟨by omega, hd⟩

/-- Further digits of a number stand behind its own. -/
theorem toDigits_numberFrom : ∀ {ds : List Char}, (∀ d ∈ ds, d.isDigit = true) → ∀ {n : Nat}, 0 < n →
    Nat.toDigits 10 (Digits.numberFrom 10 n ds) = Nat.toDigits 10 n ++ ds
  | [], _, n, _ => (List.append_nil _).symm
  | d :: ds, h, n, hn => by
      obtain ⟨hdigit, hothers⟩ := List.forall_mem_cons.mp h
      obtain ⟨hlt, hchar⟩ := digitChar_value hdigit
      have hnext : Nat.toDigits 10 (10 * n + Digits.value d) = Nat.toDigits 10 n ++ [d] := by
        rw [← Nat.toDigits_append_toDigits (by decide) hn hlt, Nat.toDigits_of_lt_base hlt, hchar]
      rw [Digits.numberFrom, toDigits_numberFrom hothers (by omega), hnext, List.append_assoc,
        List.singleton_append]

/-- **Digits without a needless zero in front are those of the number they spell.** -/
theorem Whole.eq_toDigits {ds : List Char} (h : Whole ds) :
    ds = Nat.toDigits 10 (Digits.number 10 ds) := by
  obtain ⟨⟨hsome, hdigits⟩, hlead⟩ := h
  cases ds with
  | nil => exact absurd rfl hsome
  | cons d ds =>
    obtain ⟨hdigit, hothers⟩ := List.forall_mem_cons.mp hdigits
    obtain ⟨hlt, hchar⟩ := digitChar_value hdigit
    by_cases hzero : Digits.value d = 0
    · rw [hzero] at hchar
      rw [hlead (congrArg some hchar.symm)]
      decide
    · have hfirst : Digits.number 10 (d :: ds) = Digits.numberFrom 10 (Digits.value d) ds := by
        rw [Digits.number, Digits.numberFrom, Nat.mul_zero, Nat.zero_add]
      rw [hfirst, toDigits_numberFrom hothers (Nat.pos_of_ne_zero hzero),
        Nat.toDigits_of_lt_base hlt, hchar, List.singleton_append]

/-! ## 2. Literals -/

/-- The integer that a minus, if there is one, and a number are. -/
def signed (negative : Bool) (n : Nat) : Int := if negative then -(n : Int) else n

/-- A literal of an integer of 32 bits: digits, the first of which is a zero only if it stands alone,
    perhaps with a minus in front, but not `-0`. There is no fraction and no exponent. -/
inductive Int32Literal : List Char → Prop where
  | mk {negative : Bool} {ds : List Char} (whole : Whole ds)
      (nonzero : ¬(negative = true ∧ ds = ['0']))
      (low : -2147483648 ≤ signed negative (Digits.number 10 ds))
      (high : signed negative (Digits.number 10 ds) ≤ 2147483647) :
      Int32Literal (minusOf negative ++ ds)

/-- A number is zero only as a lone zero. -/
theorem Whole.number_eq_zero_iff {ds : List Char} (h : Whole ds) :
    Digits.number 10 ds = 0 ↔ ds = ['0'] := by
  constructor
  · intro hzero
    rw [h.eq_toDigits, hzero]
    decide
  · rintro rfl
    decide

/-- An integer is written as its sign and the digits of its magnitude. -/
theorem toList_ofInt_signed {negative : Bool} {ds : List Char} (h : Whole ds)
    (nonzero : ¬(negative = true ∧ ds = ['0'])) :
    (Digits.ofInt (signed negative (Digits.number 10 ds))).toList = minusOf negative ++ ds := by
  cases negative with
  | false =>
    rw [signed, if_neg Bool.false_ne_true, Digits.toList_ofInt_natCast, ← h.eq_toDigits]
    rfl
  | true =>
    have hpos : Digits.number 10 ds ≠ 0 := fun hzero =>
      nonzero ⟨rfl, h.number_eq_zero_iff.mp hzero⟩
    have hneg : -(Digits.number 10 ds : Int) < 0 := by omega
    rw [signed, if_pos rfl, Digits.ofInt, if_pos hneg, Int.natAbs_neg, Int.natAbs_natCast,
      ← h.eq_toDigits, String.toList_append, String.toList_ofList, String.toList_ofList]
    rfl

/-- The literals of integers of 32 bits are what these integers are written as. -/
theorem int32Literal_iff {cs : List Char} :
    Int32Literal cs ↔ ∃ k : Int32, cs = (Digits.ofInt k.toInt).toList := by
  constructor
  · rintro ⟨whole, nonzero, low, high⟩
    rename_i negative ds
    refine ⟨Int32.ofInt (signed negative (Digits.number 10 ds)), ?_⟩
    rw [Int32.toInt_ofInt_of_le low (by omega), toList_ofInt_signed whole nonzero]
  · rintro ⟨k, rfl⟩
    have hlow := k.le_toInt
    have hhigh := k.toInt_lt
    have hwhole := whole_toDigits k.toInt.natAbs
    have hnumber : Digits.number 10 (Nat.toDigits 10 k.toInt.natAbs) = k.toInt.natAbs :=
      Digits.number_toDigits (by decide) (by decide) _
    have hvalue : signed (decide (k.toInt < 0)) (Digits.number 10 (Nat.toDigits 10 k.toInt.natAbs)) =
        k.toInt := by
      rw [hnumber, signed]
      split <;> rename_i hsign <;> simp only [decide_eq_true_eq] at hsign <;> omega
    have hnonzero : ¬(decide (k.toInt < 0) = true ∧ Nat.toDigits 10 k.toInt.natAbs = ['0']) := by
      rintro ⟨hneg, hzero⟩
      have := hwhole.number_eq_zero_iff.mpr hzero
      simp only [decide_eq_true_eq] at hneg
      omega
    have hliteral := Int32Literal.mk hwhole hnonzero (by rw [hvalue]; omega) (by rw [hvalue]; omega)
    rwa [← toList_ofInt_signed hwhole hnonzero, hvalue] at hliteral

/-! ## 3. Reading -/

/-- A scalar that is written as a token is written. -/
theorem Token.Spelled.tree {v : Tree} {cs : List Char} (h : (Token.value v).Spelled cs) :
    v.Spelled (String.ofList cs) := by
  have hlexed : Lexed [Token.value v] (cs ++ []) := .cons_spelled h (.nil nofun)
  have hlexemes : v.lexemes = [.value v] := h.proper
  rwa [Tree.Spelled, hlexemes, String.toList_ofList, ← List.append_nil cs]

/-- An integer is written by its digits. -/
theorem spelled_toList_ofInt (n : Int) :
    (Token.value (.numeral (.ofInt n))).Spelled (Digits.ofInt n).toList := by
  have hspell : (Numeral.ofInt n).spell = (Digits.ofInt n).toList := by
    unfold Numeral.spell Numeral.ofInt Digits.ofInt
    by_cases hn : n < 0 <;> simp [hn]
  rw [← hspell]
  exact .numeral (Numeral.spelled_ofInt n)

/-- An integer that a numeral denotes is written as the numeral is. -/
theorem Numeral.Spelled.of_integer? {x : Numeral} {cs : List Char} (h : x.Spelled cs) {n : Int}
    (hn : x.integer? = some n) : cs = (Digits.ofInt n).toList := by
  obtain ⟨whole, point, power⟩ := h
  rename_i negative ds f e fraction exponent
  unfold integer? at hn
  split at hn
  · cases hn
  · rename_i hplain
    simp only [Bool.or_eq_true, not_or, Bool.not_eq_true, Option.isSome_eq_false_iff,
      Option.isNone_iff_eq_none] at hplain
    obtain ⟨rfl, rfl⟩ := hplain
    cases point
    cases power
    have hvalue : n = signed negative (Digits.number 10 ds) ∧ ¬(negative = true ∧ ds = ['0']) := by
      cases negative with
      | false =>
        simp only [Bool.false_eq_true, if_false] at hn
        split at hn
        · exact ⟨(Option.some.inj hn).symm, fun h => Bool.false_ne_true h.1⟩
        · cases hn
      | true =>
        simp only [if_true] at hn
        split at hn
        · rename_i hpos
          refine ⟨(Option.some.inj hn).symm, fun h => ?_⟩
          rw [whole.number_eq_zero_iff.mpr h.2] at hpos
          exact Nat.lt_irrefl 0 hpos.1
        · cases hn
    rw [hvalue.1, toList_ofInt_signed whole hvalue.2, List.append_nil, List.append_nil]

/-- **From a literal an integer is read exactly if it is written as that literal.** -/
theorem readInt32_eq_ok_iff {v : Tree} {cs : List Char} (h : (Token.value v).Spelled cs) {k : Int32} :
    readInt32 v = .ok k ↔ cs = (Digits.ofInt k.toInt).toList := by
  constructor
  · intro hread
    cases h with
    | @numeral x _ spelled =>
      rw [readInt32, Numeral.value?] at hread
      cases hn : x.integer? with
      | none =>
        rw [hn] at hread
        cases hm : x.magnitude? <;> rw [hm] at hread <;> cases hread
      | some n =>
        rw [hn] at hread
        dsimp only at hread
        split at hread
        · rename_i hrange
          obtain rfl := Except.ok.inj hread
          rw [Int32.toInt_ofInt_of_le hrange.1 hrange.2]
          exact spelled.of_integer? hn
        · cases hread
    | _ => cases hread
  · rintro rfl
    obtain rfl := h.tree.unique (spelled_toList_ofInt k.toInt).tree
    exact readInt32_ofInt k

/-- **The literals that are read are those of integers of 32 bits.** -/
theorem exists_readInt32_iff {v : Tree} {cs : List Char} (h : (Token.value v).Spelled cs) :
    (∃ k, readInt32 v = .ok k) ↔ Int32Literal cs := by
  rw [int32Literal_iff]
  exact exists_congr fun k => readInt32_eq_ok_iff h

end HostGlue.Json
