import HostGlue.Proofs.Toml.Moments
import HostGlue.Proofs.Toml.Numbers

/-!
# How the values of a TOML text that are no strings and no containers may be written

* **`ScalarSpelled`, how such a value may be written**: a number, a date or a time, or one of the two
  words;
* `scanMoment_of_scored`, that a number is not mistaken for a date or a time;
* **`scanScalar_append`: such a value is read**, whatever a value may stand in front of.
-/

namespace HostGlue.Toml

/-! ## 1. What is no date and no time -/

/-- A character of a row of digits. -/
def isScored (c : Char) : Bool := c.isDigit || c == '_'

theorem MoreDigits.scored {ds cs : List Char} (h : MoreDigits Char.isDigit ds cs) :
    ∀ c ∈ cs, isScored c = true := by
  induction h with
  | nil => exact nofun
  | digit digit _ ih => exact List.forall_mem_cons.mpr ⟨by rw [isScored, digit, Bool.true_or], ih⟩
  | apart digit _ ih =>
    exact List.forall_mem_cons.mpr
      ⟨by decide, List.forall_mem_cons.mpr ⟨by rw [isScored, digit, Bool.true_or], ih⟩⟩

theorem WholeSpelled.scored {ds cs : List Char} (h : WholeSpelled ds cs) :
    ∀ c ∈ cs, isScored c = true := by
  cases h with
  | zero => exact List.forall_mem_singleton.mpr (by decide)
  | digits digits =>
    cases digits with
    | mk digit others =>
      exact List.forall_mem_cons.mpr ⟨by rw [isScored, digit, Bool.true_or], others.scored⟩

/-- What stands behind so many digits of a row of digits goes on with neither a date nor a time. -/
theorem scanChar_of_scored {count n : Nat} {cs rest behind : List Char}
    (hcs : ∀ c ∈ cs, isScored c = true)
    (hrest : NotAhead (fun c => c.isDigit || c == '-' || c == ':') rest)
    (h : scanFixed count (cs ++ rest) = some (n, behind)) :
    NotAhead (fun c => c == '-' || c == ':') behind := by
  obtain ⟨hlength, hdigits, rfl⟩ := of_scanFixed h
  intro c hc
  by_cases hcount : count ≤ cs.length
  · rw [List.drop_append_of_le_length hcount] at hc
    cases hd : cs.drop count with
    | nil =>
      rw [hd] at hc
      have hne := hrest c hc
      simp only [Bool.or_eq_false_iff] at hne ⊢
      exact ⟨hne.1.2, hne.2⟩
    | cons d ds =>
      rw [hd] at hc
      obtain rfl : d = c := Option.some.inj hc
      have hscored := hcs d (List.mem_of_mem_drop (hd ▸ List.mem_cons_self))
      rw [Bool.or_eq_false_iff, beq_eq_false_iff_ne, beq_eq_false_iff_ne]
      constructor <;> (rintro rfl; exact absurd hscored (by decide))
  · -- the row is too short, and what follows it is no digit
    exfalso
    obtain ⟨k, rfl⟩ := Nat.exists_eq_add_of_lt (Nat.lt_of_not_le hcount)
    rw [Nat.add_assoc, List.take_length_add_append] at hlength hdigits
    rcases rest with _ | ⟨d, rest⟩
    · simp at hlength
    · have hd := hdigits d (by simp)
      have hne := hrest d rfl
      simp only [hd, Bool.true_or] at hne
      cases hne

theorem scanChar_eq_none {c : Char} {cs : List Char} (h : NotAhead (c == ·) cs) :
    scanChar c cs = none := by
  rcases cs with _ | ⟨d, cs⟩
  · rfl
  · rw [scanChar, if_neg]
    exact beq_eq_false_iff_ne.mp (h d rfl)

/-- **A number is no date and no time.** -/
theorem scanMoment_of_scored {cs rest : List Char} (hcs : ∀ c ∈ cs, isScored c = true)
    (hrest : NotAhead (fun c => c.isDigit || c == '-' || c == ':') rest) :
    scanMoment (cs ++ rest) = none := by
  have hdate : scanDate (cs ++ rest) = none := by
    rw [scanDate]
    cases hyear : scanFixed 4 (cs ++ rest) with
    | none => rfl
    | some r =>
      have hdash := scanChar_of_scored hcs hrest hyear
      have hnone : scanChar '-' r.2 = none := scanChar_eq_none (hdash.mono fun c hc => by
        rw [beq_iff_eq] at hc
        simp [← hc])
      simp only [Option.bind_eq_bind, Option.bind_some, hnone, Option.bind_none]
  have htime : scanTime (cs ++ rest) = none := by
    rw [scanTime, scanHourMinute]
    cases hhour : scanFixed 2 (cs ++ rest) with
    | none => rfl
    | some r =>
      have hcolon := scanChar_of_scored hcs hrest hhour
      have hnone : scanChar ':' r.2 = none := scanChar_eq_none (hcolon.mono fun c hc => by
        rw [beq_iff_eq] at hc
        simp [← hc])
      simp only [Option.bind_eq_bind, Option.bind_some, hnone, Option.bind_none]
  rw [scanMoment, hdate]
  exact htime

/-- A whole part, with a sign or without, is no date and no time. -/
theorem scanMoment_whole {negative : Bool} {sign : List Char} (h : SignSpelled negative sign)
    {ds cs : List Char} (whole : WholeSpelled ds cs) {rest : List Char}
    (hrest : NotAhead (fun c => c.isDigit || c == '-' || c == ':') rest) :
    scanMoment (sign ++ (cs ++ rest)) = none := by
  cases h with
  | none =>
    rw [List.nil_append]
    exact scanMoment_of_scored whole.scored hrest
  | plus => exact scanMoment_eq_none (by decide) _
  | minus => exact scanMoment_eq_none (by decide) _

/-- What is neither a date nor a time is a number. -/
theorem scanNumber_of_not_moment {cs : List Char} (h : scanMoment cs = none) :
    scanNumber cs = ((scanDecimal cs <|> scanNamed cs) <|> scanInteger cs) := by
  rw [scanNumber, h]

/-! ## 2. Values that are no containers -/

/-- **A value that is no string and no container as it may be written.** -/
inductive ScalarSpelled : Scalar → List Char → Prop where
  | true : ScalarSpelled (.bool true) ['t', 'r', 'u', 'e']
  | false : ScalarSpelled (.bool false) ['f', 'a', 'l', 's', 'e']
  | number {x : Scalar} {cs : List Char} (number : NumberSpelled x cs) : ScalarSpelled x cs
  | moment {cs : List Char} (moment : MomentSpelled cs) : ScalarSpelled .moment cs

/-- A text that begins with a digit or a sign is read as a number. -/
theorem scanScalar_number {c : Char} (hc : c = '+' ∨ c = '-' ∨ c.isDigit = true)
    (cs : List Char) : scanScalar (c :: cs) = scanNumber (c :: cs) := by
  have hquote : (c == '\x22' || c == '\x27') = false := by
    rw [Bool.or_eq_false_iff, beq_eq_false_iff_ne, beq_eq_false_iff_ne]
    rcases hc with rfl | rfl | hc
    · decide
    · decide
    · constructor <;> (rintro rfl; exact absurd hc (by decide))
  have hsign : (c == '+' || c == '-' || c.isDigit) = true := by
    rcases hc with rfl | rfl | hc
    · decide
    · decide
    · rw [hc, Bool.or_true]
  rw [scanScalar]
  simp only [hquote, hsign, Bool.false_eq_true, if_false, if_true]

/-- A text that begins with a whole part is read as a number, if it is no date and no time. -/
theorem scanScalar_whole {negative : Bool} {sign ds cs : List Char}
    (signed : SignSpelled negative sign) (whole : WholeSpelled ds cs) {rest : List Char}
    (hrest : NotAhead (fun c => c.isDigit || c == '-' || c == ':') rest) :
    scanScalar (sign ++ (cs ++ rest)) =
      ((scanDecimal (sign ++ (cs ++ rest)) <|> scanNamed (sign ++ (cs ++ rest))) <|>
        scanInteger (sign ++ (cs ++ rest))) := by
  rw [← scanNumber_of_not_moment (scanMoment_whole signed whole hrest)]
  obtain ⟨d, tail, rfl, hd, -⟩ := whole.begins
  cases signed with
  | none => exact scanScalar_number (.inr (.inr hd)) _
  | plus => exact scanScalar_number (.inl rfl) _
  | minus => exact scanScalar_number (.inr (.inl rfl)) _

/-- A number that has a name is read. -/
theorem scanScalar_named {negative : Bool} {sign : List Char} (signed : SignSpelled negative sign)
    {c : Char} (hc : c = 'i' ∨ c = 'n') {tail : List Char} {r : Value × List Char}
    (hread : scanNamed (sign ++ c :: tail) = some r) : scanScalar (sign ++ c :: tail) = some r := by
  have hsigned : ∀ s : Char, s = '+' ∨ s = '-' → scanNamed (s :: c :: tail) = some r →
      scanScalar (s :: c :: tail) = some r := by
    intro s hs hread
    have hmoment : scanMoment (s :: c :: tail) = none := by
      rcases hs with rfl | rfl <;> exact scanMoment_eq_none (by decide) _
    have hdecimal : scanDecimal (s :: c :: tail) = none := by
      rcases hs with rfl | rfl <;> rcases hc with rfl | rfl <;> rfl
    rw [scanScalar_number (by rcases hs with rfl | rfl <;> simp),
      scanNumber_of_not_moment hmoment, hdecimal, hread]
    rfl
  cases signed with
  | none =>
    rw [← hread]
    rcases hc with rfl | rfl <;> rfl
  | plus => exact hsigned '+' (.inl rfl) hread
  | minus => exact hsigned '-' (.inr rfl) hread

/-- **A number is read.** -/
theorem scanScalar_of_number {x : Scalar} {cs : List Char} (h : NumberSpelled x cs)
    {rest : List Char} (hrest : EndsNumber rest) :
    scanScalar (cs ++ rest) = some (x.value, rest) := by
  have hmoment : NotAhead (fun c => c.isDigit || c == '-' || c == ':') rest := by
    refine hrest.mono fun c hc => ?_
    simp only [Bool.or_eq_true] at hc
    rcases hc with (hc | hc) | hc
    · simp [isHex_of_isDigit hc]
    all_goals simp [hc]
  cases h with
  | integer signed whole inRange =>
    have hends : EndsDigits Char.isDigit rest := hrest.digits fun c => isHex_of_isDigit
    have hpoint : NotAhead (fun c => c == '.' || c == 'e' || c == 'E') rest := by
      refine hrest.mono fun c hc => ?_
      simp only [Bool.or_eq_true] at hc
      rcases hc with (hc | hc) | hc <;> simp [hc]
    rw [List.append_assoc, scanScalar_whole signed whole hmoment,
      scanDecimal_integer signed whole hends hpoint, scanNamed_whole signed whole]
    exact scanInteger_append signed whole inRange hrest
  | @based letter base isDigit n ds cs known digits inRange =>
    have hletter : NotAhead (fun c => c.isDigit || c == '-' || c == ':')
        (letter :: (cs ++ rest)) := by
      refine notAhead_cons ?_ _
      cases known <;> decide
    have hends : EndsDigits Char.isDigit (letter :: (cs ++ rest)) := by
      refine notAhead_cons ?_ _
      cases known <;> decide
    have hpoint : NotAhead (fun c => c == '.' || c == 'e' || c == 'E')
        (letter :: (cs ++ rest)) := by
      refine notAhead_cons ?_ _
      cases known <;> decide
    have hread := scanScalar_whole SignSpelled.none WholeSpelled.zero hletter
    rw [scanDecimal_integer .none .zero hends hpoint, scanNamed_whole .none .zero] at hread
    exact hread.trans (scanInteger_based known digits inRange hrest)
  | decimal signed whole point power either inRange =>
    have hpower := notAhead_exponent power hrest
    have hpoint := notAhead_fraction point hpower
    simp only [List.append_assoc]
    rw [scanScalar_whole signed whole (hpoint.mono fun c hc => ?_),
      scanDecimal_append signed whole point power either inRange hrest]
    · rfl
    · simp only [Bool.or_eq_true] at hc ⊢
      rcases hc with (hc | hc) | hc <;> simp [hc]
  | infinite signed =>
    rw [List.append_assoc]
    exact scanScalar_named signed (.inl rfl) (scanNamed_append signed rest).1
  | notANumber signed =>
    rw [List.append_assoc]
    exact scanScalar_named signed (.inr rfl) (scanNamed_append signed rest).2

theorem scanWord_append : ∀ word rest : List Char, scanWord word (word ++ rest) = some rest
  | [], _ => rfl
  | w :: word, rest => by
      rw [List.cons_append, scanWord, if_pos rfl]
      exact scanWord_append word rest

/-- **A value that is no string and no container is read**, whatever a value may stand in front
    of. -/
theorem scanScalar_append {x : Scalar} {cs : List Char} (h : ScalarSpelled x cs)
    {rest : List Char} (hrest : Follow rest) : scanScalar (cs ++ rest) = some (x.value, rest) := by
  cases h with
  | true =>
    exact congrArg (Option.map fun r => (Value.bool .true, r)) (scanWord_append ['r', 'u', 'e'] rest)
  | false =>
    exact congrArg (Option.map fun r => (Value.bool .false, r))
      (scanWord_append ['a', 'l', 's', 'e'] rest)
  | number number => exact scanScalar_of_number number hrest.endsNumber
  | moment moment =>
    have hread := scanMoment_append moment hrest
    obtain ⟨d, tail, rfl, hd⟩ := moment.begins
    rw [List.cons_append] at hread ⊢
    rw [scanScalar_number (.inr (.inr hd)), scanNumber, hread]
    rfl

end HostGlue.Toml
