import HostGlue.Proofs.Toml.Gaps

/-!
# How the numbers of a TOML text may be written

* `DigitsSpelled`, digits with underscores between them, and `WholeSpelled`, `FractionSpelled` and
  `ExponentSpelled`, the parts of a decimal number;
* **`NumberSpelled`, how a number may be written**: integers of four bases, numbers with a fraction or an
  exponent, and the numbers that have a name. An integer beyond 64 bits and a positive number beyond
  the greatest magnitude cannot be written;
* for each kind of number, that its scanner takes it, and that the scanners before it do not
  (`scanInteger_append`, `scanDecimal_append`, `scanNamed_append`, `scanDecimal_integer`).
-/

namespace HostGlue.Toml

/-! ## 1. Digits -/

/-- Digits that go on a number, each perhaps behind an underscore. -/
inductive MoreDigits (isDigit : Char → Bool) : List Char → List Char → Prop where
  | nil : MoreDigits isDigit [] []
  | digit {d : Char} {ds cs : List Char} (digit : isDigit d = true)
      (others : MoreDigits isDigit ds cs) : MoreDigits isDigit (d :: ds) (d :: cs)
  | apart {d : Char} {ds cs : List Char} (digit : isDigit d = true)
      (others : MoreDigits isDigit ds cs) : MoreDigits isDigit (d :: ds) ('_' :: d :: cs)

/-- One digit or more as they may be written, with underscores between them. -/
inductive DigitsSpelled (isDigit : Char → Bool) : List Char → List Char → Prop where
  | mk {d : Char} {ds cs : List Char} (digit : isDigit d = true)
      (others : MoreDigits isDigit ds cs) : DigitsSpelled isDigit (d :: ds) (d :: cs)

/-- A whole part as it may be written: a lone zero, or digits that do not begin with one. -/
inductive WholeSpelled : List Char → List Char → Prop where
  | zero : WholeSpelled ['0'] ['0']
  | digits {ds cs : List Char} (digits : DigitsSpelled Char.isDigit ds cs)
      (lead : ds.head? ≠ some '0') : WholeSpelled ds cs

/-- A sign as it may be written. -/
inductive SignSpelled : Bool → List Char → Prop where
  | none : SignSpelled false []
  | plus : SignSpelled false ['+']
  | minus : SignSpelled true ['-']

/-- What digits of a kind may stand in front of. -/
def EndsDigits (isDigit : Char → Bool) (rest : List Char) : Prop :=
  NotAhead (fun c => isDigit c || c == '_') rest

theorem moreDigits_append {isDigit : Char → Bool} (hscore : isDigit '_' = false) {ds cs : List Char}
    (h : MoreDigits isDigit ds cs) {rest : List Char} (hrest : EndsDigits isDigit rest) :
    moreDigits isDigit (cs ++ rest) = (ds, rest) := by
  induction h with
  | nil =>
    rcases rest with _ | ⟨c, rest⟩
    · rfl
    · have hc := hrest c rfl
      simp only [Bool.or_eq_false_iff, beq_eq_false_iff_ne] at hc
      rw [List.nil_append, moreDigits]
      · simp only [hc.1, Bool.false_eq_true, if_false]
      · exact fun _ _ h _ => hc.2 h
  | @digit d ds cs digit _ ih =>
    have hd : d ≠ '_' := by
      rintro rfl
      rw [hscore] at digit
      cases digit
    rw [List.cons_append, moreDigits]
    · simp only [digit, if_true, ih]
    · exact fun _ _ h _ => hd h
  | apart digit _ ih =>
    rw [List.cons_append, List.cons_append, moreDigits, if_pos digit, ih]

theorem scanDigits_append {isDigit : Char → Bool} (hscore : isDigit '_' = false) {ds cs : List Char}
    (h : DigitsSpelled isDigit ds cs) {rest : List Char} (hrest : EndsDigits isDigit rest) :
    scanDigits isDigit (cs ++ rest) = some (ds, rest) := by
  cases h with
  | mk digit others =>
    rw [List.cons_append, scanDigits, if_pos digit, moreDigits_append hscore others hrest]

/-- How digits begin. -/
theorem DigitsSpelled.begins {isDigit : Char → Bool} {ds cs : List Char}
    (h : DigitsSpelled isDigit ds cs) :
    ∃ d es tail, ds = d :: es ∧ cs = d :: tail ∧ isDigit d = true := by
  cases h with
  | mk digit => exact ⟨_, _, _, rfl, rfl, digit⟩

/-- How a whole part begins: a zero is followed by nothing else. -/
theorem WholeSpelled.begins {ds cs : List Char} (h : WholeSpelled ds cs) :
    ∃ d tail, cs = d :: tail ∧ d.isDigit = true ∧ (d = '0' → tail = []) := by
  cases h with
  | zero => exact ⟨'0', [], rfl, by decide, fun _ => rfl⟩
  | digits digits lead =>
    obtain ⟨d, es, tail, rfl, rfl, hd⟩ := digits.begins
    refine ⟨d, tail, rfl, hd, ?_⟩
    rintro rfl
    exact absurd rfl lead

theorem scanWhole_append {ds cs : List Char} (h : WholeSpelled ds cs) {rest : List Char}
    (hrest : EndsDigits Char.isDigit rest) : scanWhole (cs ++ rest) = some (ds, rest) := by
  cases h with
  | zero => rfl
  | digits digits lead =>
    have hread := scanDigits_append (by decide) digits hrest
    obtain ⟨d, es, tail, rfl, rfl, -⟩ := digits.begins
    rw [List.cons_append] at hread ⊢
    rw [scanWhole, hread]
    rintro _ heq
    exact lead (congrArg some (List.cons.inj heq).1)

/-- A sign is read in front of anything that is no sign. -/
theorem sign_append {negative : Bool} {sign : List Char} (h : SignSpelled negative sign)
    {rest : List Char} (hrest : NotAhead (fun c => c == '+' || c == '-') rest) :
    Digits.sign (sign ++ rest) = (negative, rest) := by
  cases h with
  | plus => rfl
  | minus => rfl
  | none =>
    rw [List.nil_append]
    unfold Digits.sign
    split
    · exact absurd (hrest _ rfl) (by decide)
    · exact absurd (hrest _ rfl) (by decide)
    · rfl

/-! ## 2. Numbers -/

/-- A fraction as it may be written. -/
inductive FractionSpelled : Option (List Char) → List Char → Prop where
  | none : FractionSpelled none []
  | some {ds cs : List Char} (digits : DigitsSpelled Char.isDigit ds cs) :
      FractionSpelled (some ds) ('.' :: cs)

/-- An exponent as it may be written. -/
inductive ExponentSpelled : Option Int → List Char → Prop where
  | none : ExponentSpelled none []
  | some {letter : Char} {negative : Bool} {sign ds cs : List Char}
      (power : letter = 'e' ∨ letter = 'E') (signed : SignSpelled negative sign)
      (digits : DigitsSpelled Char.isDigit ds cs) :
      ExponentSpelled (some (if negative then -(Digits.number 10 ds : Int) else Digits.number 10 ds))
        (letter :: (sign ++ cs))

/-- The letter of a base, and which digits it has. -/
inductive Base : Char → Nat → (Char → Bool) → Prop where
  | hexadecimal : Base 'x' 16 Digits.isHex
  | octal : Base 'o' 8 isOctalDigit
  | binary : Base 'b' 2 isBinaryDigit

/-- A value that is no string and no container. -/
inductive Scalar where
  | integer (n : Int)
  | float (x : FloatValue)
  | bool (b : Bool)
  | moment

/-- Such a value as a value. -/
def Scalar.value : Scalar → Value
  | .integer n => .integer n
  | .float x => .float x
  | .bool b => .bool b
  | .moment => .moment

/-- **A number as it may be written.** -/
inductive NumberSpelled : Scalar → List Char → Prop where
  | integer {negative : Bool} {n : Int} {sign ds cs : List Char} (signed : SignSpelled negative sign)
      (whole : WholeSpelled ds cs) (inRange : integerOf? negative (Digits.number 10 ds) = some n) :
      NumberSpelled (.integer n) (sign ++ cs)
  | based {letter : Char} {base : Nat} {isDigit : Char → Bool} {n : Int} {ds cs : List Char}
      (known : Base letter base isDigit) (digits : DigitsSpelled isDigit ds cs)
      (inRange : integerOf? false (Digits.number base ds) = some n) :
      NumberSpelled (.integer n) ('0' :: letter :: cs)
  | decimal {negative : Bool} {x : FloatValue} {sign ds cs fs es : List Char}
      {fraction : Option (List Char)} {exponent : Option Int} (signed : SignSpelled negative sign)
      (whole : WholeSpelled ds cs) (point : FractionSpelled fraction fs)
      (power : ExponentSpelled exponent es) (either : fraction ≠ none ∨ exponent ≠ none)
      (inRange : floatOf? negative ds (fraction.getD []) (exponent.getD 0) = some x) :
      NumberSpelled (.float x) (sign ++ (cs ++ (fs ++ es)))
  | infinite {negative : Bool} {sign : List Char} (signed : SignSpelled negative sign) :
      NumberSpelled (.float (.infinite negative)) (sign ++ ['i', 'n', 'f'])
  | notANumber {negative : Bool} {sign : List Char} (signed : SignSpelled negative sign) :
      NumberSpelled (.float .notANumber) (sign ++ ['n', 'a', 'n'])

/-- What a number may stand in front of. -/
def EndsNumber (rest : List Char) : Prop :=
  NotAhead (fun c => Digits.isHex c || c == '_' || c == '.' || c == 'e' || c == 'E' || c == 'x' ||
    c == 'o' || c == 'b' || c == '-' || c == ':') rest

theorem Follow.endsNumber {rest : List Char} (h : Follow rest) : EndsNumber rest :=
  h.notAhead (by decide) (by decide)

theorem isHex_of_isDigit {c : Char} (h : c.isDigit = true) : Digits.isHex c = true := by
  have hc : '0' ≤ c ∧ c ≤ '9' := by
    simpa [Char.isDigit, Char.le_def] using h
  simp [Digits.isHex, Digits.hex?, hc]

/-- A digit of a base is one of its letters or signs. -/
theorem Base.isHex {letter : Char} {base : Nat} {isDigit : Char → Bool}
    (h : Base letter base isDigit) {c : Char} (hc : isDigit c = true) : Digits.isHex c = true := by
  cases h with
  | hexadecimal => exact hc
  | octal =>
    have hdigit : '0' ≤ c ∧ c ≤ '9' := by
      simp only [isOctalDigit, Bool.and_eq_true, decide_eq_true_eq] at hc
      exact ⟨hc.1, Char.le_trans hc.2 (by decide)⟩
    simp [Digits.isHex, Digits.hex?, hdigit]
  | binary =>
    simp only [isBinaryDigit, Bool.or_eq_true, beq_iff_eq] at hc
    rcases hc with rfl | rfl <;> decide

theorem EndsNumber.digits {rest : List Char} (h : EndsNumber rest) {isDigit : Char → Bool}
    (hdigit : ∀ c, isDigit c = true → Digits.isHex c = true) : EndsDigits isDigit rest := by
  refine h.mono fun c hc => ?_
  rcases Bool.or_eq_true_iff.mp hc with hc | hc
  · simp [hdigit c hc]
  · simp [hc]

/-! ## 3. Reading numbers -/

theorem scanFraction_append {fraction : Option (List Char)} {fs : List Char}
    (h : FractionSpelled fraction fs) {rest : List Char}
    (hrest : NotAhead (fun c => c.isDigit || c == '_' || c == '.') rest) :
    scanFraction (fs ++ rest) = some (fraction, rest) := by
  cases h with
  | none =>
    rw [List.nil_append]
    unfold scanFraction
    split
    · exact absurd (hrest _ rfl) (by decide)
    · rfl
  | some digits =>
    have hends : EndsDigits Char.isDigit rest := hrest.mono fun c hc => by rw [hc, Bool.true_or]
    rw [List.cons_append, scanFraction, scanDigits_append (by decide) digits hends]
    rfl

theorem scanExponent_append {exponent : Option Int} {es : List Char}
    (h : ExponentSpelled exponent es) {rest : List Char} (hrest : EndsNumber rest) :
    scanExponent (es ++ rest) = some (exponent, rest) := by
  cases h with
  | none =>
    rcases rest with _ | ⟨c, rest⟩
    · rfl
    · have hc := hrest c rfl
      simp only [Bool.or_eq_false_iff] at hc
      rw [List.nil_append, scanExponent, if_neg]
      simp [hc.1.1.1.1.1.1.2, hc.1.1.1.1.1.2]
  | @some letter negative sign ds cs power signed digits =>
    have hends : EndsDigits Char.isDigit rest := hrest.digits fun c => isHex_of_isDigit
    have hread := scanDigits_append (by decide) digits hends
    have hpower : (letter == 'e' || letter == 'E') = true := by
      rcases power with rfl | rfl <;> decide
    have hsign : Digits.sign (sign ++ (cs ++ rest)) = (negative, cs ++ rest) := by
      refine sign_append signed ?_
      obtain ⟨d, es, tail, -, rfl, hd⟩ := digits.begins
      refine notAhead_cons ?_ _
      rw [Bool.or_eq_false_iff, beq_eq_false_iff_ne, beq_eq_false_iff_ne]
      constructor <;> (rintro rfl; exact absurd hd (by decide))
    rw [List.cons_append, List.append_assoc, scanExponent, if_pos hpower, hsign]
    simp only [Option.bind_eq_bind, hread, Option.bind_some]
    rfl

/-- What stands in front of the exponent of a number ends its fraction. -/
theorem notAhead_exponent {exponent : Option Int} {es : List Char} (h : ExponentSpelled exponent es)
    {rest : List Char} (hrest : EndsNumber rest) :
    NotAhead (fun c => c.isDigit || c == '_' || c == '.' || c == '-' || c == ':') (es ++ rest) := by
  cases h with
  | none =>
    refine hrest.mono fun c hc => ?_
    simp only [Bool.or_eq_true] at hc
    rcases hc with (((hc | hc) | hc) | hc) | hc
    · simp [isHex_of_isDigit hc]
    all_goals simp [hc]
  | some power =>
    refine notAhead_cons ?_ _
    rcases power with rfl | rfl <;> decide

theorem notAhead_fraction {fraction : Option (List Char)} {fs : List Char}
    (h : FractionSpelled fraction fs) {rest : List Char}
    (hrest : NotAhead (fun c => c.isDigit || c == '_' || c == '.' || c == '-' || c == ':') rest) :
    NotAhead (fun c => c.isDigit || c == '_' || c == '-' || c == ':') (fs ++ rest) := by
  cases h with
  | none =>
    refine hrest.mono fun c hc => ?_
    simp only [Bool.or_eq_true] at hc
    rcases hc with ((hc | hc) | hc) | hc <;> simp [hc]
  | some => exact notAhead_cons (by decide) _

/-- A sign is read in front of a whole part. -/
theorem sign_whole {negative : Bool} {sign : List Char} (h : SignSpelled negative sign)
    {ds cs : List Char} (whole : WholeSpelled ds cs) (rest : List Char) :
    Digits.sign (sign ++ (cs ++ rest)) = (negative, cs ++ rest) := by
  refine sign_append h ?_
  obtain ⟨d, tail, rfl, hd, -⟩ := whole.begins
  refine notAhead_cons ?_ _
  rw [Bool.or_eq_false_iff, beq_eq_false_iff_ne, beq_eq_false_iff_ne]
  constructor <;> (rintro rfl; exact absurd hd (by decide))

/-- **An integer is read**, and it is not mistaken for a number of another base. -/
theorem scanInteger_append {negative : Bool} {n : Int} {sign ds cs : List Char}
    (signed : SignSpelled negative sign) (whole : WholeSpelled ds cs)
    (inRange : integerOf? negative (Digits.number 10 ds) = some n) {rest : List Char}
    (hrest : EndsNumber rest) : scanInteger (sign ++ (cs ++ rest)) = some (.integer n, rest) := by
  have hends : EndsDigits Char.isDigit rest := hrest.digits fun c => isHex_of_isDigit
  have hbase : ∀ letter tail, (letter = 'x' ∨ letter = 'o' ∨ letter = 'b') →
      sign ++ (cs ++ rest) ≠ '0' :: letter :: tail := by
    rintro letter tail hletter heq
    cases signed with
    | plus => cases heq
    | minus => cases heq
    | none =>
      obtain ⟨d, es, rfl, -, hzero⟩ := whole.begins
      obtain ⟨rfl, hbehind⟩ := List.cons.inj heq
      obtain rfl := hzero rfl
      obtain rfl : rest = letter :: tail := hbehind
      have hne := hrest letter rfl
      rcases hletter with rfl | rfl | rfl <;> exact absurd hne (by decide)
  rw [scanInteger]
  · rw [sign_whole signed whole]
    simp only [Option.bind_eq_bind, scanWhole_append whole hends, Option.bind_some, inRange]
    rfl
  · exact fun tail => hbase 'x' tail (.inl rfl)
  · exact fun tail => hbase 'o' tail (.inr (.inl rfl))
  · exact fun tail => hbase 'b' tail (.inr (.inr rfl))

/-- Digits behind the letter of a base are read. -/
theorem scanInteger_based {letter : Char} {base : Nat} {isDigit : Char → Bool} {n : Int}
    {ds cs : List Char} (known : Base letter base isDigit) (digits : DigitsSpelled isDigit ds cs)
    (inRange : integerOf? false (Digits.number base ds) = some n) {rest : List Char}
    (hrest : EndsNumber rest) :
    scanInteger ('0' :: letter :: (cs ++ rest)) = some (.integer n, rest) := by
  have hends : EndsDigits isDigit rest := hrest.digits fun c => known.isHex
  have hbased : scanBased base isDigit (cs ++ rest) = some (.integer n, rest) := by
    have hscore : isDigit '_' = false := by cases known <;> decide
    rw [scanBased, scanDigits_append hscore digits hends]
    simp only [Option.bind_eq_bind, Option.bind_some, inRange]
    rfl
  rw [← hbased]
  cases known <;> rfl

/-- An integer is no number with a fraction or an exponent. -/
theorem scanDecimal_integer {negative : Bool} {sign ds cs : List Char}
    (signed : SignSpelled negative sign) (whole : WholeSpelled ds cs) {rest : List Char}
    (hends : EndsDigits Char.isDigit rest)
    (hrest : NotAhead (fun c => c == '.' || c == 'e' || c == 'E') rest) :
    scanDecimal (sign ++ (cs ++ rest)) = none := by
  have hfraction : scanFraction rest = some (none, rest) := by
    unfold scanFraction
    split
    · exact absurd (hrest _ rfl) (by decide)
    · rfl
  have hexponent : scanExponent rest = some (none, rest) := by
    rcases rest with _ | ⟨c, rest⟩
    · rfl
    · have hc := hrest c rfl
      simp only [Bool.or_eq_false_iff] at hc
      rw [scanExponent, if_neg]
      simp [hc.1.2, hc.2]
  rw [scanDecimal, sign_whole signed whole]
  simp only [Option.bind_eq_bind, scanWhole_append whole hends, Option.bind_some, hfraction,
    hexponent]
  rfl

/-- A whole part is no name of a number. -/
theorem scanNamed_whole {negative : Bool} {sign ds cs : List Char}
    (signed : SignSpelled negative sign) (whole : WholeSpelled ds cs) (rest : List Char) :
    scanNamed (sign ++ (cs ++ rest)) = none := by
  rw [scanNamed, sign_whole signed whole]
  obtain ⟨d, tail, rfl, hd, -⟩ := whole.begins
  dsimp only
  split
  · rename_i heq
    rw [(List.cons.inj heq).1] at hd
    exact absurd hd (by decide)
  · rename_i heq
    rw [(List.cons.inj heq).1] at hd
    exact absurd hd (by decide)
  · rfl

/-- A number with a fraction or an exponent is read. -/
theorem scanDecimal_append {negative : Bool} {x : FloatValue} {sign ds cs fs es : List Char}
    {fraction : Option (List Char)} {exponent : Option Int} (signed : SignSpelled negative sign)
    (whole : WholeSpelled ds cs) (point : FractionSpelled fraction fs)
    (power : ExponentSpelled exponent es) (either : fraction ≠ none ∨ exponent ≠ none)
    (inRange : floatOf? negative ds (fraction.getD []) (exponent.getD 0) = some x)
    {rest : List Char} (hrest : EndsNumber rest) :
    scanDecimal (sign ++ (cs ++ (fs ++ (es ++ rest)))) = some (.float x, rest) := by
  have hpower := notAhead_exponent power hrest
  have hpoint := notAhead_fraction point hpower
  have hends : EndsDigits Char.isDigit (fs ++ (es ++ rest)) :=
    hpoint.mono fun c hc => by rw [hc, Bool.true_or, Bool.true_or]
  have hbehind : NotAhead (fun c => c.isDigit || c == '_' || c == '.') (es ++ rest) :=
    hpower.mono fun c hc => by rw [hc, Bool.true_or, Bool.true_or]
  have hneither : ¬ (fraction.isNone && exponent.isNone) = true := by
    simp only [Bool.and_eq_true, Option.isNone_iff_eq_none, not_and_or]
    exact either
  rw [scanDecimal, sign_whole signed whole]
  simp only [Option.bind_eq_bind, scanWhole_append whole hends, Option.bind_some,
    scanFraction_append point hbehind, scanExponent_append power hrest, if_neg hneither, inRange]
  rfl

/-- A name of a number is read. -/
theorem scanNamed_append {negative : Bool} {sign : List Char} (signed : SignSpelled negative sign)
    (rest : List Char) :
    scanNamed (sign ++ ('i' :: 'n' :: 'f' :: rest)) = some (.float (.infinite negative), rest) ∧
      scanNamed (sign ++ ('n' :: 'a' :: 'n' :: rest)) = some (.float .notANumber, rest) := by
  cases signed <;> exact ⟨rfl, rfl⟩

end HostGlue.Toml
