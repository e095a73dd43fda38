import HostGlue.Proofs.Json.Grammar
import Mathlib.Data.List.TakeWhile

/-!
# Reading scalars and tokens

What a scanner takes off a text is what the grammar allows there, and it takes all of it. For each kind
of token there is one fact for either direction:

* what may be written is scanned, whatever follows, as long as it does not go on with a numeral
  (`scanNumeral_append`, `scan_append`, `scanWord_append`);
* what was scanned may be written (`spelled_of_scanNumeral`, `spelled_of_scan`, `of_scanWord`);
* **`tokens_of_lexed` and `lexed_of_tokens`: the tokens of a text are those it is a row of.**
-/

namespace HostGlue.Json

/-! ## 1. Numerals -/

/-- A text that begins with no character of a kind. -/
def NotAhead (p : Char → Bool) (cs : List Char) : Prop := ∀ c ∈ cs.head?, p c = false

theorem spanDigits_append {ds : List Char} (h : ∀ d ∈ ds, d.isDigit = true) {rest : List Char}
    (hr : NotAhead Char.isDigit rest) : spanDigits (ds ++ rest) = (ds, rest) := by
  have htake : rest.takeWhile Char.isDigit = [] := by
    cases rest with
    | nil => rfl
    | cons c rest => rw [List.takeWhile_cons_of_neg (by simp [hr c rfl])]
  have hdrop : rest.dropWhile Char.isDigit = rest := by
    cases rest with
    | nil => rfl
    | cons c rest => rw [List.dropWhile_cons_of_neg (by simp [hr c rfl])]
  rw [spanDigits, List.takeWhile_append_of_pos h, List.dropWhile_append_of_pos h, htake, hdrop,
    List.append_nil]

theorem scanDigits_append {ds : List Char} (h : Digital ds) {rest : List Char}
    (hr : NotAhead Char.isDigit rest) : scanDigits (ds ++ rest) = .ok (ds, rest) := by
  cases ds with
  | nil => exact absurd rfl h.some
  | cons d ds =>
    have hspan := spanDigits_append h.digits hr
    rw [List.cons_append] at hspan ⊢
    rw [scanDigits, if_pos (h.digits d List.mem_cons_self), hspan]

/-- What was scanned as digits are digits, and no more of them follow. -/
theorem of_scanDigits {cs ds rest : List Char} (h : scanDigits cs = .ok (ds, rest)) :
    cs = ds ++ rest ∧ Digital ds ∧ NotAhead Char.isDigit rest := by
  unfold scanDigits at h
  split at h
  · cases h
  · rename_i c cs
    split at h
    · rename_i hc
      cases h
      refine ⟨(List.takeWhile_append_dropWhile).symm, ⟨?_, fun d hd => ?_⟩, fun d hd => ?_⟩
      · rw [List.takeWhile_cons_of_pos hc]
        exact List.cons_ne_nil _ _
      · exact List.mem_takeWhile_imp hd
      · have hhead := List.head?_dropWhile_not Char.isDigit (c :: cs)
        rw [Option.mem_def.mp hd] at hhead
        simpa using hhead
    · cases h

theorem scanWhole_append {ds : List Char} (h : Whole ds) {rest : List Char}
    (hr : NotAhead Char.isDigit rest) : scanWhole (ds ++ rest) = .ok (ds, rest) := by
  unfold scanWhole
  split
  · rename_i c tail heq
    cases ds with
    | nil => exact absurd rfl h.digital.some
    | cons d ds =>
      have hd : d = '0' := (List.cons.inj heq).1
      have hds : d :: ds = ['0'] := h.lead (by rw [hd]; rfl)
      cases hds
      have hrest : rest = c :: tail := (List.cons.inj heq).2
      rw [if_neg (by simp [hr c (by rw [hrest]; rfl)]), ← hrest]
  · exact scanDigits_append h.digital hr

theorem of_scanWhole {cs ds rest : List Char} (h : scanWhole cs = .ok (ds, rest)) :
    cs = ds ++ rest ∧ Whole ds ∧ NotAhead Char.isDigit rest := by
  unfold scanWhole at h
  split at h
  · rename_i c tail
    split at h
    · cases h
    · rename_i hc
      cases h
      have hzero : Digital ['0'] := ⟨List.cons_ne_nil _ _, List.forall_mem_singleton.mpr rfl⟩
      refine ⟨rfl, ⟨hzero, fun _ => rfl⟩, fun d hd => ?_⟩
      cases hd
      simpa using hc
  · rename_i hzero
    obtain ⟨rfl, hdigital, hahead⟩ := of_scanDigits h
    refine ⟨rfl, ⟨hdigital, fun hlead => ?_⟩, hahead⟩
    -- digits behind a leading zero would have been refused
    cases ds with
    | nil => cases hlead
    | cons d ds =>
      obtain rfl : d = '0' := Option.some.inj hlead
      cases ds with
      | nil => rfl
      | cons e es => exact absurd rfl (hzero e (es ++ rest))

/-- A text that goes on with no digit, point or exponent. -/
def EndsNumeral (cs : List Char) : Prop :=
  NotAhead (fun c => c.isDigit || c == '.' || c == 'e' || c == 'E') cs

theorem NotAhead.mono {p q : Char → Bool} {cs : List Char} (h : NotAhead q cs)
    (hpq : ∀ c, p c = true → q c = true) : NotAhead p cs := by
  intro c hc
  cases hp : p c with
  | false => rfl
  | true => exact absurd (hpq c hp) (by simp [h c hc])

theorem scanFraction_append {fraction : Option (List Char)} {f : List Char}
    (h : FractionSpelled fraction f) {rest : List Char}
    (hr : NotAhead (fun c => c.isDigit || c == '.') rest) :
    scanFraction (f ++ rest) = .ok (fraction, rest) := by
  cases h with
  | none =>
    rw [List.nil_append]
    unfold scanFraction
    split
    · exact absurd (hr '.' rfl) (by decide)
    · rfl
  | some digital =>
    have hdigits := scanDigits_append digital (hr.mono (p := Char.isDigit) fun c hc => by simp [hc])
    rw [List.cons_append, scanFraction, hdigits]
    rfl

theorem of_scanFraction {cs rest : List Char} {fraction : Option (List Char)}
    (h : scanFraction cs = .ok (fraction, rest)) :
    ∃ f, cs = f ++ rest ∧ FractionSpelled fraction f := by
  unfold scanFraction at h
  split at h
  · obtain ⟨⟨ds, behind⟩, hds, h⟩ := bind_eq_ok.mp h
    cases h
    obtain ⟨rfl, hdigital, -⟩ := of_scanDigits hds
    exact ⟨'.' :: ds, rfl, .some hdigital⟩
  · cases h
    exact ⟨[], rfl, .none⟩

theorem sign_append {negative : Bool} {sign : List Char} (h : SignSpelled negative sign)
    {ds : List Char} (hd : Digital ds) (rest : List Char) :
    Digits.sign (sign ++ (ds ++ rest)) = (negative, ds ++ rest) := by
  cases h with
  | none =>
    cases ds with
    | nil => exact absurd rfl hd.some
    | cons d ds =>
      have hdigit := hd.digits d List.mem_cons_self
      rw [List.nil_append, List.cons_append]
      unfold Digits.sign
      split
      · rename_i heq
        cases heq
        exact absurd hdigit (by decide)
      · rename_i heq
        cases heq
        exact absurd hdigit (by decide)
      · rfl
  | plus => rfl
  | minus => rfl

theorem of_sign (cs : List Char) :
    ∃ sign, cs = sign ++ (Digits.sign cs).2 ∧ SignSpelled (Digits.sign cs).1 sign := by
  unfold Digits.sign
  split
  · exact ⟨['+'], rfl, .plus⟩
  · exact ⟨['-'], rfl, .minus⟩
  · exact ⟨[], rfl, .none⟩

theorem scanExponent_append {exponent : Option (Bool × List Char)} {e : List Char}
    (h : ExponentSpelled exponent e) {rest : List Char} (hr : EndsNumeral rest) :
    scanExponent (e ++ rest) = .ok (exponent, rest) := by
  cases h with
  | none =>
    rw [List.nil_append]
    unfold scanExponent
    split
    · rename_i c rest
      have hc := hr c rfl
      rw [if_neg]
      rintro (rfl | rfl)
      · exact absurd hc (by decide)
      · exact absurd hc (by decide)
    · rfl
  | some letter signed digital =>
    have hdigits := scanDigits_append digital (hr.mono (p := Char.isDigit) fun c hc => by simp [hc])
    rw [List.cons_append, List.append_assoc, scanExponent, if_pos letter,
      sign_append signed digital, hdigits]
    rfl

theorem of_scanExponent {cs rest : List Char} {exponent : Option (Bool × List Char)}
    (h : scanExponent cs = .ok (exponent, rest)) :
    ∃ e, cs = e ++ rest ∧ ExponentSpelled exponent e := by
  unfold scanExponent at h
  split at h
  · rename_i c cs
    split at h
    · rename_i hletter
      obtain ⟨⟨ds, behind⟩, hds, h⟩ := bind_eq_ok.mp h
      cases h
      obtain ⟨hsplit, hdigital, -⟩ := of_scanDigits hds
      obtain ⟨sign, hsign, hsigned⟩ := of_sign cs
      refine ⟨c :: (sign ++ ds), ?_, .some hletter hsigned hdigital⟩
      rw [List.cons_append, List.append_assoc, ← hsplit, ← hsign]
    · cases h
      exact ⟨[], rfl, .none⟩
  · cases h
    exact ⟨[], rfl, .none⟩

theorem scanMinus_append {whole : List Char} (h : Whole whole) (negative : Bool)
    (rest : List Char) : scanMinus (minusOf negative ++ (whole ++ rest)) = (negative, whole ++ rest) := by
  cases negative with
  | true => rfl
  | false =>
    cases whole with
    | nil => exact absurd rfl h.digital.some
    | cons d ds =>
      have hdigit := h.digital.digits d List.mem_cons_self
      unfold scanMinus
      split
      · rename_i heq
        cases heq
        exact absurd hdigit (by decide)
      · rfl

theorem of_scanMinus (cs : List Char) :
    cs = minusOf (scanMinus cs).1 ++ (scanMinus cs).2 := by
  unfold scanMinus
  split <;> rfl

/-- What may stand behind the whole part and the fraction of a numeral. -/
theorem notAhead_exponent {exponent : Option (Bool × List Char)} {e : List Char}
    (h : ExponentSpelled exponent e) {rest : List Char} (hr : EndsNumeral rest) :
    NotAhead (fun c => c.isDigit || c == '.') (e ++ rest) := by
  cases h with
  | none => exact hr.mono fun c hc => by simp [hc]
  | some letter =>
    rintro c ⟨⟩
    rcases letter with rfl | rfl <;> decide

theorem notAhead_fraction {fraction : Option (List Char)} {f : List Char}
    (h : FractionSpelled fraction f) {rest : List Char}
    (hr : NotAhead (fun c => c.isDigit || c == '.') rest) :
    NotAhead Char.isDigit (f ++ rest) := by
  cases h with
  | none => exact hr.mono fun c hc => by simp [hc]
  | some =>
    rintro c ⟨⟩
    decide

/-- **A numeral that may be written is scanned.** -/
theorem scanNumeral_append {x : Numeral} {cs : List Char} (h : x.Spelled cs) {rest : List Char}
    (hr : EndsNumeral rest) : scanNumeral (cs ++ rest) = .ok (x, rest) := by
  cases h with
  | @mk negative whole f e fraction exponent leading point power =>
    have hpower := notAhead_exponent power hr
    have hpoint := notAhead_fraction point hpower
    have hminus := scanMinus_append leading negative (f ++ (e ++ rest))
    simp only [List.append_assoc]
    unfold scanNumeral
    rw [hminus, scanWhole_append leading hpoint]
    simp only [bind, Except.bind, scanFraction_append point hpower, scanExponent_append power hr]
    rfl

/-- **A numeral that was scanned may be written.** -/
theorem spelled_of_scanNumeral {cs rest : List Char} {x : Numeral}
    (h : scanNumeral cs = .ok (x, rest)) : ∃ body, cs = body ++ rest ∧ x.Spelled body := by
  unfold scanNumeral at h
  obtain ⟨⟨whole, behindWhole⟩, hw, h⟩ := bind_eq_ok.mp h
  obtain ⟨⟨fraction, behindFraction⟩, hf, h⟩ := bind_eq_ok.mp h
  obtain ⟨⟨exponent, behind⟩, he, h⟩ := bind_eq_ok.mp h
  cases h
  obtain ⟨hwhole, hleading, -⟩ := of_scanWhole hw
  obtain ⟨f, hfraction, hpoint⟩ := of_scanFraction hf
  obtain ⟨e, hexponent, hpower⟩ := of_scanExponent he
  refine ⟨minusOf (scanMinus cs).1 ++ (whole ++ (f ++ e)), ?_, .mk hleading hpoint hpower⟩
  rw [List.append_assoc, List.append_assoc, List.append_assoc, ← hexponent, ← hfraction, ← hwhole]
  exact of_scanMinus cs

/-! ## 2. Strings -/

theorem scan_plain {c : Char} (printable : ' ' ≤ c) (quote : c ≠ '\x22') (backslash : c ≠ '\\')
    (cs : List Char) : scan (c :: cs) = (scan cs).cons (.char c) := by
  rw [scan]
  · exact if_neg (Char.not_lt.mpr printable)
  · exact quote
  · exact fun _ _ _ _ _ h _ => backslash h
  · exact fun _ h _ => backslash h
  · exact fun _ _ h _ => backslash h
  · exact fun h _ => backslash h

theorem scan_short {c letter : Char} (escape : shortEscape? letter = some c) (cs : List Char) :
    scan ('\\' :: letter :: cs) = (scan cs).cons (.char c) := by
  have hu : letter ≠ 'u' := by
    rintro rfl
    cases escape
  rw [scan, escape]
  · exact fun _ _ _ _ _ h _ => hu h
  · exact hu

theorem scan_code {a b c d : Char} {n : Nat} (digits : Digits.hexNumber? [a, b, c, d] = some n)
    (cs : List Char) : scan ('\\' :: 'u' :: a :: b :: c :: d :: cs) = (scan cs).cons (.code n) := by
  rw [scan, digits]

/-- **The content of a string that may be written is scanned.** -/
theorem scan_append {ps : List Piece} {cs : List Char} (h : PiecesSpelled ps cs)
    (rest : List Char) : scan (cs ++ '\x22' :: rest) = ⟨ps, none, rest⟩ := by
  induction h with
  | nil => rfl
  | @cons p ps cs ds head _ ih =>
    rw [List.append_assoc]
    cases head with
    | plain printable quote backslash =>
      rw [List.singleton_append, scan_plain printable quote backslash, ih]
      rfl
    | short escape =>
      rw [List.cons_append, List.singleton_append, scan_short escape, ih]
      rfl
    | code digits =>
      simp only [List.cons_append, List.nil_append]
      rw [scan_code digits, ih]
      rfl

/-- **The content of a string that was scanned may be written.** -/
theorem spelled_of_scan {cs : List Char} (h : (scan cs).fault = none) :
    ∃ body, cs = body ++ '\x22' :: (scan cs).rest ∧ PiecesSpelled (scan cs).pieces body := by
  fun_induction scan cs with
  | case2 rest => exact ⟨[], rfl, .nil⟩
  | case3 a b c d rest n digits ih =>
    obtain ⟨body, hbody, hps⟩ := ih h
    refine ⟨'\\' :: 'u' :: a :: b :: c :: d :: body, ?_, .cons (.code digits) hps⟩
    exact congrArg (fun cs => '\\' :: 'u' :: a :: b :: c :: d :: cs) hbody
  | case7 letter rest _ _ c escape ih =>
    obtain ⟨body, hbody, hps⟩ := ih h
    refine ⟨'\\' :: letter :: body, ?_, .cons (.short escape) hps⟩
    exact congrArg (fun cs => '\\' :: letter :: cs) hbody
  | case11 c rest quote _ _ hletter hend printable ih =>
    obtain ⟨body, hbody, hps⟩ := ih h
    have backslash : c ≠ '\\' := by
      intro hc
      cases rest with
      | nil => exact hend hc rfl
      | cons e rest => exact hletter e rest hc rfl
    refine ⟨c :: body, ?_, .cons (.plain (Char.not_lt.mp printable) quote backslash) hps⟩
    exact congrArg (c :: ·) hbody
  | _ => cases h

/-! ## 3. Words and punctuation -/

theorem scanWord_append : ∀ (word rest : List Char), scanWord word (word ++ rest) = .ok rest
  | [], _ => rfl
  | w :: word, rest => by
      rw [List.cons_append, scanWord, if_pos rfl]
      exact scanWord_append word rest

theorem of_scanWord : ∀ {word cs rest : List Char}, scanWord word cs = .ok rest → cs = word ++ rest
  | [], _, _, h => by
      cases h
      rfl
  | _ :: _, [], _, h => by cases h
  | w :: word, c :: cs, rest, h => by
      unfold scanWord at h
      split at h
      · rename_i hw
        rw [List.cons_append, ← hw, ← of_scanWord h]
      · cases h

theorem spelled_of_punctuation {c : Char} {tok : Token} (h : punctuation? c = some tok) :
    tok.Spelled [c] := by
  unfold punctuation? at h
  split at h
  · cases h
    exact .openArray
  · cases h
    exact .closeArray
  · cases h
    exact .openObject
  · cases h
    exact .closeObject
  · cases h
    exact .comma
  · cases h
    exact .colon
  · cases h

/-! ## 4. One token -/

/-- A blank goes on with no numeral. -/
theorem endsNumeral_of_space {c : Char} (h : isSpace c = true) (cs : List Char) :
    EndsNumeral (c :: cs) := by
  rintro _ ⟨⟩
  exact of_isSpace (P := fun c => (c.isDigit || c == '.' || c == 'e' || c == 'E') = false)
    (by decide) h

/-- A token that is no scalar goes on with no numeral, and it is one character. -/
theorem of_spelled_of_not_scalar {tok : Token} {cs : List Char} (h : tok.Spelled cs)
    (hs : tok.isScalar = false) : ∃ c, cs = [c] ∧ isSpace c = false ∧ punctuation? c = some tok ∧
      ∀ rest, EndsNumeral (c :: rest) := by
  cases h with
  | openArray | closeArray | openObject | closeObject | comma | colon =>
    refine ⟨_, rfl, by decide, rfl, ?_⟩
    rintro rest _ ⟨⟩
    decide
  | null | true | false | numeral | text => cases hs

/-- Behind a row of tokens that begins with no scalar a numeral does not go on. -/
theorem endsNumeral_of_lexed {toks : List Token} {cs : List Char} (h : Lexed toks cs)
    (hb : Behind toks) : EndsNumeral cs := by
  cases h with
  | nil blank =>
    cases cs with
    | nil => exact nofun
    | cons c cs => exact endsNumeral_of_space (blank c List.mem_cons_self) cs
  | @cons ws cs rest tok toks blank spelled others =>
    cases ws with
    | nil =>
      obtain ⟨c, rfl, -, -, hends⟩ := of_spelled_of_not_scalar spelled (hb tok rfl)
      exact hends rest
    | cons c ws => exact endsNumeral_of_space (blank c List.mem_cons_self) _

theorem tokens_blank {ws : List Char} (h : Blank ws) (cs : List Char) :
    tokens (ws ++ cs) = tokens cs := by
  induction ws with
  | nil => rfl
  | cons c ws ih =>
    rw [List.cons_append, tokens, if_pos (h c List.mem_cons_self)]
    exact ih fun d hd => h d (List.mem_cons_of_mem c hd)

theorem tokens_of_scalarToken {c : Char} {cs rest : List Char} {t : Tree} (hs : isSpace c = false)
    (hp : punctuation? c = none) (h : scalarToken c cs = (.value t, rest)) :
    tokens (c :: cs) = .value t :: tokens rest := by
  rw [tokens, hs, hp, h]
  rfl

theorem wordToken_append (t : Tree) (word rest : List Char) :
    wordToken t word (word ++ rest) = (.value t, rest) := by
  rw [wordToken, scanWord_append]

/-- The character a numeral begins with is no other token's. -/
theorem scalarToken_of_numeral {c : Char} (h : c = '-' ∨ c.isDigit = true) (cs : List Char) :
    isSpace c = false ∧ punctuation? c = none ∧ scalarToken c cs = numeralToken (c :: cs) := by
  have hne : ∀ d : Char, d ≠ '-' → d.isDigit = false → c ≠ d := by
    rintro d hd hdigit rfl
    rcases h with h | h
    · exact hd h
    · exact absurd (hdigit.symm.trans h) (by decide)
  refine ⟨?_, ?_, ?_⟩
  · simp only [isSpace, Bool.or_eq_false_iff, beq_eq_false_iff_ne]
    exact ⟨⟨⟨hne _ (by decide) (by decide), hne _ (by decide) (by decide)⟩,
      hne _ (by decide) (by decide)⟩, hne _ (by decide) (by decide)⟩
  · unfold punctuation?
    split
    all_goals first
      | exact absurd rfl (hne _ (by decide) (by decide))
      | rfl
  · rw [scalarToken, if_neg (hne _ (by decide) (by decide)), if_neg (hne _ (by decide) (by decide)),
      if_neg (hne _ (by decide) (by decide)), if_neg (hne _ (by decide) (by decide)), if_pos h]

/-- How a numeral begins. -/
theorem Numeral.Spelled.begins {x : Numeral} {cs : List Char} (h : x.Spelled cs) :
    ∃ c tail, cs = c :: tail ∧ (c = '-' ∨ c.isDigit = true) := by
  cases h with
  | @mk negative whole f e fraction exponent leading point power =>
    cases negative with
    | true => exact ⟨'-', _, rfl, .inl rfl⟩
    | false =>
      cases whole with
      | nil => exact absurd rfl leading.digital.some
      | cons d ds => exact ⟨d, _, rfl, .inr (leading.digital.digits d List.mem_cons_self)⟩

/-- **A token that may be written is read**, whatever follows, if a numeral does not go on. -/
theorem tokens_append {tok : Token} {cs : List Char} (h : tok.Spelled cs) {rest : List Char}
    (hr : tok.isScalar = true → EndsNumeral rest) : tokens (cs ++ rest) = tok :: tokens rest := by
  cases h with
  | openArray | closeArray | openObject | closeObject | comma | colon =>
    rw [List.singleton_append, tokens]
    rfl
  | null => exact tokens_of_scalarToken rfl rfl (wordToken_append .null ['u', 'l', 'l'] rest)
  | true => exact tokens_of_scalarToken rfl rfl (wordToken_append (.bool true) ['r', 'u', 'e'] rest)
  | false =>
    exact tokens_of_scalarToken rfl rfl (wordToken_append (.bool false) ['a', 'l', 's', 'e'] rest)
  | numeral numeral =>
    have hscan := scanNumeral_append numeral (hr rfl)
    obtain ⟨c, tail, rfl, hc⟩ := numeral.begins
    obtain ⟨hspace, hpunctuation, hscalar⟩ := scalarToken_of_numeral hc (tail ++ rest)
    rw [List.cons_append] at hscan ⊢
    refine tokens_of_scalarToken hspace hpunctuation (hscalar.trans ?_)
    rw [numeralToken, hscan]
  | text content =>
    have hscan := scan_append content rest
    rw [List.cons_append, List.append_assoc, List.singleton_append]
    refine tokens_of_scalarToken rfl rfl ?_
    show textToken _ = _
    rw [textToken, hscan]
    rfl

/-- Whether there is nothing wrong with a token. -/
def Token.isSound : Token → Bool
  | .broken _ _ => false
  | _ => true

theorem spelled_of_wordToken {t : Tree} {c : Char} {word cs : List Char}
    (h : (wordToken t word cs).1.isSound = true)
    (ht : Token.Spelled (.value t) (c :: word)) :
    ∃ body, c :: cs = body ++ (wordToken t word cs).2 ∧ (wordToken t word cs).1.Spelled body := by
  unfold wordToken at h ⊢
  split
  · rename_i rest hscan
    exact ⟨c :: word, congrArg (c :: ·) (of_scanWord hscan), ht⟩
  · rename_i hscan
    rw [hscan] at h
    cases h

theorem spelled_of_textToken {cs : List Char} (h : (textToken cs).1.isSound = true) :
    ∃ body, '\x22' :: cs = body ++ (textToken cs).2 ∧ (textToken cs).1.Spelled body := by
  unfold textToken at h ⊢
  dsimp only [Text.skipFault] at h ⊢
  cases hscan : (scan cs).fault with
  | some f =>
    rw [hscan] at h
    cases h
  | none =>
    obtain ⟨body, hbody, hps⟩ := spelled_of_scan hscan
    refine ⟨'\x22' :: (body ++ ['\x22']), ?_, .text hps⟩
    rw [List.cons_append, List.append_assoc]
    exact congrArg ('\x22' :: ·) hbody

theorem spelled_of_numeralToken {cs : List Char} (h : (numeralToken cs).1.isSound = true) :
    ∃ body, cs = body ++ (numeralToken cs).2 ∧ (numeralToken cs).1.Spelled body := by
  unfold numeralToken at h ⊢
  split
  · rename_i x rest hscan
    obtain ⟨body, hbody, hx⟩ := spelled_of_scanNumeral hscan
    exact ⟨body, hbody, .numeral hx⟩
  · rename_i hscan
    rw [hscan] at h
    cases h

/-- **A scalar that was read may be written.** -/
theorem spelled_of_scalarToken {c : Char} {cs : List Char}
    (h : (scalarToken c cs).1.isSound = true) :
    ∃ body, c :: cs = body ++ (scalarToken c cs).2 ∧ (scalarToken c cs).1.Spelled body := by
  unfold scalarToken at h ⊢
  by_cases hn : c = 'n'
  · subst hn
    exact spelled_of_wordToken h .null
  rw [if_neg hn] at h ⊢
  by_cases ht : c = 't'
  · subst ht
    exact spelled_of_wordToken h .true
  rw [if_neg ht] at h ⊢
  by_cases hf : c = 'f'
  · subst hf
    exact spelled_of_wordToken h .false
  rw [if_neg hf] at h ⊢
  by_cases hq : c = '\x22'
  · subst hq
    exact spelled_of_textToken h
  rw [if_neg hq] at h ⊢
  by_cases hd : c = '-' ∨ c.isDigit = true
  · rw [if_pos hd] at h ⊢
    exact spelled_of_numeralToken h
  · rw [if_neg hd] at h
    cases h

/-! ## 5. Rows of tokens -/

/-- **The tokens of a text are those it is written from.** -/
theorem tokens_of_lexed {toks : List Token} {cs : List Char} (h : Lexed toks cs)
    (ha : Apart toks) : tokens cs = toks := by
  induction h with
  | nil blank =>
    have hb := tokens_blank blank []
    rw [List.append_nil] at hb
    rw [hb, tokens]
  | @cons ws cs rest tok toks blank spelled others ih =>
    have hends : tok.isScalar = true → EndsNumeral rest :=
      fun hs => endsNumeral_of_lexed others (ha.1 hs)
    rw [tokens_blank blank, tokens_append spelled hends, ih ha.2]

/-- **A text may be written from its tokens**, if nothing is wrong with any of them. -/
theorem lexed_of_tokens {cs : List Char} (h : ∀ tok ∈ tokens cs, tok.isSound = true) :
    Lexed (tokens cs) cs := by
  fun_induction tokens cs with
  | case1 => exact .nil nofun
  | case2 c rest hspace ih =>
    have hblank : Blank [c] := fun d hd => List.mem_singleton.mp hd ▸ hspace
    exact Lexed.blank_append hblank (ih h)
  | case3 c rest _ tok hpunctuation ih =>
    have hothers := ih fun t ht => h t (List.mem_cons_of_mem tok ht)
    exact Lexed.cons_spelled (spelled_of_punctuation hpunctuation) hothers
  | case4 => exact absurd (h _ List.mem_cons_self) Bool.false_ne_true
  | case5 c rest _ _ tok ih =>
    have hothers := ih fun t ht => h t (List.mem_cons_of_mem _ ht)
    obtain ⟨body, hbody, hspelled⟩ := spelled_of_scalarToken (h _ List.mem_cons_self)
    rw [hbody]
    exact Lexed.cons_spelled hspelled hothers

end HostGlue.Json
