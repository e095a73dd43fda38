import HostGlue.Proofs.Json.Growing

/-!
# Texts that are cut off and texts that go on

What is read of a text when it breaks off somewhere, and when something stands behind it:

* `Tree.Torn`, what is left of a scalar that cannot be completed, and `Token.Cut`, what is left of a
  token. A numeral may be left shorter: `scanNumeral_more` says that a scanner that stops before the end
  of a text does not depend on what follows, so the front of a numeral is a shorter one or is torn;
* `CutShort`, what is left of a row of tokens, and **`cutShort_tokens`, that this is what is read of a
  text that breaks off before its last token ends** (by induction on the row);
* `tokens_lexed_append`, that a text whose last token is no scalar is read as before, whatever stands
  behind it;
* `Tree.Cut`, what is left of a tree: of a container the elements in front of the cut as they are, and
  what is left of the element at the cut. **`stops_lexemes`: over what is left of the tokens of a tree
  such a tree is built** (by recursion on the tree, as `grow_lexemes`);
* `ofText_front` and `ofText_continued`, both for whole texts.
-/

namespace HostGlue.Json

/-! ## 1. Numerals -/

theorem NotAhead.append {p : Char → Bool} {cs : List Char} (h : NotAhead p cs) (hne : cs ≠ [])
    (more : List Char) : NotAhead p (cs ++ more) := by
  cases cs with
  | nil => exact absurd rfl hne
  | cons c cs =>
    rintro _ ⟨⟩
    exact h c rfl

theorem NotAhead.front {p : Char → Bool} {cs more : List Char} (h : NotAhead p (cs ++ more)) :
    NotAhead p cs := by
  cases cs with
  | nil => exact nofun
  | cons c cs =>
    rintro _ ⟨⟩
    exact h c rfl

theorem scanMinus_more {cs : List Char} (hne : cs ≠ []) (more : List Char) :
    scanMinus (cs ++ more) = ((scanMinus cs).1, (scanMinus cs).2 ++ more) := by
  cases cs with
  | nil => exact absurd rfl hne
  | cons c cs =>
    by_cases hc : c = '-'
    · subst hc
      rfl
    · simp [scanMinus, hc]

theorem sign_more {cs : List Char} (hne : cs ≠ []) (more : List Char) :
    Digits.sign (cs ++ more) = ((Digits.sign cs).1, (Digits.sign cs).2 ++ more) := by
  cases cs with
  | nil => exact absurd rfl hne
  | cons c cs =>
    by_cases hplus : c = '+'
    · subst hplus
      rfl
    by_cases hminus : c = '-'
    · subst hminus
      rfl
    · simp [Digits.sign, hplus, hminus]

section More

variable {cs rest : List Char} (hne : rest ≠ []) (more : List Char)

include hne

theorem scanDigits_more {ds : List Char} (h : scanDigits cs = .ok (ds, rest)) :
    scanDigits (cs ++ more) = .ok (ds, rest ++ more) := by
  obtain ⟨rfl, hdigital, hahead⟩ := of_scanDigits h
  rw [List.append_assoc]
  exact scanDigits_append hdigital (hahead.append hne more)

theorem scanWhole_more {ds : List Char} (h : scanWhole cs = .ok (ds, rest)) :
    scanWhole (cs ++ more) = .ok (ds, rest ++ more) := by
  obtain ⟨rfl, hwhole, hahead⟩ := of_scanWhole h
  rw [List.append_assoc]
  exact scanWhole_append hwhole (hahead.append hne more)

theorem scanFraction_more {fraction : Option (List Char)}
    (h : scanFraction cs = .ok (fraction, rest)) :
    scanFraction (cs ++ more) = .ok (fraction, rest ++ more) := by
  unfold scanFraction at h
  split at h
  · obtain ⟨⟨ds, behind⟩, hds, h⟩ := bind_eq_ok.mp h
    cases h
    rw [List.cons_append, scanFraction, scanDigits_more hne more hds]
    rfl
  · rename_i hpoint
    cases h
    cases cs with
    | nil => exact absurd rfl hne
    | cons c cs =>
      rw [List.cons_append, scanFraction]
      exact fun _ hc => hpoint cs (by rw [(List.cons.inj hc).1])

theorem scanExponent_more {exponent : Option (Bool × List Char)}
    (h : scanExponent cs = .ok (exponent, rest)) :
    scanExponent (cs ++ more) = .ok (exponent, rest ++ more) := by
  unfold scanExponent at h
  split at h
  · rename_i c cs
    split at h
    · rename_i hletter
      obtain ⟨⟨ds, behind⟩, hds, h⟩ := bind_eq_ok.mp h
      cases h
      have hcs : cs ≠ [] := by
        rintro rfl
        cases hds
      rw [List.cons_append, scanExponent, if_pos hletter, sign_more hcs,
        scanDigits_more hne more hds]
      rfl
    · rename_i hletter
      cases h
      rw [List.cons_append, scanExponent, if_neg hletter]
  · cases h
    exact absurd rfl hne

/-- **A numeral that ends before the text does** ends there whatever follows. -/
theorem scanNumeral_more {x : Numeral} (h : scanNumeral cs = .ok (x, rest)) :
    scanNumeral (cs ++ more) = .ok (x, rest ++ more) := by
  have hcs : cs ≠ [] := List.ne_nil_of_length_pos (Nat.zero_lt_of_lt (scanNumeral_length h))
  unfold scanNumeral at h
  obtain ⟨⟨whole, behindWhole⟩, hw, h⟩ := bind_eq_ok.mp h
  obtain ⟨⟨fraction, behindFraction⟩, hf, h⟩ := bind_eq_ok.mp h
  obtain ⟨⟨exponent, behind⟩, he, h⟩ := bind_eq_ok.mp h
  cases h
  -- what is left behind the exponent is left behind the parts in front of it, too
  have hfraction : behindFraction ≠ [] := by
    obtain ⟨e, rfl, -⟩ := of_scanExponent he
    exact List.append_ne_nil_of_right_ne_nil e hne
  have hwhole : behindWhole ≠ [] := by
    obtain ⟨f, rfl, -⟩ := of_scanFraction hf
    exact List.append_ne_nil_of_right_ne_nil f hfraction
  unfold scanNumeral
  rw [scanMinus_more hcs]
  simp only [scanWhole_more hwhole more hw, bind, Except.bind, scanFraction_more hfraction more hf,
    scanExponent_more hne more he]
  rfl

end More

/-! ## 2. Tokens -/

/-- What is left of a scalar that cannot be completed any more, and what stands where no value is
    left. -/
inductive Tree.Torn : Tree → Prop where
  | word (f : Fault) : Torn (.brokenWord f)
  | numeral (f : Fault) : Torn (.brokenNumeral f)
  | text (ps : List Piece) (f : Fault) : Torn (.text ⟨ps, some f⟩)
  | nothing (f : Fault) : Torn (.nothing f)

/-- A numeral whose text begins with the text of another one. -/
inductive Numeral.Shorter (x y : Numeral) : Prop where
  | mk {front back : List Char} (whole : x.Spelled (front ++ back)) (part : y.Spelled front) : Shorter x y

/-- What is left of a token when the text breaks off inside it. Only scalars have an inside. -/
inductive Token.Cut : Token → Token → Prop where
  | torn {t v : Tree} {f : Fault} (torn : v.Torn) : Cut (.value t) (.broken v f)
  | shorter {x y : Numeral} (shorter : x.Shorter y) : Cut (.value (.numeral x)) (.value (.numeral y))

/-- A numeral that broke off ends with the text, or is torn. -/
theorem numeralToken_front {x : Numeral} {front back : List Char} (h : x.Spelled (front ++ back)) :
    (∃ y, numeralToken front = (.value (.numeral y), []) ∧ x.Shorter y) ∨
      ∃ f, numeralToken front = (.broken (.brokenNumeral f) .malformed, []) := by
  unfold numeralToken
  split
  · rename_i y rest hscan
    have hrest : rest = [] := by
      by_contra hne
      have hmore := scanNumeral_more hne back hscan
      have hwhole := @scanNumeral_append x _ h [] nofun
      rw [List.append_nil, hmore] at hwhole
      exact hne (List.append_eq_nil_iff.mp (Prod.mk.inj (Except.ok.inj hwhole)).2).1
    subst hrest
    obtain ⟨body, hbody, part⟩ := spelled_of_scanNumeral hscan
    rw [List.append_nil] at hbody
    subst hbody
    exact .inl ⟨y, rfl, .mk h part⟩
  · exact .inr ⟨_, rfl⟩

theorem scanWord_front {back : List Char} (hne : back ≠ []) :
    ∀ front : List Char, scanWord (front ++ back) front = .error .truncated
  | [] => by
      cases back with
      | nil => exact absurd rfl hne
      | cons c back => rfl
  | c :: front => by
      rw [List.cons_append, scanWord, if_pos rfl]
      exact scanWord_front hne front

/-- The content of a string that broke off has no end. -/
theorem scan_front {ps : List Piece} {cs front back : List Char} (h : PiecesSpelled ps cs)
    (hcut : front ++ back = cs ++ ['\x22']) (hne : back ≠ []) : (scan front).fault ≠ none := by
  intro hfault
  obtain ⟨body, hbody, hps⟩ := spelled_of_scan hfault
  have hwhole := scan_append h []
  have hfront := scan_append hps ((scan front).rest ++ back)
  rw [← List.cons_append, ← List.append_assoc, ← hbody, hcut, hwhole] at hfront
  exact hne (List.append_eq_nil_iff.mp (Scanned.mk.inj hfront).2.2.symm).2

theorem tokens_of_broken {c : Char} {cs rest : List Char} {t : Tree} {f : Fault}
    (hs : isSpace c = false) (hp : punctuation? c = none) (h : scalarToken c cs = (.broken t f, rest)) :
    tokens (c :: cs) = [.broken t f] := by
  rw [tokens, hs, hp, h]
  rfl

/-- A word that broke off is torn. -/
theorem wordToken_front (t : Tree) {word front back : List Char} (h : front ++ back = word)
    (hne : back ≠ []) :
    wordToken t word front = (.broken (.brokenWord .truncated) .truncated, []) := by
  subst h
  rw [wordToken, scanWord_front hne]

theorem textToken_front {ps : List Piece} {cs front back : List Char} (h : PiecesSpelled ps cs)
    (hcut : front ++ back = cs ++ ['\x22']) (hne : back ≠ []) :
    ∃ f, textToken front = (.broken (.text ⟨(scan front).pieces, some f⟩) f, []) := by
  obtain ⟨f, hf⟩ := Option.ne_none_iff_exists'.mp (scan_front h hcut hne)
  refine ⟨f, ?_⟩
  rw [textToken, Text.skipFault, hf]

/-- **A token that broke off** is one token of the kind that is left of it. -/
theorem tokens_front {tok : Token} {front back : List Char} (h : tok.Spelled (front ++ back))
    (hfront : front ≠ []) (hback : back ≠ []) : ∃ tok', tok.Cut tok' ∧ tokens front = [tok'] := by
  obtain ⟨c, front, rfl⟩ := List.exists_cons_of_ne_nil hfront
  generalize hcs : c :: front ++ back = cs at h
  rw [List.cons_append] at hcs
  cases h with
  | openArray | closeArray | openObject | closeObject | comma | colon =>
    exact absurd (List.append_eq_nil_iff.mp (List.cons.inj hcs).2).2 hback
  | null | true | false =>
    obtain ⟨rfl, hword⟩ := List.cons.inj hcs
    exact ⟨_, .torn (.word .truncated), tokens_of_broken rfl rfl (wordToken_front _ hword hback)⟩
  | @numeral x _ spelled =>
    obtain ⟨d, tail, hd, hbegin⟩ := spelled.begins
    obtain ⟨rfl, -⟩ := List.cons.inj (hcs.trans hd)
    obtain ⟨hspace, hpunctuation, hscalar⟩ := scalarToken_of_numeral hbegin front
    rw [← hcs, ← List.cons_append] at spelled
    rcases numeralToken_front spelled with ⟨y, htoken, shorter⟩ | ⟨f, htoken⟩
    · refine ⟨_, .shorter shorter, ?_⟩
      rw [tokens_of_scalarToken hspace hpunctuation (hscalar.trans htoken), tokens]
    · exact ⟨_, .torn (.numeral f),
        tokens_of_broken hspace hpunctuation (hscalar.trans htoken)⟩
  | text content =>
    obtain ⟨rfl, hcut⟩ := List.cons.inj hcs
    obtain ⟨f, htoken⟩ := textToken_front content hcut hback
    exact ⟨_, .torn (.text _ f), tokens_of_broken rfl rfl htoken⟩

/-! ## 3. Rows of tokens -/

/-- What is left of a row of tokens when the text breaks off before the last of them ends. -/
inductive CutShort : List Token → List Token → Prop where
  | between (tok : Token) (toks : List Token) : CutShort (tok :: toks) []
  | inside {tok tok' : Token} (cut : tok.Cut tok') (toks : List Token) : CutShort (tok :: toks) [tok']
  | behind {toks left : List Token} (tok : Token) (others : CutShort toks left) :
      CutShort (tok :: toks) (tok :: left)

/-- A text breaks off in front of a token that is no scalar, or behind it. -/
theorem CutShort.of_mark {tok : Token} {toks left : List Token} (h : CutShort (tok :: toks) left)
    (hmark : tok.isScalar = false) : left = [] ∨ ∃ rest, left = tok :: rest ∧ CutShort toks rest := by
  cases h with
  | between => exact .inl rfl
  | inside cut => cases cut <;> cases hmark
  | @behind _ rest _ others => exact .inr ⟨rest, rfl, others⟩

/-- Nothing is left of a last token that is no scalar. -/
theorem CutShort.eq_nil_of_mark {tok : Token} {left : List Token} (h : CutShort [tok] left)
    (hmark : tok.isScalar = false) : left = [] := by
  rcases h.of_mark hmark with rfl | ⟨rest, -, others⟩
  · rfl
  · cases others

theorem CutShort.split {bs : List Token} : ∀ {as left : List Token}, CutShort (as ++ bs) left →
    CutShort as left ∨ ∃ left', left = as ++ left' ∧ CutShort bs left'
  | [], left, h => .inr ⟨left, rfl, h⟩
  | a :: as, _, h => by
      cases h with
      | between => exact .inl (.between a as)
      | inside cut => exact .inl (.inside cut as)
      | behind _ others =>
        rcases CutShort.split others with hleft | ⟨left', rfl, hright⟩
        · exact .inl (.behind a hleft)
        · exact .inr ⟨left', rfl, hright⟩

theorem tokens_nil : tokens [] = [] := by
  rw [tokens]

/-- A text has no tokens exactly if it is blank. -/
theorem tokens_eq_nil_iff {cs : List Char} : tokens cs = [] ↔ Blank cs := by
  constructor
  · intro h
    fun_induction tokens cs with
    | case1 => exact List.forall_mem_nil _
    | case2 c rest hspace ih => exact List.forall_mem_cons.mpr ⟨hspace, ih h⟩
    | _ => cases h
  · intro h
    have htokens := tokens_blank h []
    rwa [List.append_nil, tokens_nil] at htokens

/-- **What is read of a text that breaks off** before its last token ends is what is left of its row of
    tokens. -/
theorem cutShort_tokens {toks : List Token} {cs : List Char} (h : Lexed toks cs) (ha : Apart toks) :
    ∀ {front back : List Char}, cs = front ++ back → ¬ Blank back → CutShort toks (tokens front) := by
  induction h with
  | nil blank =>
    rintro front back rfl hback
    exact absurd (fun c hc => blank c (List.mem_append_right front hc)) hback
  | @cons ws cs rest tok toks blank spelled others ih =>
    intro front back hcut hback
    rcases List.append_eq_append_iff.mp hcut with ⟨front', rfl, hcut'⟩ | ⟨ws', rfl, rfl⟩
    · rw [tokens_blank blank]
      rcases List.append_eq_append_iff.mp hcut' with ⟨behind, rfl, hrest⟩ | ⟨inside, rfl, rfl⟩
      · have hends : tok.isScalar = true → EndsNumeral behind := by
          intro hs
          have hrest' := endsNumeral_of_lexed others (ha.1 hs)
          rw [hrest] at hrest'
          exact hrest'.front
        rw [tokens_append spelled hends]
        exact .behind tok (ih ha.2 hrest hback)
      · by_cases hfront : front' = []
        · subst hfront
          rw [tokens_nil]
          exact .between tok toks
        by_cases hinside : inside = []
        · -- the text breaks off where the token ends
          subst hinside
          rw [List.append_nil] at spelled
          have htokens := @tokens_append tok _ spelled [] fun _ => nofun
          rw [List.append_nil] at htokens
          rw [htokens]
          exact .behind tok (ih ha.2 rfl hback)
        · obtain ⟨tok', hcut, htokens⟩ := tokens_front spelled hfront hinside
          rw [htokens]
          exact .inside hcut toks
    · rw [tokens_eq_nil_iff.mpr fun c hc => blank c (List.mem_append_left ws' hc)]
      exact .between tok toks

theorem Token.Spelled.ne_nil {tok : Token} {cs : List Char} (h : tok.Spelled cs) : cs ≠ [] := by
  cases h with
  | numeral spelled =>
    obtain ⟨c, tail, rfl, -⟩ := spelled.begins
    exact List.cons_ne_nil c tail
  | _ => exact List.cons_ne_nil _ _

theorem Lexed.ne_nil {toks : List Token} {cs : List Char} (h : Lexed toks cs) (hne : toks ≠ []) :
    cs ≠ [] := by
  cases h with
  | nil => exact absurd rfl hne
  | cons _ spelled _ =>
    exact List.append_ne_nil_of_right_ne_nil _ (List.append_ne_nil_of_left_ne_nil spelled.ne_nil _)

/-- **A text whose last token is no scalar is read as before**, whatever stands behind it. -/
theorem tokens_lexed_append {tok : Token} (hs : tok.isScalar = false) (more : List Char) :
    ∀ {toks : List Token} {cs : List Char}, Lexed (toks ++ [tok]) cs → Apart (toks ++ [tok]) →
      tokens (cs ++ more) = toks ++ tok :: tokens more
  | [], _, h, _ => by
      cases h with
      | cons blank spelled others =>
        cases others with
        | nil blank' =>
          rw [List.append_assoc, List.append_assoc, tokens_blank blank,
            tokens_append spelled fun h => absurd (hs.symm.trans h) Bool.false_ne_true,
            tokens_blank blank']
          rfl
  | u :: toks, _, h, ha => by
      cases h with
      | @cons ws cs rest _ _ blank spelled others =>
        have hrest : rest ≠ [] := others.ne_nil (List.concat_ne_nil tok toks)
        have hends : u.isScalar = true → EndsNumeral (rest ++ more) :=
          fun hu => (endsNumeral_of_lexed others (ha.1 hu)).append hrest more
        have ih := tokens_lexed_append hs more others ha.2
        rw [List.append_assoc, List.append_assoc, tokens_blank blank, tokens_append spelled hends, ih]
        rfl

/-! ## 4. Trees -/

/-- What is left of a value when the text breaks off in it or behind it. Of a container the elements in
    front of the cut are left as they are, and behind them what is left of one more element. -/
inductive Tree.Cut : Tree → Tree → Prop where
  | whole (t : Tree) : Cut t t
  | torn {t v : Tree} (torn : v.Torn) : Cut t v
  | shorter {x y : Numeral} (shorter : x.Shorter y) : Cut (.numeral x) (.numeral y)
  | empty {v : Tree} {f : Fault} (torn : v.Torn) : Cut (.array [] none) (.array [v] (some f))
  | element {before after : List Tree} {t v : Tree} {f : Fault} (element : Cut t v) :
      Cut (.array (before ++ t :: after) none) (.array (before ++ [v]) (some f))
  | key {before after : List (Tree × Tree)} {key value : Tree} {f : Fault} (torn : key.Torn) :
      Cut (.object (before ++ after) none) (.object (before ++ [(key, value)]) (some f))
  | member {before after : List (Tree × Tree)} {key t v : Tree} {f : Fault} (value : Cut t v) :
      Cut (.object (before ++ (key, t) :: after) none) (.object (before ++ [(key, v)]) (some f))

/-- What is built breaks off the open containers behind what is left of a tree. -/
def Stops (document : Document) (stack : List Frame) (t : Tree) : Prop :=
  ∃ f v, document = breakOff f v stack ∧ t.Cut v

/-- Whatever is left of a row that begins with a value begins like a value. -/
theorem CutShort.begins {tok : Token} {toks left : List Token} (h : CutShort (tok :: toks) left)
    (hbegin : tok.begins = true) : ∀ u ∈ left.head?, u.begins = true := by
  cases h with
  | between => exact nofun
  | inside cut =>
    rintro _ ⟨⟩
    cases cut <;> rfl
  | behind =>
    rintro _ ⟨⟩
    exact hbegin

theorem grow_openArray_left {left : List Token} (h : ∀ u ∈ left.head?, u.begins = true)
    (stack : List Frame) :
    grow .value stack (.openArray :: left) = grow .value (.array [] :: stack) left := by
  cases left with
  | nil => rfl
  | cons u left => exact grow_openArray (h u rfl) stack left

theorem grow_openObject_left {left : List Token} (h : ∀ u ∈ left.head?, u.begins = true)
    (stack : List Frame) :
    grow .value stack (.openObject :: left) = grow (.key []) stack left := by
  cases left with
  | nil => rfl
  | cons u left => exact grow_openObject (h u rfl) stack left

/-- Where the text ends behind a value, the open containers break off. -/
theorem grow_behind_nil (t : Tree) (stack : List Frame) :
    grow (.behind t) stack [] = breakOff .truncated t stack := by
  cases stack with
  | nil => rfl
  | cons frame stack => cases frame <;> rfl

/-- Where the text ends in front of a value. -/
theorem stops_nothing (t : Tree) (stack : List Frame) : Stops (grow .value stack []) stack t :=
  ⟨.truncated, _, rfl, .torn (.nothing .truncated)⟩

/-- What is left of a scalar is built as what is left of it. -/
theorem stops_scalar {t : Tree} {left : List Token} (h : CutShort [.value t] left)
    (stack : List Frame) : Stops (grow .value stack left) stack t := by
  cases h with
  | between => exact stops_nothing t stack
  | inside cut =>
    cases cut with
    | torn torn => exact ⟨_, _, rfl, .torn torn⟩
    | shorter shorter => exact ⟨.truncated, _, grow_behind_nil _ stack, .shorter shorter⟩
  | behind _ others => cases others

/-- Where a value is cut off that stands behind others in an array. -/
theorem Stops.element {document : Document} {done after : List Tree} {stack : List Frame} {t : Tree}
    (h : Stops document (.array done :: stack) t) :
    Stops document stack (.array (done.reverse ++ t :: after) none) := by
  obtain ⟨f, v, rfl, hcut⟩ := h
  refine ⟨f, _, rfl, ?_⟩
  rw [List.reverse_cons]
  exact .element hcut

/-- Where a value is cut off that stands behind other members in an object. -/
theorem Stops.member {document : Document} {done after : List (Tree × Tree)} {stack : List Frame}
    {key t : Tree} (h : Stops document (.object done key :: stack) t) :
    Stops document stack (.object (done.reverse ++ (key, t) :: after) none) := by
  obtain ⟨f, v, rfl, hcut⟩ := h
  refine ⟨f, _, rfl, ?_⟩
  rw [List.reverse_cons]
  exact .member hcut

/-- Where a key is cut off. -/
theorem stops_key (f : Fault) {key : Tree} (h : key.Torn) (done after : List (Tree × Tree))
    (value : Tree) (stack : List Frame) :
    Stops (breakOffMember f done key value stack) stack (.object (done.reverse ++ after) none) := by
  refine ⟨f, _, rfl, ?_⟩
  rw [List.reverse_cons]
  exact .key h

/-- Where the text ends behind a value. -/
theorem stops_behind (t : Tree) (stack : List Frame) : Stops (grow (.behind t) stack []) stack t :=
  ⟨.truncated, t, grow_behind_nil t stack, .whole t⟩

mutual

/-- **Over what is left of the tokens of a tree** what is left of the tree is built, whatever containers
    are open. -/
theorem stops_lexemes : ∀ (t : Tree), Sound t.lexemes → ∀ {left : List Token},
    CutShort t.lexemes left → ∀ stack : List Frame, Stops (grow .value stack left) stack t
  | .null, _, _, h, stack | .bool _, _, _, h, stack | .numeral _, _, _, h, stack
  | .text _, _, _, h, stack => by
      rw [Tree.lexemes] at h
      exact stops_scalar h stack
  | .brokenWord _, h, _, _, _ | .brokenNumeral _, h, _, _, _ | .nothing _, h, _, _, _
  | .array _ (some _), h, _, _, _ | .object _ (some _), h, _, _, _ => by
      rw [Tree.lexemes] at h
      exact absurd (h _ List.mem_cons_self) Bool.false_ne_true
  | .array [] none, _, _, hcut, stack => by
      rw [Tree.lexemes] at hcut
      rcases hcut.of_mark rfl with rfl | ⟨left, rfl, hrest⟩
      · exact stops_nothing _ stack
      · rw [hrest.eq_nil_of_mark rfl]
        exact ⟨.truncated, _, rfl, .empty (.nothing .truncated)⟩
  | .array (t :: ts) none, h, _, hcut, stack => by
      rw [Tree.lexemes, sound_cons, sound_append] at h
      rw [Tree.lexemes] at hcut
      rcases hcut.of_mark rfl with rfl | ⟨left, rfl, hrest⟩
      · exact stops_nothing _ stack
      · have hitems := stops_itemLexemes (t :: ts) h.2.1 (List.cons_ne_nil t ts) hrest [] stack
        obtain ⟨tok, rest, hbegin, hbegins⟩ := lexemes_begin t
        rw [Tree.itemLexemes, hbegin] at hrest
        rw [grow_openArray_left (hrest.begins hbegins)]
        exact hitems
  | .object [] none, _, _, hcut, stack => by
      rw [Tree.lexemes] at hcut
      rcases hcut.of_mark rfl with rfl | ⟨left, rfl, hrest⟩
      · exact stops_nothing _ stack
      · rw [hrest.eq_nil_of_mark rfl]
        exact stops_key .truncated (.nothing .truncated) [] [] _ stack
  | .object (m :: ms) none, h, _, hcut, stack => by
      rw [Tree.lexemes, sound_cons, sound_append] at h
      rw [Tree.lexemes] at hcut
      rcases hcut.of_mark rfl with rfl | ⟨left, rfl, hrest⟩
      · exact stops_nothing _ stack
      · have hmembers := stops_memberLexemes (m :: ms) h.2.1 (List.cons_ne_nil m ms) hrest [] stack
        obtain ⟨key, value⟩ := m
        rw [Tree.memberLexemes, Tree.memberLexeme] at hrest
        have hbegins : key.keyLexeme.begins = true := by cases key <;> rfl
        rw [grow_openObject_left (hrest.begins hbegins)]
        exact hmembers
termination_by structural t => t

theorem stops_itemLexemes : ∀ (ts : List Tree), Sound (Tree.itemLexemes ts) → ts ≠ [] →
    ∀ {left : List Token}, CutShort (Tree.itemLexemes ts ++ [.closeArray]) left →
    ∀ (done : List Tree) (stack : List Frame),
    Stops (grow .value (.array done :: stack) left) stack (.array (done.reverse ++ ts) none)
  | [], _, hne, _, _, _, _ => absurd rfl hne
  | t :: ts, h, _, _, hcut, done, stack => by
      rw [Tree.itemLexemes, sound_append] at h
      rw [Tree.itemLexemes, List.append_assoc] at hcut
      have ih := stops_itemLexemes ts
      rcases hcut.split with hcut | ⟨left, rfl, hbehind⟩
      · exact (stops_lexemes t h.1 hcut (.array done :: stack)).element
      rw [grow_lexemes t h.1]
      cases ts with
      | nil =>
        rw [hbehind.eq_nil_of_mark rfl]
        exact (stops_behind t (.array done :: stack)).element
      | cons u us =>
        rcases hbehind.of_mark rfl with rfl | ⟨left, rfl, hrest⟩
        · exact (stops_behind t (.array done :: stack)).element
        · have hothers := ih (sound_cons.mp h.2).2 (List.cons_ne_nil u us) hrest (t :: done) stack
          rw [List.reverse_cons, List.append_assoc] at hothers
          exact hothers
termination_by structural ts => ts

theorem stops_memberLexemes : ∀ (ms : List (Tree × Tree)), Sound (Tree.memberLexemes ms) → ms ≠ [] →
    ∀ {left : List Token}, CutShort (Tree.memberLexemes ms ++ [.closeObject]) left →
    ∀ (done : List (Tree × Tree)) (stack : List Frame),
    Stops (grow (.key done) stack left) stack (.object (done.reverse ++ ms) none)
  | [], _, hne, _, _, _, _ => absurd rfl hne
  | m :: ms, h, _, _, hcut, done, stack => by
      rw [Tree.memberLexemes, sound_append] at h
      rw [Tree.memberLexemes, List.append_assoc] at hcut
      have ih := stops_memberLexemes ms
      rcases hcut.split with hcut | ⟨left, rfl, hbehind⟩
      · exact stops_memberLexeme m h.1 hcut done ms stack
      rw [grow_memberLexeme m h.1]
      cases ms with
      | nil =>
        rw [hbehind.eq_nil_of_mark rfl]
        exact (stops_behind m.2 (.object done m.1 :: stack)).member
      | cons u us =>
        rcases hbehind.of_mark rfl with rfl | ⟨left, rfl, hrest⟩
        · exact (stops_behind m.2 (.object done m.1 :: stack)).member
        · have hothers := ih (sound_cons.mp h.2).2 (List.cons_ne_nil u us) hrest (m :: done) stack
          rw [List.reverse_cons, List.append_assoc] at hothers
          exact hothers
termination_by structural ms => ms

theorem stops_memberLexeme : ∀ (m : Tree × Tree), Sound (Tree.memberLexeme m) →
    ∀ {left : List Token}, CutShort (Tree.memberLexeme m) left →
    ∀ (done after : List (Tree × Tree)) (stack : List Frame),
    Stops (grow (.key done) stack left) stack (.object (done.reverse ++ m :: after) none)
  | (key, value), h, _, hcut, done, after, stack => by
      rw [Tree.memberLexeme, sound_cons, sound_cons] at h
      rw [Tree.memberLexeme] at hcut
      have ih := fun left hcut => @stops_lexemes value h.2.2 left hcut (.object done key :: stack)
      cases key with
      | text t =>
        cases hcut with
        | between => exact stops_key .truncated (.nothing .truncated) done _ _ stack
        | inside cut =>
          cases cut with
          | @torn _ v f torn => cases torn <;> exact stops_key _ (by constructor) done _ _ stack
        | behind _ hcut =>
          rcases hcut.of_mark rfl with rfl | ⟨left, rfl, hrest⟩
          · exact (stops_nothing value (.object done (.text t) :: stack)).member
          · exact (ih _ hrest).member
      | _ => exact absurd h.1 Bool.false_ne_true
termination_by structural m => m

end

/-! ## 5. Whole texts -/

/-- A container that was closed. -/
inductive Tree.Closed : Tree → Prop where
  | array (items : List Tree) : Closed (.array items none)
  | object (members : List (Tree × Tree)) : Closed (.object members none)

/-- The tokens of a container that was closed end with its bracket. -/
theorem Tree.Closed.lexemes {t : Tree} (h : t.Closed) :
    ∃ toks tok, t.lexemes = toks ++ [tok] ∧ tok.isScalar = false := by
  cases h with
  | array items =>
    cases items with
    | nil => exact ⟨[.openArray], .closeArray, by rw [Tree.lexemes]; rfl, rfl⟩
    | cons t ts =>
      refine ⟨.openArray :: Tree.itemLexemes (t :: ts), .closeArray, ?_, rfl⟩
      rw [Tree.lexemes, List.cons_append]
  | object members =>
    cases members with
    | nil => exact ⟨[.openObject], .closeObject, by rw [Tree.lexemes]; rfl, rfl⟩
    | cons m ms =>
      refine ⟨.openObject :: Tree.memberLexemes (m :: ms), .closeObject, ?_, rfl⟩
      rw [Tree.lexemes, List.cons_append]

/-- **A container that was closed is the tree of a text whatever stands behind it.** -/
theorem ofText_continued {t : Tree} {text : String} (h : t.Spelled text) (ht : t.Closed)
    (more : String) : Document.ofText (text ++ more) = ⟨t, !(tokens more.toList).isEmpty⟩ := by
  have hapart : Apart (t.lexemes ++ []) := apart_lexemes t nofun trivial
  obtain ⟨toks, tok, hlexemes, hscalar⟩ := ht.lexemes
  have hlexed : Lexed (toks ++ [tok]) text.toList := hlexemes ▸ h
  rw [List.append_nil, hlexemes] at hapart
  have htokens := tokens_lexed_append hscalar more.toList hlexed hapart
  rw [List.append_cons, ← hlexemes] at htokens
  rw [Document.ofText, String.toList_append, htokens, grow_lexemes t h.sound, grow]

/-- **A text that breaks off** before its last token ends has what is left of its tree for a tree, and
    nothing stands behind it. -/
theorem ofText_front {t : Tree} {front back : String} (h : t.Spelled (front ++ back))
    (hback : ¬ Blank back.toList) : ∃ v, t.Cut v ∧ Document.ofText front = ⟨v, false⟩ := by
  have hapart : Apart (t.lexemes ++ []) := apart_lexemes t nofun trivial
  rw [List.append_nil] at hapart
  have hcut := cutShort_tokens h hapart String.toList_append hback
  obtain ⟨f, v, hdocument, hv⟩ := stops_lexemes t h.sound hcut []
  exact ⟨v, hv, hdocument⟩

end HostGlue.Json
