import HostGlue.Json.Tree

/-!
# The grammar of JSON texts

Which texts spell which trees, said without reading them:

* `Numeral.Spelled` and `PiecesSpelled`, how numerals and the contents of strings may be written;
* `Token.Spelled`, how a token may be written, and `Lexed`, that a text is a row of tokens with any
  blanks in front of each of them and behind the last;
* `Tree.lexemes`, the tokens of a tree, and **`Tree.Spelled`, that a text is one of those that a tree
  may be written as**. Of a tree that broke off there is no such text, because a broken token has none;
* `Tree.Writable`, that there is such a text, part by part (`Tree.writable_array`,
  `Tree.writable_object`), and `apart_lexemes`, that no two scalars of a tree stand side by side.
-/

namespace HostGlue.Json

/-! ## 1. Blanks and scalars -/

/-- Nothing but blanks. -/
def Blank (cs : List Char) : Prop := ∀ c ∈ cs, isSpace c = true

instance : DecidablePred Blank := List.decidableBAll (isSpace · = true)

theorem Blank.append {as bs : List Char} (ha : Blank as) (hb : Blank bs) : Blank (as ++ bs) := by
  intro c hc
  rcases List.mem_append.mp hc with h | h
  · exact ha c h
  · exact hb c h

/-- What the four blanks have, every blank has. -/
theorem of_isSpace {P : Char → Prop} (h : P ' ' ∧ P '\t' ∧ P '\n' ∧ P '\r') {c : Char}
    (hc : isSpace c = true) : P c := by
  simp only [isSpace, Bool.or_eq_true, beq_iff_eq] at hc
  obtain ⟨hspace, htab, hfeed, hreturn⟩ := h
  rcases hc with ((rfl | rfl) | rfl) | rfl <;> assumption

/-- One digit or more. -/
structure Digital (ds : List Char) : Prop where
  some : ds ≠ []
  digits : ∀ d ∈ ds, d.isDigit = true

/-- A whole part: digits, of which the first is a zero only if it stands alone. -/
structure Whole (ds : List Char) : Prop where
  digital : Digital ds
  lead : ds.head? = some '0' → ds = ['0']

/-- A fraction as it may be written. -/
inductive FractionSpelled : Option (List Char) → List Char → Prop where
  | none : FractionSpelled none []
  | some {ds : List Char} (digital : Digital ds) : FractionSpelled (some ds) ('.' :: ds)

/-- The sign of an exponent as it may be written. -/
inductive SignSpelled : Bool → List Char → Prop where
  | none : SignSpelled false []
  | plus : SignSpelled false ['+']
  | minus : SignSpelled true ['-']

/-- An exponent as it may be written. -/
inductive ExponentSpelled : Option (Bool × List Char) → List Char → Prop where
  | none : ExponentSpelled none []
  | some {e : Char} {negative : Bool} {sign ds : List Char} (letter : e = 'e' ∨ e = 'E')
      (signed : SignSpelled negative sign) (digital : Digital ds) :
      ExponentSpelled (some (negative, ds)) (e :: (sign ++ ds))

/-- The sign of a numeral as it is written. -/
def minusOf (negative : Bool) : List Char := if negative then ['-'] else []

/-- A numeral as it may be written. -/
inductive Numeral.Spelled : Numeral → List Char → Prop where
  | mk {negative : Bool} {whole f e : List Char} {fraction : Option (List Char)}
      {exponent : Option (Bool × List Char)} (leading : Whole whole)
      (point : FractionSpelled fraction f) (power : ExponentSpelled exponent e) :
      Numeral.Spelled ⟨negative, whole, fraction, exponent⟩ (minusOf negative ++ (whole ++ (f ++ e)))

/-- A piece of a string as it may be written: a character that is neither a control nor a quote nor a
    backslash stands for itself. -/
inductive Piece.Spelled : Piece → List Char → Prop where
  | plain {c : Char} (printable : ' ' ≤ c) (quote : c ≠ '\x22') (backslash : c ≠ '\\') :
      Piece.Spelled (.char c) [c]
  | short {c letter : Char} (escape : shortEscape? letter = some c) :
      Piece.Spelled (.char c) ['\\', letter]
  | code {a b c d : Char} {n : Nat} (digits : Digits.hexNumber? [a, b, c, d] = some n) :
      Piece.Spelled (.code n) ['\\', 'u', a, b, c, d]

/-- The content of a string as it may be written, piece by piece. -/
inductive PiecesSpelled : List Piece → List Char → Prop where
  | nil : PiecesSpelled [] []
  | cons {p : Piece} {ps : List Piece} {cs ds : List Char} (head : p.Spelled cs)
      (tail : PiecesSpelled ps ds) : PiecesSpelled (p :: ps) (cs ++ ds)

/-- A piece may be written. -/
def Piece.Writable (p : Piece) : Prop := ∃ cs, p.Spelled cs

/-- A content may be written exactly if each of its pieces may. -/
theorem PiecesSpelled.exists_iff {ps : List Piece} :
    (∃ cs, PiecesSpelled ps cs) ↔ ∀ p ∈ ps, p.Writable := by
  constructor
  · rintro ⟨cs, h⟩
    induction h with
    | nil => exact nofun
    | cons head _ ih => exact List.forall_mem_cons.mpr ⟨⟨_, head⟩, ih⟩
  · intro h
    induction ps with
    | nil => exact ⟨[], .nil⟩
    | cons p ps ih =>
      obtain ⟨⟨cs, head⟩, hothers⟩ := List.forall_mem_cons.mp h
      obtain ⟨ds, tail⟩ := ih hothers
      exact ⟨cs ++ ds, .cons head tail⟩

/-! ## 2. Tokens -/

/-- A token as it may be written. There is no way to write a broken one. -/
inductive Token.Spelled : Token → List Char → Prop where
  | openArray : Token.Spelled .openArray ['[']
  | closeArray : Token.Spelled .closeArray [']']
  | openObject : Token.Spelled .openObject ['\x7b']
  | closeObject : Token.Spelled .closeObject ['\x7d']
  | comma : Token.Spelled .comma [',']
  | colon : Token.Spelled .colon [':']
  | null : Token.Spelled (.value .null) ['n', 'u', 'l', 'l']
  | true : Token.Spelled (.value (.bool true)) ['t', 'r', 'u', 'e']
  | false : Token.Spelled (.value (.bool false)) ['f', 'a', 'l', 's', 'e']
  | numeral {x : Numeral} {cs : List Char} (numeral : x.Spelled cs) :
      Token.Spelled (.value (.numeral x)) cs
  | text {ps : List Piece} {cs : List Char} (content : PiecesSpelled ps cs) :
      Token.Spelled (.value (.text ⟨ps, none⟩)) ('\x22' :: (cs ++ ['\x22']))

/-- A token may be written. -/
def Token.Writable (tok : Token) : Prop := ∃ cs, tok.Spelled cs

/-- A row of tokens as it may be written, with blanks around each of them. -/
inductive Lexed : List Token → List Char → Prop where
  | nil {ws : List Char} (blank : Blank ws) : Lexed [] ws
  | cons {ws cs rest : List Char} {tok : Token} {toks : List Token} (blank : Blank ws)
      (spelled : tok.Spelled cs) (others : Lexed toks rest) :
      Lexed (tok :: toks) (ws ++ (cs ++ rest))

namespace Lexed

theorem blank_append {ws cs : List Char} {toks : List Token} (hw : Blank ws) (h : Lexed toks cs) :
    Lexed toks (ws ++ cs) := by
  cases h with
  | nil blank => exact .nil (hw.append blank)
  | cons blank spelled others =>
    rw [← List.append_assoc]
    exact .cons (hw.append blank) spelled others

/-- A token may follow without blanks. -/
theorem cons_spelled {cs rest : List Char} {tok : Token} {toks : List Token} (h : tok.Spelled cs)
    (others : Lexed toks rest) : Lexed (tok :: toks) (cs ++ rest) := by
  have hblank : Blank [] := nofun
  exact .cons hblank h others

/-- Rows of tokens may be written one behind the other. -/
theorem append {as bs : List Token} {cs ds : List Char} (ha : Lexed as cs) (hb : Lexed bs ds) :
    Lexed (as ++ bs) (cs ++ ds) := by
  induction ha with
  | nil blank => exact blank_append blank hb
  | cons blank spelled _ ih =>
    rw [List.append_assoc, List.append_assoc]
    exact .cons blank spelled ih

/-- **A row of tokens may be written exactly if each of its tokens may.** -/
theorem exists_iff {toks : List Token} :
    (∃ cs, Lexed toks cs) ↔ ∀ tok ∈ toks, tok.Writable := by
  constructor
  · rintro ⟨cs, h⟩
    induction h with
    | nil => exact nofun
    | cons _ spelled _ ih => exact List.forall_mem_cons.mpr ⟨⟨_, spelled⟩, ih⟩
  · intro h
    induction toks with
    | nil =>
      have hblank : Blank [] := nofun
      exact ⟨[], .nil hblank⟩
    | cons tok toks ih =>
      obtain ⟨⟨ds, hspelled⟩, hothers⟩ := List.forall_mem_cons.mp h
      obtain ⟨cs, hlexed⟩ := ih hothers
      exact ⟨ds ++ cs, cons_spelled hspelled hlexed⟩

end Lexed

/-! ## 3. Trees -/

/-- The token for what stands in the place of a key. Only a string is a key. -/
def Tree.keyLexeme : Tree → Token
  | .text t => .value (.text t)
  | key => .broken key .malformed

mutual

/-- The tokens of a tree. -/
def Tree.lexemes : Tree → List Token
  | .null => [.value .null]
  | .bool b => [.value (.bool b)]
  | .numeral x => [.value (.numeral x)]
  | .text t => [.value (.text t)]
  | .brokenWord f => [.broken (.brokenWord f) f]
  | .brokenNumeral f => [.broken (.brokenNumeral f) f]
  | .nothing f => [.broken (.nothing f) f]
  | .array items none => .openArray :: (Tree.itemLexemes items ++ [.closeArray])
  | .array items (some f) => [.broken (.array items (some f)) f]
  | .object members none => .openObject :: (Tree.memberLexemes members ++ [.closeObject])
  | .object members (some f) => [.broken (.object members (some f)) f]
termination_by structural t => t

/-- The tokens of the elements of an array. -/
def Tree.itemLexemes : List Tree → List Token
  | [] => []
  | t :: ts => t.lexemes ++ if ts.isEmpty then [] else .comma :: Tree.itemLexemes ts
termination_by structural ts => ts

/-- The tokens of the members of an object. -/
def Tree.memberLexemes : List (Tree × Tree) → List Token
  | [] => []
  | m :: ms =>
    Tree.memberLexeme m ++ if ms.isEmpty then [] else .comma :: Tree.memberLexemes ms
termination_by structural ms => ms

/-- The tokens of a member of an object. -/
def Tree.memberLexeme : Tree × Tree → List Token
  | (key, value) => key.keyLexeme :: .colon :: value.lexemes
termination_by structural m => m

end

/-- What commas have, all tokens of the elements of an array have if the tokens of each element do. -/
theorem forall_itemLexemes {P : Token → Prop} (hcomma : P .comma) : ∀ {ts : List Tree},
    (∀ tok ∈ Tree.itemLexemes ts, P tok) ↔ ∀ t ∈ ts, ∀ tok ∈ t.lexemes, P tok
  | [] => by simp [Tree.itemLexemes]
  | [t] => by simp [Tree.itemLexemes]
  | t :: u :: us => by
      have ih : (∀ tok ∈ Tree.itemLexemes (u :: us), P tok) ↔ _ := forall_itemLexemes hcomma
      rw [Tree.itemLexemes, List.forall_mem_append, List.forall_mem_cons, ← ih]
      simp [hcomma]

/-- What commas have, all tokens of the members of an object have if the tokens of each member do. -/
theorem forall_memberLexemes {P : Token → Prop} (hcomma : P .comma) : ∀ {ms : List (Tree × Tree)},
    (∀ tok ∈ Tree.memberLexemes ms, P tok) ↔ ∀ m ∈ ms, ∀ tok ∈ Tree.memberLexeme m, P tok
  | [] => by simp [Tree.memberLexemes]
  | [m] => by simp [Tree.memberLexemes]
  | m :: n :: ns => by
      have ih : (∀ tok ∈ Tree.memberLexemes (n :: ns), P tok) ↔ _ := forall_memberLexemes hcomma
      rw [Tree.memberLexemes, List.forall_mem_append, List.forall_mem_cons, ← ih]
      simp [hcomma]

/-- **A text is one of those that a tree may be written as.** -/
def Tree.Spelled (t : Tree) (text : String) : Prop := Lexed t.lexemes text.toList

/-- A tree may be written. -/
def Tree.Writable (t : Tree) : Prop := ∃ text, t.Spelled text

/-- **A tree may be written exactly if each of its tokens may.** -/
theorem Tree.writable_iff {t : Tree} : t.Writable ↔ ∀ tok ∈ t.lexemes, tok.Writable := by
  rw [← Lexed.exists_iff]
  constructor
  · rintro ⟨text, h⟩
    exact ⟨text.toList, h⟩
  · rintro ⟨cs, h⟩
    refine ⟨String.ofList cs, ?_⟩
    rwa [Tree.Spelled, String.toList_ofList]

theorem Tree.writable_text {ps : List Piece} :
    (Tree.text ⟨ps, none⟩).Writable ↔ ∀ p ∈ ps, p.Writable := by
  rw [writable_iff, lexemes, List.forall_mem_singleton, ← PiecesSpelled.exists_iff]
  constructor
  · rintro ⟨_, h⟩
    cases h with
    | text content => exact ⟨_, content⟩
  · rintro ⟨cs, content⟩
    exact ⟨_, .text content⟩

theorem Tree.writable_key {t : Text} :
    (Tree.text t).keyLexeme.Writable ↔ (Tree.text t).Writable := by
  rw [writable_iff, lexemes, List.forall_mem_singleton, keyLexeme]

theorem Tree.writable_array {ts : List Tree} :
    (Tree.array ts none).Writable ↔ ∀ t ∈ ts, t.Writable := by
  have hcomma : Token.comma.Writable := ⟨_, .comma⟩
  have hopen : Token.openArray.Writable := ⟨_, .openArray⟩
  have hclose : Token.closeArray.Writable := ⟨_, .closeArray⟩
  simp only [writable_iff, lexemes, List.forall_mem_cons, List.forall_mem_append,
    forall_itemLexemes hcomma, hopen, hclose, List.not_mem_nil, false_implies, implies_true, and_true,
    true_and]

theorem Tree.writable_object {ms : List (Tree × Tree)} :
    (Tree.object ms none).Writable ↔ ∀ m ∈ ms, m.1.keyLexeme.Writable ∧ m.2.Writable := by
  have hcomma : Token.comma.Writable := ⟨_, .comma⟩
  have hcolon : Token.colon.Writable := ⟨_, .colon⟩
  have hopen : Token.openObject.Writable := ⟨_, .openObject⟩
  have hclose : Token.closeObject.Writable := ⟨_, .closeObject⟩
  have hmember : ∀ m : Tree × Tree, (∀ tok ∈ Tree.memberLexeme m, tok.Writable) ↔
      m.1.keyLexeme.Writable ∧ m.2.Writable := by
    rintro ⟨key, value⟩
    simp only [memberLexeme, List.forall_mem_cons, hcolon, true_and, writable_iff]
  rw [writable_iff, lexemes, List.forall_mem_cons, List.forall_mem_append,
    forall_memberLexemes hcomma]
  simp only [hmember, hopen, hclose, List.forall_mem_singleton, and_true, true_and]

/-! ## 4. Scalars stand apart -/

/-- Whether a token is a scalar. -/
def Token.isScalar : Token → Bool
  | .value _ => true
  | _ => false

/-- No row of tokens that begins with a scalar. -/
def Behind (toks : List Token) : Prop := ∀ tok ∈ toks.head?, tok.isScalar = false

/-- No two scalars stand side by side. -/
def Apart : List Token → Prop
  | [] => True
  | tok :: toks => (tok.isScalar = true → Behind toks) ∧ Apart toks

theorem apart_cons_of_not_scalar {tok : Token} {toks : List Token} (h : tok.isScalar = false)
    (ht : Apart toks) : Apart (tok :: toks) :=
  ⟨fun hs => absurd (h.symm.trans hs) (by decide), ht⟩

theorem behind_cons {tok : Token} (h : tok.isScalar = false) (toks : List Token) :
    Behind (tok :: toks) := by
  rintro _ ⟨⟩
  exact h

mutual

/-- In the tokens of a tree no two scalars stand side by side. -/
theorem apart_lexemes : ∀ (t : Tree) {toks : List Token}, Behind toks → Apart toks →
    Apart (t.lexemes ++ toks)
  | .null, _, hb, ht | .bool _, _, hb, ht | .numeral _, _, hb, ht | .text _, _, hb, ht => by
      rw [Tree.lexemes]
      exact ⟨fun _ => hb, ht⟩
  | .brokenWord _, _, _, ht | .brokenNumeral _, _, _, ht | .nothing _, _, _, ht
  | .array _ (some _), _, _, ht | .object _ (some _), _, _, ht => by
      rw [Tree.lexemes]
      exact apart_cons_of_not_scalar rfl ht
  | .array items none, toks, _, ht => by
      rw [Tree.lexemes, List.cons_append, List.append_assoc]
      exact apart_cons_of_not_scalar rfl
        (apart_itemLexemes items (behind_cons rfl toks) (apart_cons_of_not_scalar rfl ht))
  | .object members none, toks, _, ht => by
      rw [Tree.lexemes, List.cons_append, List.append_assoc]
      exact apart_cons_of_not_scalar rfl
        (apart_memberLexemes members (behind_cons rfl toks) (apart_cons_of_not_scalar rfl ht))
termination_by structural t => t

theorem apart_itemLexemes : ∀ (ts : List Tree) {toks : List Token}, Behind toks → Apart toks →
    Apart (Tree.itemLexemes ts ++ toks)
  | [], _, _, ht => ht
  | t :: ts, toks, hb, ht => by
      have ih := apart_itemLexemes ts hb ht
      rw [Tree.itemLexemes, List.append_assoc]
      cases ts with
      | nil => exact apart_lexemes t hb ht
      | cons u us => exact apart_lexemes t (behind_cons rfl _) (apart_cons_of_not_scalar rfl ih)
termination_by structural ts => ts

theorem apart_memberLexemes : ∀ (ms : List (Tree × Tree)) {toks : List Token}, Behind toks →
    Apart toks → Apart (Tree.memberLexemes ms ++ toks)
  | [], _, _, ht => ht
  | m :: ms, toks, hb, ht => by
      have ih := apart_memberLexemes ms hb ht
      rw [Tree.memberLexemes, List.append_assoc]
      cases ms with
      | nil => exact apart_memberLexeme m hb ht
      | cons u us => exact apart_memberLexeme m (behind_cons rfl _) (apart_cons_of_not_scalar rfl ih)
termination_by structural ms => ms

theorem apart_memberLexeme : ∀ (m : Tree × Tree) {toks : List Token}, Behind toks → Apart toks →
    Apart (Tree.memberLexeme m ++ toks)
  | (key, value), toks, hb, ht => by
      have ih : Apart (.colon :: (value.lexemes ++ toks)) :=
        apart_cons_of_not_scalar rfl (apart_lexemes value hb ht)
      rw [Tree.memberLexeme]
      exact ⟨fun _ => behind_cons rfl _, ih⟩
termination_by structural m => m

end

end HostGlue.Json
