import HostGlue.Proofs.Toml.Gaps

/-!
# How the strings of a TOML text may be written

The grammar of the four kinds of strings, said without reading them, and that each scanner takes what the
grammar allows, whatever follows:

* `EscapeSpelled`, the escapes of basic strings;
* `BasicSpelled` and `LiteralSpelled`, contents on one line (`basicBody_append`,
  `literalBody_append`);
* `BasicLinesSpelled` and `LiteralLinesSpelled`, contents over several lines, up to their closing quotes
  (`basicLines_append`, `literalLines_append`);
* **`StringSpelled`, how a string may be written**, and `scanString_append`.
-/

namespace HostGlue.Toml

/-! ## 1. Strings on one line -/

/-- An escape as it may be written: a letter that stands for a character, or the number of a
    character in four or eight hexadecimal digits. -/
inductive EscapeSpelled : Char → List Char → Prop where
  | short {c letter : Char} (escape : shortEscape? letter = some c) : EscapeSpelled c ['\\', letter]
  | four {c d₁ d₂ d₃ d₄ : Char} (digits : hexChar? [d₁, d₂, d₃, d₄] = some c) :
      EscapeSpelled c ['\\', 'u', d₁, d₂, d₃, d₄]
  | eight {c d₁ d₂ d₃ d₄ d₅ d₆ d₇ d₈ : Char}
      (digits : hexChar? [d₁, d₂, d₃, d₄, d₅, d₆, d₇, d₈] = some c) :
      EscapeSpelled c ['\\', 'U', d₁, d₂, d₃, d₄, d₅, d₆, d₇, d₈]

/-- The content of a basic string as it may be written. -/
inductive BasicSpelled : List Char → List Char → Prop where
  | nil : BasicSpelled [] []
  | plain {c : Char} {s cs : List Char} (printed : isPrinted c = true) (quote : c ≠ '\x22')
      (backslash : c ≠ '\\') (others : BasicSpelled s cs) : BasicSpelled (c :: s) (c :: cs)
  | escape {c : Char} {s ds cs : List Char} (escape : EscapeSpelled c ds)
      (others : BasicSpelled s cs) : BasicSpelled (c :: s) (ds ++ cs)

/-- The content of a literal string. It is written as it is. -/
def LiteralSpelled (s : List Char) : Prop := ∀ c ∈ s, isPrinted c = true ∧ c ≠ '\x27'

/-- A letter that stands for a character begins no number of a character. -/
theorem ne_of_shortEscape {c letter : Char} (h : shortEscape? letter = some c) :
    letter ≠ 'u' ∧ letter ≠ 'U' := by
  constructor <;> (rintro rfl; cases h)

theorem basicBody_escape {c : Char} {ds : List Char} (h : EscapeSpelled c ds) (rest : List Char) :
    basicBody (ds ++ rest) = consChar c (basicBody rest) := by
  cases h with
  | short escape =>
    obtain ⟨hfour, height⟩ := ne_of_shortEscape escape
    rw [List.cons_append, List.singleton_append, basicBody, escape]
    · rfl
    · exact fun _ _ _ _ _ h _ => hfour h
    · exact fun _ _ _ _ _ _ _ _ _ h _ => height h
  | four digits =>
    simp only [List.cons_append, List.nil_append]
    rw [basicBody, digits]
    rfl
  | eight digits =>
    simp only [List.cons_append, List.nil_append]
    rw [basicBody, digits]
    rfl

theorem basicBody_plain {c : Char} (printed : isPrinted c = true) (quote : c ≠ '\x22')
    (backslash : c ≠ '\\') (rest : List Char) :
    basicBody (c :: rest) = consChar c (basicBody rest) := by
  rw [basicBody]
  · simp only [printed, bne_iff_ne.mpr backslash, Bool.and_self, if_true]
  · exact quote
  · exact fun _ _ _ _ _ h _ => backslash h
  · exact fun _ _ _ _ _ _ _ _ _ h _ => backslash h
  · exact fun _ _ h _ => backslash h

/-- **The content of a basic string is read up to its quote.** -/
theorem basicBody_append {s cs : List Char} (h : BasicSpelled s cs) (rest : List Char) :
    basicBody (cs ++ '\x22' :: rest) = some (s, rest) := by
  induction h with
  | nil => rfl
  | plain printed quote backslash _ ih =>
    rw [List.cons_append, basicBody_plain printed quote backslash, ih]
    rfl
  | escape escape _ ih =>
    rw [List.append_assoc, basicBody_escape escape, ih]
    rfl

/-- **The content of a literal string is read up to its quote.** -/
theorem literalBody_append {s : List Char} (h : LiteralSpelled s) (rest : List Char) :
    literalBody (s ++ '\x27' :: rest) = some (s, rest) := by
  induction s with
  | nil => rfl
  | cons c s ih =>
    obtain ⟨⟨printed, quote⟩, others⟩ := List.forall_mem_cons.mp h
    rw [List.cons_append, literalBody, if_pos printed, ih others]
    · rfl
    · exact quote

/-! ## 2. Strings over several lines -/

/-- No text that begins with two quotes. -/
def NotTwo (q : Char) (cs : List Char) : Prop := ∀ rest, cs ≠ q :: q :: rest

/-- The content of a basic string over several lines as it may be written, with the closing quotes.
    Behind a backslash at the end of a line all blanks and line ends are dropped; the flag says that
    they are. Up to two quotes in front of the closing ones belong to the content. -/
inductive BasicLinesSpelled : Bool → List Char → List Char → Prop where
  | close {dropping : Bool} {n : Nat} (few : n ≤ 2) :
      BasicLinesSpelled dropping (List.replicate n '\x22') (List.replicate (n + 3) '\x22')
  | plain {dropping : Bool} {c : Char} {s cs : List Char} (printed : isPrinted c = true)
      (quote : c ≠ '\x22') (backslash : c ≠ '\\') (kept : (dropping && isBlank c) = false)
      (others : BasicLinesSpelled false s cs) : BasicLinesSpelled dropping (c :: s) (c :: cs)
  | blank {c : Char} {s cs : List Char} (blank : isBlank c = true)
      (others : BasicLinesSpelled true s cs) : BasicLinesSpelled true s (c :: cs)
  | line {nl s cs : List Char} (newline : Newline nl) (others : BasicLinesSpelled false s cs) :
      BasicLinesSpelled false ('\n' :: s) (nl ++ cs)
  | emptyLine {nl s cs : List Char} (newline : Newline nl) (others : BasicLinesSpelled true s cs) :
      BasicLinesSpelled true s (nl ++ cs)
  | escape {dropping : Bool} {c : Char} {s ds cs : List Char} (escape : EscapeSpelled c ds)
      (others : BasicLinesSpelled false s cs) : BasicLinesSpelled dropping (c :: s) (ds ++ cs)
  | quote {dropping : Bool} {s cs : List Char} (inside : NotTwo '\x22' cs)
      (others : BasicLinesSpelled false s cs) :
      BasicLinesSpelled dropping ('\x22' :: s) ('\x22' :: cs)
  | continued {dropping : Bool} {ws nl s cs : List Char} (blank : Blank ws) (newline : Newline nl)
      (others : BasicLinesSpelled true s cs) :
      BasicLinesSpelled dropping s ('\\' :: (ws ++ (nl ++ cs)))

/-- The content of a literal string over several lines as it may be written, with the closing
    quotes. -/
inductive LiteralLinesSpelled : List Char → List Char → Prop where
  | close {n : Nat} (few : n ≤ 2) :
      LiteralLinesSpelled (List.replicate n '\x27') (List.replicate (n + 3) '\x27')
  | plain {c : Char} {s cs : List Char} (printed : isPrinted c = true) (quote : c ≠ '\x27')
      (others : LiteralLinesSpelled s cs) : LiteralLinesSpelled (c :: s) (c :: cs)
  | line {nl s cs : List Char} (newline : Newline nl) (others : LiteralLinesSpelled s cs) :
      LiteralLinesSpelled ('\n' :: s) (nl ++ cs)
  | quote {s cs : List Char} (inside : NotTwo '\x27' cs) (others : LiteralLinesSpelled s cs) :
      LiteralLinesSpelled ('\x27' :: s) ('\x27' :: cs)

/-- Three quotes are the end, and up to two more in front of them are content. -/
theorem tripleEnd?_replicate {q : Char} {n : Nat} (h : n ≤ 2) {rest : List Char}
    (hrest : NotAhead (· == q) rest) :
    tripleEnd? q (List.replicate (n + 3) q ++ rest) = some (List.replicate n q, rest) := by
  have hne : ∀ c ∈ rest.head?, (c == q) = false := hrest
  obtain rfl | rfl | rfl : n = 0 ∨ n = 1 ∨ n = 2 := by omega
  · rcases rest with _ | ⟨d, _ | ⟨e, rest⟩⟩
    · simp [tripleEnd?]
    · simp [tripleEnd?, hne d rfl]
    · simp [tripleEnd?, hne d rfl]
  · rcases rest with _ | ⟨d, rest⟩
    · simp [tripleEnd?]
    · simp [tripleEnd?, hne d rfl]
  · simp [tripleEnd?]

theorem tripleEnd?_eq_none {q : Char} {cs : List Char} (h : NotTwo q cs) :
    tripleEnd? q (q :: cs) = none := by
  rcases cs with _ | ⟨b, _ | ⟨c, rest⟩⟩
  · rfl
  · rfl
  · have hne : (q == q && b == q && c == q) = false := by
      rw [Bool.eq_false_iff]
      simp only [ne_eq, Bool.and_eq_true, beq_iff_eq]
      rintro ⟨⟨-, rfl⟩, rfl⟩
      exact h rest rfl
    simp only [tripleEnd?, hne, Bool.false_eq_true, if_false]

/-- A text with something behind two characters begins as it does without it. -/
theorem NotTwo.append {q : Char} {cs : List Char} (h : NotTwo q cs) (hlong : 2 ≤ cs.length)
    (rest : List Char) : NotTwo q (cs ++ rest) := by
  rcases cs with _ | ⟨b, _ | ⟨c, cs⟩⟩
  · simp at hlong
  · simp at hlong
  · rintro tail heq
    simp only [List.cons_append, List.cons.injEq] at heq
    obtain ⟨rfl, rfl, -⟩ := heq
    exact h cs rfl

theorem BasicLinesSpelled.long {dropping : Bool} {s cs : List Char}
    (h : BasicLinesSpelled dropping s cs) : 3 ≤ cs.length := by
  induction h with
  | close => simp
  | plain | blank | quote | line | emptyLine | escape | continued =>
    simp only [List.length_cons, List.length_append]
    omega

theorem LiteralLinesSpelled.long {s cs : List Char} (h : LiteralLinesSpelled s cs) :
    3 ≤ cs.length := by
  induction h with
  | close => simp
  | plain | line | quote =>
    simp only [List.length_cons, List.length_append]
    omega

theorem basicLines_escape {c : Char} {ds : List Char} (h : EscapeSpelled c ds) (dropping : Bool)
    (rest : List Char) :
    basicLines dropping (ds ++ rest) = consChar c (basicLines false rest) := by
  cases h with
  | short escape =>
    obtain ⟨hfour, height⟩ := ne_of_shortEscape escape
    rw [List.cons_append, List.singleton_append, basicLines, escape]
    · exact fun _ _ _ _ _ h _ => hfour h
    · exact fun _ _ _ _ _ _ _ _ _ h _ => height h
  | four digits =>
    simp only [List.cons_append, List.nil_append]
    rw [basicLines, digits]
    rfl
  | eight digits =>
    simp only [List.cons_append, List.nil_append]
    rw [basicLines, digits]
    rfl

/-- A character that opens no line end, no escape and no closing quotes. -/
theorem basicLines_cons {c : Char} (feed : c ≠ '\n') (ret : c ≠ '\r') (quote : c ≠ '\x22')
    (backslash : c ≠ '\\') (dropping : Bool) (rest : List Char) :
    basicLines dropping (c :: rest) =
      if dropping && isBlank c then basicLines true rest
      else if isPrinted c then consChar c (basicLines false rest) else none := by
  rw [basicLines]
  · simp only [bne_iff_ne.mpr backslash, Bool.and_true]
  · exact fun _ h _ => ret h
  · exact feed
  · exact fun _ _ _ _ _ h _ => backslash h
  · exact fun _ _ _ _ _ _ _ _ _ h _ => backslash h
  · exact fun _ _ h _ => backslash h
  · exact quote

theorem basicLines_newline {nl : List Char} (h : Newline nl) (rest : List Char) :
    basicLines false (nl ++ rest) = consChar '\n' (basicLines false rest) ∧
      basicLines true (nl ++ rest) = basicLines true rest := by
  cases h <;> exact ⟨rfl, rfl⟩

theorem basicLines_blanks {ws : List Char} (h : Blank ws) (rest : List Char) :
    basicLines true (ws ++ rest) = basicLines true rest := by
  induction ws with
  | nil => rfl
  | cons c ws ih =>
    obtain ⟨hc, hws⟩ := List.forall_mem_cons.mp h
    rw [List.cons_append, ← ih hws]
    exact of_isBlank (P := fun c => basicLines true (c :: (ws ++ rest)) = _) ⟨rfl, rfl⟩ hc

/-- A blank or a line end stands for no character behind a backslash. -/
theorem shortEscape?_blanks {ws nl : List Char} (hws : Blank ws) (hnl : Newline nl)
    (rest : List Char) : ∃ c tail, ws ++ (nl ++ rest) = c :: tail ∧ shortEscape? c = none ∧
      c ≠ 'u' ∧ c ≠ 'U' := by
  cases ws with
  | cons w ws =>
    exact ⟨w, _, rfl, of_isBlank (P := fun w => shortEscape? w = none ∧ w ≠ 'u' ∧ w ≠ 'U')
      (by decide) (hws w List.mem_cons_self)⟩
  | nil =>
    cases hnl with
    | feed => exact ⟨'\n', _, rfl, by decide⟩
    | both => exact ⟨'\r', _, rfl, by decide⟩

/-- A backslash at the end of a line drops the blanks and line ends behind it. -/
theorem basicLines_continued {ws nl : List Char} (hws : Blank ws) (hnl : Newline nl)
    (dropping : Bool) (rest : List Char) :
    basicLines dropping ('\\' :: (ws ++ (nl ++ rest))) = basicLines true rest := by
  have hnewline : (newline? (skipBlanks (ws ++ (nl ++ rest)))).isSome = true := by
    rw [skipBlanks_append hws (notAhead_newline (by decide) hnl rest), newline?_append hnl]
    rfl
  have hdropped : basicLines true (ws ++ (nl ++ rest)) = basicLines true rest := by
    rw [basicLines_blanks hws, (basicLines_newline hnl rest).2]
  obtain ⟨c, tail, heq, hescape, hfour, height⟩ := shortEscape?_blanks hws hnl rest
  rw [heq] at hnewline hdropped ⊢
  rw [basicLines, hescape]
  · simp only [hnewline, if_true]
    exact hdropped
  · exact fun _ _ _ _ _ h _ => hfour h
  · exact fun _ _ _ _ _ _ _ _ _ h _ => height h

/-- **The content of a basic string over several lines is read up to its quotes.** -/
theorem basicLines_append {dropping : Bool} {s cs : List Char}
    (h : BasicLinesSpelled dropping s cs) {rest : List Char}
    (hrest : NotAhead (· == '\x22') rest) : basicLines dropping (cs ++ rest) = some (s, rest) := by
  induction h with
  | @close dropping n few =>
    have hend := tripleEnd?_replicate few hrest
    rw [List.replicate_succ, List.cons_append] at hend ⊢
    rw [basicLines, hend]
  | plain printed quote backslash kept _ ih =>
    rw [List.cons_append, basicLines_cons (ne_of_isPrinted printed (by decide))
      (ne_of_isPrinted printed (by decide)) quote backslash, kept, if_neg Bool.false_ne_true,
      if_pos printed, ih]
    rfl
  | @blank c s cs blank _ ih =>
    have hblank : Blank [c] := List.forall_mem_singleton.mpr blank
    exact (basicLines_blanks hblank (cs ++ rest)).trans ih
  | line newline _ ih =>
    rw [List.append_assoc, (basicLines_newline newline _).1, ih]
    rfl
  | emptyLine newline _ ih => rw [List.append_assoc, (basicLines_newline newline _).2, ih]
  | escape escape _ ih =>
    rw [List.append_assoc, basicLines_escape escape, ih]
    rfl
  | quote inside others ih =>
    have hlong := others.long
    have hnone := tripleEnd?_eq_none (inside.append (by omega) rest)
    rw [List.cons_append, basicLines, hnone, ih]
    rfl
  | continued blank newline _ ih =>
    rw [List.cons_append, List.append_assoc, List.append_assoc,
      basicLines_continued blank newline, ih]

/-- **The content of a literal string over several lines is read up to its quotes.** -/
theorem literalLines_append {s cs : List Char} (h : LiteralLinesSpelled s cs) {rest : List Char}
    (hrest : NotAhead (· == '\x27') rest) : literalLines (cs ++ rest) = some (s, rest) := by
  induction h with
  | @close n few =>
    have hend := tripleEnd?_replicate few hrest
    rw [List.replicate_succ, List.cons_append] at hend ⊢
    rw [literalLines, hend]
  | plain printed quote _ ih =>
    rw [List.cons_append, literalLines, if_pos printed, ih]
    · rfl
    · exact fun _ h _ => ne_of_isPrinted printed (by decide) h
    · exact ne_of_isPrinted printed (by decide)
    · exact quote
  | line newline _ ih =>
    rw [List.append_assoc]
    cases newline with
    | feed =>
      refine (congrArg (consChar '\n') ih).trans rfl
    | both =>
      refine (congrArg (consChar '\n') ih).trans rfl
  | quote inside others ih =>
    have hlong := others.long
    have hnone := tripleEnd?_eq_none (inside.append (by omega) rest)
    rw [List.cons_append, literalLines, hnone, ih]
    rfl

/-! ## 3. Strings of any kind -/

/-- The line end behind the opening quotes of a string over several lines. It is no part of the
    content, and a content that begins with a line end has to stand behind one. -/
inductive Lead : List Char → List Char → Prop where
  | none {cs : List Char} (content : NotAhead (fun c => c == '\n' || c == '\r') cs) : Lead [] cs
  | newline {nl cs : List Char} (newline : Newline nl) : Lead nl cs

theorem dropNewline_append {lead cs : List Char} (h : Lead lead cs) (hcs : cs ≠ [])
    (rest : List Char) : dropNewline (lead ++ (cs ++ rest)) = cs ++ rest := by
  cases h with
  | newline newline =>
    rw [dropNewline, newline?_append newline]
    rfl
  | none content =>
    rcases cs with _ | ⟨c, cs⟩
    · exact absurd rfl hcs
    · have hc := content c rfl
      simp only [Bool.or_eq_false_iff, beq_eq_false_iff_ne] at hc
      have hnone : newline? (c :: (cs ++ rest)) = Option.none := by
        unfold newline?
        split
        · rename_i heq
          exact absurd (List.cons.inj heq).1 hc.1
        · rename_i heq
          exact absurd (List.cons.inj heq).1 hc.2
        · rfl
      rw [List.nil_append, List.cons_append, dropNewline, hnone]
      rfl

/-- **A string as it may be written**, in one of four forms. -/
inductive StringSpelled : String → List Char → Prop where
  | basic {s cs : List Char} (content : BasicSpelled s cs) :
      StringSpelled (String.ofList s) ('\x22' :: (cs ++ ['\x22']))
  | literal {s : List Char} (content : LiteralSpelled s) :
      StringSpelled (String.ofList s) ('\x27' :: (s ++ ['\x27']))
  | basicLines {s lead cs : List Char} (opening : Lead lead cs)
      (content : BasicLinesSpelled false s cs) :
      StringSpelled (String.ofList s) ('\x22' :: '\x22' :: '\x22' :: (lead ++ cs))
  | literalLines {s lead cs : List Char} (opening : Lead lead cs)
      (content : LiteralLinesSpelled s cs) :
      StringSpelled (String.ofList s) ('\x27' :: '\x27' :: '\x27' :: (lead ++ cs))

/-- Whether a character opens a string. -/
def isQuote (c : Char) : Bool := c == '\x22' || c == '\x27'

/-- What opens a basic string on one line does not open one over several lines. -/
theorem scanString_basic {s cs : List Char} (h : BasicSpelled s cs) {rest : List Char}
    (hrest : NotAhead isQuote rest) :
    scanString ('\x22' :: (cs ++ '\x22' :: rest)) = some (s, rest) := by
  rw [← basicBody_append h rest]
  rw [scanString]
  rintro tail heq
  cases h with
  | nil =>
    cases heq
    exact absurd (hrest '\x22' rfl) (by decide)
  | plain _ quote => exact quote (List.cons.inj heq).1
  | escape escape => cases escape <;> cases heq

theorem scanString_literal {s : List Char} (h : LiteralSpelled s) {rest : List Char}
    (hrest : NotAhead isQuote rest) :
    scanString ('\x27' :: (s ++ '\x27' :: rest)) = some (s, rest) := by
  rw [← literalBody_append h rest]
  rw [scanString]
  rintro tail heq
  cases s with
  | nil =>
    cases heq
    exact absurd (hrest '\x27' rfl) (by decide)
  | cons c s => exact (h c List.mem_cons_self).2 (List.cons.inj heq).1

/-- **A string that may be written is read**, whatever follows, if it is no quote. -/
theorem scanString_append {s : String} {cs : List Char} (h : StringSpelled s cs)
    {rest : List Char} (hrest : NotAhead isQuote rest) :
    (scanString (cs ++ rest)).map (fun r => (String.ofList r.1, r.2)) = some (s, rest) := by
  cases h with
  | basic content =>
    rw [List.cons_append, List.append_assoc, List.singleton_append, scanString_basic content hrest]
    rfl
  | literal content =>
    rw [List.cons_append, List.append_assoc, List.singleton_append,
      scanString_literal content hrest]
    rfl
  | @basicLines s lead cs opening content =>
    have hcs : cs ≠ [] := List.ne_nil_of_length_pos (by have := content.long; omega)
    have hquote : NotAhead (· == '\x22') rest := hrest.mono fun c hc => by simp [isQuote, hc]
    have hread := basicLines_append content hquote
    rw [← dropNewline_append opening hcs] at hread
    rw [List.cons_append, List.cons_append, List.cons_append, List.append_assoc, scanString, hread]
    rfl
  | @literalLines s lead cs opening content =>
    have hcs : cs ≠ [] := List.ne_nil_of_length_pos (by have := content.long; omega)
    have hquote : NotAhead (· == '\x27') rest := hrest.mono fun c hc => by simp [isQuote, hc]
    have hread := literalLines_append content hquote
    rw [← dropNewline_append opening hcs] at hread
    rw [List.cons_append, List.cons_append, List.cons_append, List.append_assoc, scanString, hread]
    rfl

/-- How a string begins. -/
theorem StringSpelled.begins {s : String} {cs : List Char} (h : StringSpelled s cs) :
    ∃ c tail, cs = c :: tail ∧ isQuote c = true := by
  cases h <;> exact ⟨_, _, rfl, by decide⟩

end HostGlue.Toml
