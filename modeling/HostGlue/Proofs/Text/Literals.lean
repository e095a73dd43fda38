import HostGlue.Text.Quoted

/-!
# Literals for every lexer

A script lexer reads a single-quoted literal from its opening quote on. Which escapes it knows apart from
the four that are written here is its own matter. This file fixes

* `Lexer`, the rules that every lexer of such literals obeys, and `Lexer.standard`, one of them;
* `encodeChar_cases`, the two ways in which a character is written;
* **`Lexer.read_encode`: every lexer reads a value back from its literal**, and stops right behind it;
* `Lexer.read_of_prefix`, that nothing shorter is a literal, and `breaks_not_mem_encode`, that a literal
  stays on its line.
-/

namespace HostGlue.Text.Quoted

/-! ## 1. Lexers -/

/-- The characters behind a backslash that every lexer knows, with what they denote. -/
def escapes : List (Char × Char) :=
  [('\\', '\\'), ('\x27', '\x27'), ('n', '\n'), ('r', '\r')]

/-- One more character in front of a value that was read. -/
def push (c : Char) (r : List Char × List Char) : List Char × List Char := (c :: r.1, r.2)

/-- A lexer of single-quoted literals: `body` reads on behind the opening quote, and gives the value and
    the text it stops in front of. The first bare quote ends a literal, a backslash takes the next
    character with it, and neither a raw line break nor the end of the text can stand inside. -/
structure Lexer where
  body : List Char → Option (List Char × List Char)
  quote : ∀ rest, body ('\x27' :: rest) = some ([], rest)
  plain : ∀ c rest, c ≠ '\x27' → c ≠ '\\' → c ≠ '\n' → c ≠ '\r' →
    body (c :: rest) = (body rest).map (push c)
  escape : ∀ c denoted rest, (c, denoted) ∈ escapes →
    body ('\\' :: c :: rest) = (body rest).map (push denoted)
  lineFeed : ∀ rest, body ('\n' :: rest) = none
  carriageReturn : ∀ rest, body ('\r' :: rest) = none
  unended : body [] = none
  unescaped : body ['\\'] = none

/-- Reads a literal at the start of a text: its value, and the text behind it. -/
def Lexer.read (lexer : Lexer) : List Char → Option (List Char × List Char)
  | '\x27' :: rest => lexer.body rest
  | _ => none

theorem decodeBody?_plain {c : Char} (rest : List Char) (hq : c ≠ '\x27') (hb : c ≠ '\\')
    (hn : c ≠ '\n') (hr : c ≠ '\r') : decodeBody? (c :: rest) = (decodeBody? rest).map (push c) := by
  have hplain : ¬ (c = '\n' ∨ c = '\r' ∨ c = '\\') := by
    rintro (e | e | e)
    · exact hn e
    · exact hr e
    · exact hb e
  rw [decodeBody?, if_neg hplain]
  · rfl
  · exact hq
  · intro d rest' e
    exact absurd e hb

/-- The lexer that takes any other character behind a backslash for itself. -/
def Lexer.standard : Lexer where
  body := decodeBody?
  quote := fun _ => rfl
  plain := fun _ rest => decodeBody?_plain rest
  escape := by
    intro c denoted rest h
    have hdenoted : escaped c = denoted := by
      revert h
      simp only [escapes, List.mem_cons, Prod.mk.injEq, List.not_mem_nil, or_false]
      rintro (⟨rfl, rfl⟩ | ⟨rfl, rfl⟩ | ⟨rfl, rfl⟩ | ⟨rfl, rfl⟩) <;> rfl
    rw [decodeBody?, hdenoted]
    rfl
  lineFeed := fun _ => rfl
  carriageReturn := fun _ => rfl
  unended := rfl
  unescaped := rfl

theorem Lexer.read_standard : ∀ text : List Char, standard.read text = decode? text
  | [] => rfl
  | c :: rest => by
      by_cases hc : c = '\x27'
      · rw [hc]
        rfl
      · have hquote : ∀ literal, c :: rest ≠ '\x27' :: literal := fun _ e => hc (List.cons.inj e).1
        rw [read, decode?]
        · exact hquote
        · exact hquote

/-! ## 2. Characters of a literal -/

/-- A character stands for itself, or it is written as a backslash and a character that denotes it. -/
theorem encodeChar_cases (c : Char) :
    ((c ≠ '\x27' ∧ c ≠ '\\' ∧ c ≠ '\n' ∧ c ≠ '\r') ∧ encodeChar c = [c]) ∨
      ∃ e, (e, c) ∈ escapes ∧ encodeChar c = ['\\', e] := by
  unfold encodeChar
  split
  case h_1 => exact Or.inr ⟨'\\', by decide, rfl⟩
  case h_2 => exact Or.inr ⟨'\x27', by decide, rfl⟩
  case h_3 => exact Or.inr ⟨'n', by decide, rfl⟩
  case h_4 => exact Or.inr ⟨'r', by decide, rfl⟩
  case h_5 hb hq hn hr => exact Or.inl ⟨⟨hq, hb, hn, hr⟩, rfl⟩

theorem encodeBody_cons (c : Char) (value : List Char) :
    encodeBody (c :: value) = encodeChar c ++ encodeBody value := List.flatMap_cons

theorem toList_encode (value : String) :
    (encode value).toList = '\x27' :: (encodeBody value.toList ++ ['\x27']) := by
  rw [encode, String.toList_ofList, List.cons_append]

/-- No line break stands in a literal. -/
theorem breaks_not_mem_encode (value : String) :
    '\n' ∉ (encode value).toList ∧ '\r' ∉ (encode value).toList := by
  have hescapes : ∀ p ∈ escapes, p.1 ≠ '\n' ∧ p.1 ≠ '\r' := by decide
  have hbody : ∀ d ∈ encodeBody value.toList, d ≠ '\n' ∧ d ≠ '\r' := by
    intro d hd
    obtain ⟨c, -, hd⟩ := List.mem_flatMap.mp hd
    rcases encodeChar_cases c with ⟨⟨-, -, hn, hr⟩, he⟩ | ⟨e, hmem, he⟩
    · rw [he, List.mem_singleton] at hd
      rw [hd]
      exact ⟨hn, hr⟩
    · rw [he, List.mem_cons, List.mem_singleton] at hd
      rcases hd with rfl | rfl
      · decide
      · exact hescapes _ hmem
  have hall : ∀ d ∈ (encode value).toList, d ≠ '\n' ∧ d ≠ '\r' := by
    rw [toList_encode]
    intro d hd
    rcases List.mem_cons.mp hd with rfl | hd
    · decide
    · rcases List.mem_append.mp hd with hd | hd
      · exact hbody d hd
      · rw [List.mem_singleton.mp hd]
        decide
  exact ⟨fun h => (hall _ h).1 rfl, fun h => (hall _ h).2 rfl⟩

/-- A value whose characters all stand for themselves is written between quotes as it is. -/
theorem encode_of_plain {value : String} (h : ∀ c ∈ value.toList, encodeChar c = [c]) :
    encode value = "\x27" ++ value ++ "\x27" := by
  have hbody : ∀ cs : List Char, (∀ c ∈ cs, encodeChar c = [c]) → encodeBody cs = cs := by
    intro cs hcs
    induction cs with
    | nil => rfl
    | cons c cs ih =>
      rw [List.forall_mem_cons] at hcs
      rw [encodeBody_cons, hcs.1, ih hcs.2]
      rfl
  apply String.toList_injective
  rw [toList_encode, hbody _ h, String.toList_append, String.toList_append]
  rfl

/-! ## 3. Reading -/

namespace Lexer

variable (lexer : Lexer)

/-- The value of a literal is read back character by character, up to the quote that ends it. -/
theorem body_encodeBody : ∀ value rest : List Char,
    lexer.body (encodeBody value ++ '\x27' :: rest) = some (value, rest)
  | [], rest => lexer.quote rest
  | c :: value, rest => by
      have ih := body_encodeBody value rest
      rw [encodeBody_cons, List.append_assoc]
      rcases encodeChar_cases c with ⟨⟨hq, hb, hn, hr⟩, he⟩ | ⟨e, hmem, he⟩
      · rw [he, List.singleton_append, lexer.plain c _ hq hb hn hr, ih]
        rfl
      · rw [he, List.cons_append, List.singleton_append, lexer.escape e c _ hmem, ih]
        rfl

/-- **A literal is read back**, whatever stands behind it. -/
theorem read_encode (value : String) (rest : List Char) :
    lexer.read ((encode value).toList ++ rest) = some (value.toList, rest) := by
  rw [toList_encode, List.cons_append, List.append_assoc, List.singleton_append]
  exact lexer.body_encodeBody value.toList rest

/-- What breaks off before the last quote has no end: at a backslash, or at any other character. -/
theorem body_of_prefix : ∀ {value before after : List Char},
    encodeBody value ++ ['\x27'] = before ++ after → after ≠ [] → lexer.body before = none
  | _, [], _, _, _ => lexer.unended
  | [], c :: before, after, h, ha => by
      have hnil := (List.cons.inj h).2
      exact absurd (List.append_eq_nil_iff.mp hnil.symm).2 ha
  | c :: value, d :: before, after, h, ha => by
      rw [encodeBody_cons, List.append_assoc] at h
      rcases encodeChar_cases c with ⟨⟨hq, hb, hn, hr⟩, he⟩ | ⟨e, hmem, he⟩
      · rw [he, List.singleton_append, List.cons_append] at h
        obtain ⟨rfl, hrest⟩ := List.cons.inj h
        rw [lexer.plain c _ hq hb hn hr, body_of_prefix hrest ha]
        rfl
      · rw [he, List.cons_append, List.singleton_append, List.cons_append] at h
        obtain ⟨rfl, hrest⟩ := List.cons.inj h
        -- An escape is two characters, and the literal can break off between them.
        cases before with
        | nil => exact lexer.unescaped
        | cons x before =>
          obtain ⟨rfl, htail⟩ := List.cons.inj hrest
          rw [lexer.escape e c _ hmem, body_of_prefix htail ha]
          rfl

/-- **Nothing shorter than a literal is one.** -/
theorem read_of_prefix {value : String} {before after : List Char}
    (h : (encode value).toList = before ++ after) (ha : after ≠ []) : lexer.read before = none := by
  rw [toList_encode] at h
  cases before with
  | nil => rfl
  | cons d before =>
    obtain ⟨rfl, hrest⟩ := List.cons.inj h
    exact lexer.body_of_prefix hrest ha

end Lexer

theorem encode_injective : Function.Injective encode := by
  intro u v h
  have hu := Lexer.standard.read_encode u []
  rw [h, Lexer.standard.read_encode v []] at hu
  exact String.toList_injective (Prod.mk.inj (Option.some.inj hu)).1.symm

end HostGlue.Text.Quoted
