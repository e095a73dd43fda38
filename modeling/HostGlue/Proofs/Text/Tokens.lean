import HostGlue.Proofs.Names
import HostGlue.Proofs.Text.Brackets
import HostGlue.Proofs.Text.Literals

/-!
# Tokens of script text

A text is read as words, marks and literals with their values. Blanks and line feeds stand between
tokens, and a word goes on as long as there are characters of a name. Where a literal does not end on
its line, or has an escape that is never written, its quote stands alone. This file fixes

* `Token`, and `tokens`, the tokens of a text;
* `Reads`, that a piece of text is read as these tokens whatever stands behind it, as long as that ends
  a word, and `Ends`, that the piece ends its last word by itself;
* how pieces are put together: what can be read, then a separator (`Reads.sep`), then the next
  (`Ends.reads`, `Ends.append`);
* the pieces all text is made of: words (`reads_word`), literals (`reads_encode`) and separators
  (`Sep`).
-/

namespace HostGlue.Text

/-- A token: a word, that is a name, a keyword or a number; a mark; or a literal. -/
inductive Token where
  | word (w : String)
  | mark (c : Char)
  | literal (value : String)
  deriving DecidableEq

/-! ## 1. The tokens of a text -/

/-- The word made of some characters, if there are any. -/
def wordToken : List Char → List Token
  | [] => []
  | c :: cs => [.word (String.ofList (c :: cs))]

/-- A character that only separates tokens. -/
def isBlank (c : Char) : Bool := c == ' ' || c == '\n'

/-- The character that an escape denotes, for the escapes that are written. -/
def denoted? (c : Char) : Option Char := Quoted.escapes.lookup c

/-- The tokens of a text, read from a place, behind the characters of a word or of the value of a
    literal. -/
def scan : Place → List Char → List Char → List Token
  | .outside, w, [] => wordToken w
  | .outside, w, c :: cs =>
    if Ident.isPart c then scan .outside (w ++ [c]) cs
    else wordToken w ++
      (if c = '\x27' then scan .inside [] cs
      else if isBlank c then scan .outside [] cs
      else .mark c :: scan .outside [] cs)
  | .inside, _, [] | .escaped, _, [] => [.mark '\x27']
  | .inside, v, c :: cs =>
    if c = '\\' then scan .escaped v cs
    else if c = '\x27' then .literal (String.ofList v) :: scan .outside [] cs
    else if c = '\n' ∨ c = '\r' then .mark '\x27' :: scan .inside v cs
    else scan .inside (v ++ [c]) cs
  | .escaped, v, c :: cs =>
    match denoted? c with
    | some d => scan .inside (v ++ [d]) cs
    | none => .mark '\x27' :: scan .inside v cs

/-- The tokens of a text. -/
def tokens (cs : List Char) : List Token := scan .outside [] cs

/-- What ends a word: the end of the text, or a character that is none of a name. -/
def Stops (rest : List Char) : Prop := ∀ c ∈ rest.head?, Ident.isPart c = false

/-- Characters of a name go on with a word. -/
theorem scan_append : ∀ {cs : List Char}, (∀ c ∈ cs, Ident.isPart c = true) → ∀ w rest,
    scan .outside w (cs ++ rest) = scan .outside (w ++ cs) rest
  | [], _, w, rest => by rw [List.nil_append, List.append_nil]
  | c :: cs, h, w, rest => by
      rw [List.cons_append, scan, if_pos (h c List.mem_cons_self),
        scan_append fun d hd => h d (List.mem_cons_of_mem c hd), List.append_assoc,
        List.singleton_append]

/-- A word ends where the text does, or a character stands that is none of a name. -/
theorem scan_of_stops {w rest : List Char} (h : Stops rest) :
    scan .outside w rest = wordToken w ++ tokens rest := by
  cases rest with
  | nil => rw [scan, tokens, scan, wordToken, List.append_nil]
  | cons c cs =>
    have hc : ¬ Ident.isPart c = true := by
      rw [h c rfl]
      exact Bool.false_ne_true
    rw [scan, if_neg hc, tokens, scan, if_neg hc, wordToken, List.nil_append]

/-! ## 2. Pieces of text -/

/-- A piece of text is read as these tokens, whatever stands behind it that ends a word. -/
def Reads (a : String) (ts : List Token) : Prop :=
  ∀ rest, Stops rest → tokens (a.toList ++ rest) = ts ++ tokens rest

/-- A piece of text is read as these tokens, whatever stands behind it. -/
def Ends (a : String) (ts : List Token) : Prop :=
  ∀ rest, tokens (a.toList ++ rest) = ts ++ tokens rest

/-- A piece that ends the word in front of it, and all of its own. -/
structure Sep (a : String) (ts : List Token) : Prop where
  stops : ∃ c cs, a.toList = c :: cs ∧ Ident.isPart c = false
  ends : Ends a ts

theorem Ends.toReads {a : String} {ts : List Token} (h : Ends a ts) : Reads a ts :=
  fun rest _ => h rest

theorem Reads.sep {a b : String} {ts us : List Token} (ha : Reads a ts) (hb : Sep b us) :
    Ends (a ++ b) (ts ++ us) := by
  intro rest
  obtain ⟨c, cs, e, hc⟩ := hb.stops
  have hstops : Stops (b.toList ++ rest) := by
    rw [e]
    intro d hd
    rw [← Option.some.inj hd]
    exact hc
  rw [String.toList_append, List.append_assoc, ha _ hstops, hb.ends, List.append_assoc]

theorem Ends.reads {a b : String} {ts us : List Token} (ha : Ends a ts) (hb : Reads b us) :
    Reads (a ++ b) (ts ++ us) := by
  intro rest hrest
  rw [String.toList_append, List.append_assoc, ha, hb rest hrest, List.append_assoc]

theorem Ends.append {a b : String} {ts us : List Token} (ha : Ends a ts) (hb : Ends b us) :
    Ends (a ++ b) (ts ++ us) := by
  intro rest
  rw [String.toList_append, List.append_assoc, ha, hb, List.append_assoc]

theorem reads_word {w : String} (hne : w ≠ "") (h : ∀ c ∈ w.toList, Ident.isPart c = true) :
    Reads w [.word w] := by
  intro rest hrest
  rw [tokens, scan_append h, scan_of_stops hrest, List.nil_append]
  cases e : w.toList with
  | nil => exact absurd (String.toList_injective e) hne
  | cons c cs => rw [wordToken, ← e, String.ofList_toList]

theorem reads_name {x : String} (h : Ident.isIdentifier x = true) : Reads x [.word x] := by
  obtain ⟨⟨c, rest, e, -⟩, hall⟩ := (Ident.spellsIdentifier_iff x.toList).mp h
  refine reads_word (fun hx => ?_) hall
  rw [hx] at e
  cases e

/-- The value of a literal is read up to its last quote. -/
theorem scan_encodeBody (rest : List Char) : ∀ value v : List Char,
    scan .inside v (Quoted.encodeBody value ++ '\x27' :: rest) =
      .literal (String.ofList (v ++ value)) :: tokens rest
  | [], v => by
      rw [List.append_nil]
      rfl
  | c :: value, v => by
      have ih := scan_encodeBody rest value (v ++ [c])
      rw [List.append_assoc, List.singleton_append] at ih
      rw [Quoted.encodeBody_cons, List.append_assoc, ← ih]
      rcases Quoted.encodeChar_cases c with ⟨⟨hquote, hescape, hfeed, hreturn⟩, he⟩ | ⟨e, hmem, he⟩
      · rw [he, List.singleton_append, scan, if_neg hescape, if_neg hquote, if_neg (by tauto)]
      · have hdenoted : ∀ p ∈ Quoted.escapes, denoted? p.1 = some p.2 := by decide
        rw [he, List.cons_append, List.singleton_append, scan, if_pos rfl, scan, hdenoted _ hmem]

/-- **A literal is one token, and has the value it was written for.** -/
theorem reads_encode (value : String) : Reads (Quoted.encode value) [.literal value] := by
  intro rest _
  have hbody := scan_encodeBody rest value.toList []
  rw [List.nil_append, String.ofList_toList] at hbody
  rw [Quoted.toList_encode, List.cons_append, List.append_assoc]
  exact hbody

end HostGlue.Text
