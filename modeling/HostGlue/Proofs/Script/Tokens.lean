import HostGlue.Proofs.Script.Spelling
import HostGlue.Proofs.Text.Tokens

/-!
# Which tokens a program is written as

A well-named program is read back as tokens, whatever texts it holds: a literal is one token that has
the text as its value. This file fixes

* `Expr.tokens`, `Stmt.tokens` and `Property.tokens`, the tokens of a program by its parts;
* that these are what is read where an expression is spelled (`Expr.reads_spell`), where the lines of
  statements are (`Stmt.ends_bodyCode`), and where a property is (`Property.tokens_code`).
-/

namespace HostGlue.Script

open Text (Token Reads Ends Sep)

/-! ## 1. Tokens of programs -/

/-- The tokens of an integer. -/
def numberTokens (n : Int) : List Token :=
  let digits := String.ofList (Nat.toDigits 10 n.natAbs)
  if n < 0 then [.mark '-'] ++ [.word digits] else [.word digits]

/-- Tokens of pieces, with commas between them. -/
def commaTokens (parts : List (List Token)) : List Token := [.mark ','].intercalate parts

/-- The tokens of the head of a function. -/
def headTokens (params : List String) : List Token :=
  [.word "function", .mark '('] ++ commaTokens (params.map fun x => [.word x]) ++ [.mark ')']

mutual

/-- The tokens of an expression. -/
def Expr.tokens : Expr → List Token
  | .name x => [.word x]
  | .text value => [.literal value]
  | .number n => numberTokens n
  | .member e field => e.tokens ++ [.mark '.'] ++ [.word field]
  | .item e key => e.tokens ++ [.mark '['] ++ key.tokens ++ [.mark ']']
  | .call f args => f.tokens ++ [.mark '('] ++ commaTokens (Expr.tokensAll args) ++ [.mark ')']
  | .construct f args =>
    [.word "new"] ++ f.tokens ++ [.mark '('] ++ commaTokens (Expr.tokensAll args) ++ [.mark ')']
  | .sum a b => a.tokens ++ [.mark '+'] ++ b.tokens
  | .list items => [.mark '['] ++ commaTokens (Expr.tokensAll items) ++ [.mark ']']
  | .lambda params result =>
    headTokens params ++ [.mark '\x7b', .word "return"] ++ result.tokens ++ [.mark ';', .mark '\x7d']
termination_by structural e => e

/-- The tokens of each of some expressions. -/
def Expr.tokensAll : List Expr → List (List Token)
  | [] => []
  | e :: es => e.tokens :: Expr.tokensAll es
termination_by structural es => es

end

/-- The tokens of a case. -/
def caseTokens (c : Int × Expr) : List Token :=
  [.word "case"] ++ numberTokens c.1 ++ [.mark ':', .word "return"] ++ c.2.tokens ++ [.mark ';']

mutual

/-- The tokens of a statement. -/
def Stmt.tokens : Stmt → List Token
  | .run e => e.tokens ++ [.mark ';']
  | .declare x e => [.word "var"] ++ [.word x] ++ [.mark '='] ++ e.tokens ++ [.mark ';']
  | .assign target e => target.tokens ++ [.mark '='] ++ e.tokens ++ [.mark ';']
  | .give e => [.word "return"] ++ e.tokens ++ [.mark ';']
  | .attempt body caught handler =>
    [.word "try", .mark '\x7b'] ++ Stmt.tokensAll body ++ [.mark '\x7d'] ++
      ([.word "catch", .mark '('] ++ [.word caught] ++ [.mark ')'] ++ [.mark '\x7b'] ++
        Stmt.tokensAll handler ++ [.mark '\x7d'])
  | .declareFunction x params body =>
    [.word "var"] ++ [.word x] ++ [.mark '='] ++ headTokens params ++ [.mark '\x7b'] ++
      Stmt.tokensAll body ++ [.mark '\x7d'] ++ [.mark ';']
  | .choose scrutinee cases =>
    [.word "switch", .mark '('] ++ scrutinee.tokens ++ [.mark ')'] ++ [.mark '\x7b'] ++
      cases.flatMap caseTokens ++ [.mark '\x7d']
termination_by structural s => s

/-- The tokens of statements. -/
def Stmt.tokensAll : List Stmt → List Token
  | [] => []
  | s :: ss => s.tokens ++ Stmt.tokensAll ss
termination_by structural ss => ss

end

/-- The tokens of a property behind its name. -/
def Property.tokens (p : Property) : List Token :=
  [.mark ':'] ++ headTokens p.params ++ [.mark '\x7b'] ++ Stmt.tokensAll p.body ++ [.mark '\x7d'] ++
    [.mark ',']

/-! ## 2. Pieces of spelled text -/

theorem reads_ofInt (n : Int) : Reads (Digits.ofInt n) (numberTokens n) := by
  have hdigits : Reads (String.ofList (Nat.toDigits 10 n.natAbs))
      [.word (String.ofList (Nat.toDigits 10 n.natAbs))] := by
    refine Text.reads_word (fun e => ?_) fun c hc => ?_
    · have hl := congrArg String.toList e
      rw [String.toList_ofList] at hl
      exact Nat.toDigits_ne_nil hl
    · rw [String.toList_ofList] at hc
      simp [Ident.isPart, Char.isAlphanum, Digits.isDigit_of_mem hc]
  have hminus : Ends "-" [.mark '-'] := fun _ => rfl
  unfold Digits.ofInt numberTokens
  split
  · exact hminus.reads hdigits
  · exact hdigits

theorem sep_comma : Sep ", " [.mark ','] := ⟨⟨',', _, rfl, by decide⟩, fun _ => rfl⟩

theorem sep_parens : Sep "(" [.mark '('] ∧ Sep ")" [.mark ')'] :=
  ⟨⟨⟨'(', _, rfl, by decide⟩, fun _ => rfl⟩, ⟨⟨')', _, rfl, by decide⟩, fun _ => rfl⟩⟩

theorem sep_squares : Sep "[" [.mark '['] ∧ Sep "]" [.mark ']'] :=
  ⟨⟨⟨'[', _, rfl, by decide⟩, fun _ => rfl⟩, ⟨⟨']', _, rfl, by decide⟩, fun _ => rfl⟩⟩

/-- Pieces with commas between them are read one after another. -/
theorem reads_commaList : ∀ {xs : List String} {tss : List (List Token)},
    List.Forall₂ Reads xs tss → Reads (commaList xs) (commaTokens tss)
  | _, _, .nil => fun _ _ => rfl
  | _, _, .cons h .nil => by
      rw [commaList, commaTokens, String.intercalate_singleton, List.intercalate_singleton]
      exact h
  | _, _, .cons h (.cons h' hs) => by
      have ih := reads_commaList (.cons h' hs)
      rw [commaList, commaTokens, String.intercalate_cons_cons, List.intercalate_cons_cons]
      exact (h.sep sep_comma).reads ih

theorem reads_names : ∀ {xs : List String}, (∀ x ∈ xs, Ident.isIdentifier x = true) →
    List.Forall₂ Reads xs (xs.map fun x => [.word x])
  | [], _ => .nil
  | _ :: _, h =>
      .cons (Text.reads_name (h _ List.mem_cons_self))
        (reads_names fun x hx => h x (List.mem_cons_of_mem _ hx))

theorem ends_functionHead {params : List String} (h : ∀ x ∈ params, Ident.isIdentifier x = true) :
    Ends (functionHead params) (headTokens params) := by
  have hopen : Ends "function (" [.word "function", .mark '('] := fun _ => rfl
  exact (hopen.reads (reads_commaList (reads_names h))).sep sep_parens.2

/-! ## 3. Expressions -/

mutual

/-- **A well-named expression is read as its tokens.** -/
theorem Expr.reads_spell : ∀ e : Expr, e.Named → Reads e.spell e.tokens
  | .name _, h => Text.reads_name h
  | .text value, _ => Text.reads_encode value
  | .number n, _ => reads_ofInt n
  | .member e _, h => by
      have hpoint : Sep "." [.mark '.'] := ⟨⟨'.', _, rfl, by decide⟩, fun _ => rfl⟩
      exact ((e.reads_spell h.1).sep hpoint).reads (Text.reads_name h.2)
  | .item e key, h =>
      ((((e.reads_spell h.1).sep sep_squares.1).reads (key.reads_spell h.2)).sep
        sep_squares.2).toReads
  | .call f args, h =>
      ((((f.reads_spell h.1).sep sep_parens.1).reads
        (reads_commaList (Expr.reads_spellings args h.2))).sep sep_parens.2).toReads
  | .construct f args, h => by
      have hnew : Ends "new " [.word "new"] := fun _ => rfl
      exact ((((hnew.reads (f.reads_spell h.1)).sep sep_parens.1).reads
        (reads_commaList (Expr.reads_spellings args h.2))).sep sep_parens.2).toReads
  | .sum a b, h => by
      have hplus : Sep " + " [.mark '+'] := ⟨⟨' ', _, rfl, by decide⟩, fun _ => rfl⟩
      exact ((a.reads_spell h.1).sep hplus).reads (b.reads_spell h.2)
  | .list items, h =>
      ((sep_squares.1.ends.reads (reads_commaList (Expr.reads_spellings items h))).sep
        sep_squares.2).toReads
  | .lambda params result, h => by
      have hopen : Ends " \x7b return " [.mark '\x7b', .word "return"] := fun _ => rfl
      have hclose : Sep "; \x7d" [.mark ';', .mark '\x7d'] :=
        ⟨⟨';', _, rfl, by decide⟩, fun _ => rfl⟩
      exact ((((ends_functionHead h.1).append hopen).reads (result.reads_spell h.2)).sep
        hclose).toReads

theorem Expr.reads_spellings : ∀ es : List Expr, Expr.AllNamed es →
    List.Forall₂ Reads (Expr.spellings es) (Expr.tokensAll es)
  | [], _ => .nil
  | e :: es, h => .cons (e.reads_spell h.1) (Expr.reads_spellings es h.2)

end

/-! ## 4. Lines and blocks -/

/-- Trees of code whose lines are read as these tokens, at any depth. -/
def CodeReads (cs : List Code) (ts : List Token) : Prop :=
  ∀ d, Ends (Line.join (Code.bodyLines d cs)) ts

namespace CodeReads

theorem nil : CodeReads [] [] := fun _ _ => rfl

theorem append {as bs : List Code} {ts us : List Token} (ha : CodeReads as ts)
    (hb : CodeReads bs us) : CodeReads (as ++ bs) (ts ++ us) := by
  intro d
  rw [Code.bodyLines_append, Line.join_append]
  exact (ha d).append (hb d)

/-- Blanks in front of a text are no tokens. -/
theorem ends_blanks : ∀ n : Nat, Ends (String.ofList (List.replicate n ' ')) []
  | 0 => fun _ => rfl
  | n + 1 => by
      intro rest
      have ih := ends_blanks n rest
      rw [String.toList_ofList] at ih ⊢
      exact ih

/-- A line is read as its content, at any depth. -/
theorem ends_line {content : String} {ts : List Token} (h : Reads content ts) (d : Nat) :
    Ends (Line.text ⟨d, content⟩) ts := by
  have hfeed : Sep "\n" [] := ⟨⟨'\n', _, rfl, by decide⟩, fun _ => rfl⟩
  have hcontent : Ends (content ++ "\n") ts := by
    have hc := h.sep hfeed
    rwa [List.append_nil] at hc
  unfold Line.text
  split
  · rename_i e
    rw [show content = "" from e, String.empty_append] at hcontent
    exact hcontent
  · rw [String.append_assoc]
    exact (ends_blanks _).append hcontent

theorem line {content : String} {ts : List Token} (h : Reads content ts) :
    CodeReads [.line content] ts := by
  intro d
  have e : Line.join (Code.bodyLines d [.line content]) = Line.text ⟨d, content⟩ ++ Line.join [] :=
    Line.join_cons ..
  have hnil : Line.join [] = "" := rfl
  rw [e, hnil, String.append_empty]
  exact ends_line h d

theorem reads_openLine {header : String} {ts : List Token} (h : Reads header ts) :
    Reads (openLine header) (ts ++ [.mark '\x7b']) := by
  unfold openLine
  split
  · rename_i e
    have hbrace : Sep "\x7b" [.mark '\x7b'] := ⟨⟨'\x7b', _, rfl, by decide⟩, fun _ => rfl⟩
    have hb := h.sep hbrace
    rw [e, String.empty_append] at hb
    exact hb.toReads
  · have hbrace : Sep " \x7b" [.mark '\x7b'] := ⟨⟨' ', _, rfl, by decide⟩, fun _ => rfl⟩
    exact (h.sep hbrace).toReads

/-- A block is read as its header, its body between braces, and its suffix. -/
theorem block {header suffix : String} {body : List Code} {ts us vs : List Token}
    (hh : Reads header ts) (hb : CodeReads body us) (hs : Reads suffix vs) :
    CodeReads [.block header suffix body] (ts ++ [.mark '\x7b'] ++ us ++ [.mark '\x7d'] ++ vs) := by
  intro d
  have hunbrace : Ends "\x7d" [.mark '\x7d'] := fun _ => rfl
  have hopen : Ends (Line.text ⟨d, openLine header⟩) (ts ++ [.mark '\x7b']) :=
    ends_line (reads_openLine hh) d
  have hclose : Ends (Line.text ⟨d, closeLine suffix⟩) ([.mark '\x7d'] ++ vs) :=
    ends_line (hunbrace.reads hs) d
  have e : Line.join (Code.bodyLines d [.block header suffix body]) =
      Line.text ⟨d, openLine header⟩ ++ Line.join (Code.bodyLines (d + 1) body) ++
        Line.text ⟨d, closeLine suffix⟩ := by
    have hlast : Line.join [⟨d, closeLine suffix⟩] = Line.text ⟨d, closeLine suffix⟩ := by
      rw [Line.join_cons]
      exact String.append_empty
    rw [Code.bodyLines, Code.bodyLines, List.append_nil, Code.lines, List.cons_append,
      Line.join_cons, Line.join_append, hlast, String.append_assoc]
  rw [e, List.append_assoc]
  exact (hopen.append (hb (d + 1))).append hclose

theorem lines {α : Type} {f : α → String} {g : α → List Token} : ∀ {xs : List α},
    (∀ x ∈ xs, Reads (f x) (g x)) → CodeReads (xs.map fun x => .line (f x)) (xs.flatMap g)
  | [], _ => nil
  | x :: _, h =>
      (line (h x List.mem_cons_self)).append (lines fun y hy => h y (List.mem_cons_of_mem _ hy))

end CodeReads

/-! ## 5. Statements and properties -/

theorem sep_semicolon : Sep ";" [.mark ';'] := ⟨⟨';', _, rfl, by decide⟩, fun _ => rfl⟩

theorem sep_assign : Sep " = " [.mark '='] := ⟨⟨' ', _, rfl, by decide⟩, fun _ => rfl⟩

theorem reads_empty : Reads "" [] := fun _ _ => rfl

theorem reads_caseText (c : Int × Expr) (h : c.2.Named) : Reads (caseText c) (caseTokens c) := by
  have hcase : Ends "case " [.word "case"] := fun _ => rfl
  have hreturn : Sep ": return " [.mark ':', .word "return"] :=
    ⟨⟨':', _, rfl, by decide⟩, fun _ => rfl⟩
  exact ((((hcase.reads (reads_ofInt c.1)).sep hreturn).reads (c.2.reads_spell h)).sep
    sep_semicolon).toReads

mutual

/-- **The lines of a well-named statement are read as its tokens.** -/
theorem Stmt.reads_code : ∀ s : Stmt, s.Named → CodeReads s.code s.tokens
  | .run e, h => .line ((e.reads_spell h).sep sep_semicolon).toReads
  | .declare x e, h => by
      have hvar : Ends "var " [.word "var"] := fun _ => rfl
      exact .line ((((hvar.reads (Text.reads_name h.1)).sep sep_assign).reads
        (e.reads_spell h.2)).sep sep_semicolon).toReads
  | .assign target e, h =>
      .line ((((target.reads_spell h.1).sep sep_assign).reads (e.reads_spell h.2)).sep
        sep_semicolon).toReads
  | .give e, h => by
      have hreturn : Ends "return " [.word "return"] := fun _ => rfl
      exact .line ((hreturn.reads (e.reads_spell h)).sep sep_semicolon).toReads
  | .attempt body caught handler, h => by
      have htry : Reads "try" [.word "try"] := Text.reads_name (by decide)
      have hcatch : Ends "catch (" [.word "catch", .mark '('] := fun _ => rfl
      have hhead := ((hcatch.reads (Text.reads_name h.2.1)).sep sep_parens.2).toReads
      have hbody := CodeReads.block htry (Stmt.reads_bodyCode body h.1) reads_empty
      have hhandler := CodeReads.block hhead (Stmt.reads_bodyCode handler h.2.2) reads_empty
      rw [List.append_nil] at hbody hhandler
      exact hbody.append hhandler
  | .declareFunction x params body, h => by
      have hvar : Ends "var " [.word "var"] := fun _ => rfl
      have hhead := (((hvar.reads (Text.reads_name h.1)).sep sep_assign).append
        (ends_functionHead h.2.1)).toReads
      exact .block hhead (Stmt.reads_bodyCode body h.2.2) sep_semicolon.ends.toReads
  | .choose scrutinee cases, h => by
      have hswitch : Ends "switch (" [.word "switch", .mark '('] := fun _ => rfl
      have hhead := ((hswitch.reads (scrutinee.reads_spell h.1)).sep sep_parens.2).toReads
      have hcases := CodeReads.block hhead (.lines fun c hc => reads_caseText c (h.2 c hc)) reads_empty
      rwa [List.append_nil] at hcases

theorem Stmt.reads_bodyCode : ∀ ss : List Stmt, Stmt.AllNamed ss →
    CodeReads (Stmt.bodyCode ss) (Stmt.tokensAll ss)
  | [], _ => .nil
  | s :: ss, h => (s.reads_code h.1).append (Stmt.reads_bodyCode ss h.2)

end

/-- **A well-named property is read as its name and the tokens behind it**, at any depth. -/
theorem Property.tokens_code (p : Property) (h : p.Named) (d : Nat) :
    Text.tokens (Line.join (p.code.lines d)).toList = .word p.name :: p.tokens := by
  have hcolon : Sep ": " [.mark ':'] := ⟨⟨':', _, rfl, by decide⟩, fun _ => rfl⟩
  have hcomma : Sep "," [.mark ','] := ⟨⟨',', _, rfl, by decide⟩, fun _ => rfl⟩
  have hhead := (((Text.reads_name h.name).sep hcolon).append (ends_functionHead h.params)).toReads
  have hcode := CodeReads.block hhead (Stmt.reads_bodyCode p.body h.body) hcomma.ends.toReads d []
  rw [List.append_nil, Code.bodyLines, Code.bodyLines, List.append_nil] at hcode
  rw [Property.code, hcode]
  simp only [Property.tokens, List.append_assoc, List.cons_append, List.nil_append]
  rfl

end HostGlue.Script
