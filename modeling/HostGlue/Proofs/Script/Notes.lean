import HostGlue.Proofs.Script.Tokens

/-!
# Which names a written program holds

Three questions are put to the tokens of a text: which identifiers there are (`identifiers`), which
names are declared by `var` (`declaredNames`), and which are caught by a handler (`caughtNames`). All of
them are readings of one token after another, with a look at the tokens in front of it (`gather`). This
file fixes

* `Note`, a place of a program at which a name stands, and `Property.notes`, all of them;
* `Reader`, what a reading has to guarantee to find what is noted, and the readers of the three
  questions;
* **that every reader finds what is noted** (`Reader.finds_property`), by one induction on programs.
-/

namespace HostGlue.Script

open Text (Token)

/-! ## 1. Readings of tokens -/

/-- What a rule finds in tokens. It is asked at every token, and sees the tokens in front of it, the
    last one first. -/
def gather (rule : List Token → Token → List String) (front : List Token) : List Token → List String
  | [] => []
  | t :: ts => rule front t ++ gather rule (t :: front) ts

theorem gather_append (rule : List Token → Token → List String) :
    ∀ (front as bs : List Token),
      gather rule front (as ++ bs) = gather rule front as ++ gather rule (as.reverse ++ front) bs
  | _, [], _ => rfl
  | front, a :: as, bs => by
      rw [List.cons_append, gather, gather_append rule (a :: front) as bs, gather, List.append_assoc,
        List.reverse_cons, List.append_assoc, List.singleton_append]

/-- The words that are no names where a program is read. -/
def keywords : List String := ["case", "catch", "function", "new", "return", "switch", "try", "var"]

/-- An identifier: a word that begins like a name, is no keyword, and does not stand behind a point. -/
def identifierAt (front : List Token) : Token → List String
  | .word w =>
    if front.head? == some (.mark '.') || !Ident.isIdentifier w || keywords.contains w then []
    else [w]
  | _ => []

/-- A name behind `var`. -/
def declaredAt (front : List Token) : Token → List String
  | .word x => if front.head? = some (.word "var") then [x] else []
  | _ => []

/-- What a handler catches, if its head is what stands last in front. -/
def handled? : List Token → Option String
  | .mark ')' :: .word x :: .mark '(' :: .word w :: _ => if w = "catch" then some x else none
  | _ => none

/-- The name in the head of a handler, at the brace that opens its body. A call of a function that is
    named `catch` has no such brace behind it. -/
def caughtAt (front : List Token) : Token → List String
  | .mark c => if c = '\x7b' then (handled? front).toList else []
  | _ => []

/-- The identifiers of a text that are no keywords and do not stand behind a point. -/
def identifiers (ts : List Token) : List String := gather identifierAt [] ts

/-- The names a text declares by `var`. -/
def declaredNames (ts : List Token) : List String := gather declaredAt [] ts

/-- The names the handlers of a text catch. -/
def caughtNames (ts : List Token) : List String := gather caughtAt [] ts

/-! ## 2. Notes of programs -/

/-- A place of a program at which a name stands: one that is used, declared, or caught. -/
inductive Note where
  | used (x : String)
  | declared (x : String)
  | caught (x : String)

/-- The name at a place. -/
def Note.name : Note → String
  | .used x | .declared x | .caught x => x

mutual

/-- The names of an expression, fields left out. -/
def Expr.notes : Expr → List Note
  | .name x => [.used x]
  | .text _ | .number _ => []
  | .member e _ => e.notes
  | .item e key => e.notes ++ key.notes
  | .call f args | .construct f args => f.notes ++ (Expr.notesEach args).flatten
  | .sum a b => a.notes ++ b.notes
  | .list items => (Expr.notesEach items).flatten
  | .lambda params result => params.map .used ++ result.notes
termination_by structural e => e

/-- The names of each of some expressions. -/
def Expr.notesEach : List Expr → List (List Note)
  | [] => []
  | e :: es => e.notes :: Expr.notesEach es
termination_by structural es => es

end

mutual

/-- The names of a statement, fields left out. -/
def Stmt.notes : Stmt → List Note
  | .run e | .give e => e.notes
  | .declare x e => [.declared x] ++ e.notes
  | .assign target e => target.notes ++ e.notes
  | .attempt body caught handler => Stmt.notesAll body ++ ([.caught caught] ++ Stmt.notesAll handler)
  | .declareFunction x params body => [.declared x] ++ params.map .used ++ Stmt.notesAll body
  | .choose scrutinee cases => scrutinee.notes ++ cases.flatMap fun c => c.2.notes
termination_by structural s => s

/-- The names of statements. -/
def Stmt.notesAll : List Stmt → List Note
  | [] => []
  | s :: ss => s.notes ++ Stmt.notesAll ss
termination_by structural ss => ss

end

/-- The names of a property behind its own. -/
def Property.notes (p : Property) : List Note := p.params.map .used ++ Stmt.notesAll p.body

theorem Stmt.notesAll_append : ∀ as bs : List Stmt,
    Stmt.notesAll (as ++ bs) = Stmt.notesAll as ++ Stmt.notesAll bs
  | [], _ => rfl
  | a :: as, bs => by
      rw [List.cons_append, Stmt.notesAll, Stmt.notesAll_append as bs, Stmt.notesAll,
        List.append_assoc]

theorem Expr.flatten_notesEach_names : ∀ xs : List String,
    (Expr.notesEach (Expr.names xs)).flatten = xs.map .used
  | [] => rfl
  | x :: xs => congrArg (List.cons (Note.used x)) (Expr.flatten_notesEach_names xs)

theorem Expr.notes_foldl_member : ∀ (fields : List String) (e : Expr),
    (fields.foldl .member e).notes = e.notes
  | [], _ => rfl
  | f :: fields, e => Expr.notes_foldl_member fields (.member e f)

/-- Of a path only the root is no field. -/
theorem Expr.notes_ofPath {path : String} (h : Ident.IsPath path) :
    (Expr.ofPath path).notes = [.used (Ident.rootSegment path)] := by
  obtain ⟨root, fields, e⟩ := h.segments
  rw [Expr.ofPath_eq e, Expr.notes_foldl_member, Ident.pathSegments_head e]
  rfl

/-! ## 3. Readers -/

/-- A rule that finds something of what is noted. It may rely on what stands in front of a name, and
    that is given where no point and no `var` does. -/
structure Reader where
  rule : List Token → Token → List String
  ready : List Token → Prop
  found : Note → List String
  ready_mark : ∀ {c : Char} (front), c ≠ '.' → ready (.mark c :: front)
  ready_keyword : ∀ {k : String} (front), k ∈ keywords → k ≠ "var" → ready (.word k :: front)
  mark : ∀ {c : Char} (front), c ≠ '\x7b' → rule front (.mark c) = []
  brace : ∀ {front}, handled? front = none → rule front (.mark '\x7b') = []
  literal : ∀ front value, rule front (.literal value) = []
  name : ∀ {front} {x : String}, Ident.isIdentifier x = true → ready front →
    rule front (.word x) = found (.used x)
  field : ∀ front x, rule (.mark '.' :: front) (.word x) = []
  keyword : ∀ {front} {k : String}, k ∈ keywords → ready front → rule front (.word k) = []
  number : ∀ {front} {w : String}, Ident.isIdentifier w = false → ready front →
    rule front (.word w) = []
  declared : ∀ {front} {x : String}, Ident.isIdentifier x = true → ready front →
    gather rule front [.word "var", .word x] = found (.declared x)
  caught : ∀ {front} {x : String}, Ident.isIdentifier x = true → ready front →
    gather rule front [.word "catch", .mark '(', .word x, .mark ')', .mark '\x7b'] =
      found (.caught x)

namespace Reader

/-- The reader of identifiers finds every name that is no keyword. -/
def identifier : Reader where
  rule := identifierAt
  ready front := front.head? ≠ some (.mark '.')
  found n := if keywords.contains n.name then [] else [n.name]
  ready_mark _ hc := fun e => hc (Token.mark.inj (Option.some.inj e))
  ready_keyword _ _ _ := fun e => by cases e
  mark _ _ := rfl
  brace _ := rfl
  literal _ _ := rfl
  name hx hf := by rw [identifierAt, hx, beq_eq_false_iff_ne.mpr hf]; rfl
  field _ _ := by simp [identifierAt]
  keyword hk _ := by simp [identifierAt, hk]
  number hw _ := by simp [identifierAt, hw]
  declared hx hf := by simp [gather, identifierAt, hx, keywords, Note.name]
  caught hx hf := by simp [gather, identifierAt, hx, keywords, Note.name]

/-- The reader of declarations finds every declared name. -/
def declaration : Reader where
  rule := declaredAt
  ready front := front.head? ≠ some (.word "var")
  found n := match n with
    | .declared x => [x]
    | _ => []
  ready_mark _ _ := fun e => by cases e
  ready_keyword _ _ hk := fun e => hk (Token.word.inj (Option.some.inj e))
  mark _ _ := rfl
  brace _ := rfl
  literal _ _ := rfl
  name _ hf := by simp [declaredAt, hf]
  field _ _ := by simp [declaredAt]
  keyword _ hf := by simp [declaredAt, hf]
  number _ hf := by simp [declaredAt, hf]
  declared _ hf := by simp [gather, declaredAt, hf]
  caught _ hf := by simp [gather, declaredAt, hf]

/-- The reader of handlers finds every caught name. -/
def handler : Reader where
  rule := caughtAt
  ready _ := True
  found n := match n with
    | .caught x => [x]
    | _ => []
  ready_mark _ _ := trivial
  ready_keyword _ _ _ := trivial
  mark _ hc := if_neg hc
  brace h := by rw [caughtAt, if_pos rfl, h]; rfl
  literal _ _ := rfl
  name _ _ := rfl
  field _ _ := rfl
  keyword _ _ := rfl
  number _ _ := rfl
  declared _ _ := rfl
  caught _ _ := rfl

/-! ## 4. Pieces of tokens -/

variable (r : Reader)

/-- In these tokens a reader finds what is noted of these places, if it is ready in front of them. -/
def Finds (ts : List Token) (ns : List Note) : Prop :=
  ∀ front, r.ready front → gather r.rule front ts = ns.flatMap r.found

/-- Moreover, it is ready behind them. -/
def Settles (ts : List Token) (ns : List Note) : Prop :=
  ∀ front, r.ready front →
    gather r.rule front ts = ns.flatMap r.found ∧ r.ready (ts.reverse ++ front)

variable {r} {as bs : List Token} {ms ns : List Note}

theorem Settles.toFinds (h : r.Settles as ms) : r.Finds as ms := fun front hf => (h front hf).1

theorem Settles.append (ha : r.Settles as ms) (hb : r.Settles bs ns) :
    r.Settles (as ++ bs) (ms ++ ns) := by
  intro front hf
  obtain ⟨hm, hready⟩ := ha front hf
  obtain ⟨hn, hready⟩ := hb _ hready
  rw [gather_append, hm, hn, List.flatMap_append, List.reverse_append, List.append_assoc]
  exact ⟨rfl, hready⟩

theorem Settles.finds (ha : r.Settles as ms) (hb : r.Finds bs ns) : r.Finds (as ++ bs) (ms ++ ns) := by
  intro front hf
  obtain ⟨hm, hready⟩ := ha front hf
  rw [gather_append, hm, hb _ hready, List.flatMap_append]

/-- A mark behind tokens settles them. -/
theorem Finds.mark {c : Char} (h : r.Finds as ms) (hpoint : c ≠ '.') (hbrace : c ≠ '\x7b') :
    r.Settles (as ++ [.mark c]) ms := by
  intro front hf
  rw [gather_append, h front hf, gather, gather, r.mark _ hbrace, List.append_nil, List.append_nil,
    List.reverse_append]
  exact ⟨rfl, r.ready_mark _ hpoint⟩

/-- An opening brace behind tokens settles them, if they are not the head of a handler. -/
theorem Finds.brace (h : r.Finds as ms)
    (hhead : ∀ front, handled? (as.reverse ++ front) = none) :
    r.Settles (as ++ [.mark '\x7b']) ms := by
  intro front hf
  rw [gather_append, h front hf, gather, gather, r.brace (hhead front), List.append_nil,
    List.append_nil, List.reverse_append]
  exact ⟨rfl, r.ready_mark _ (by decide)⟩

/-- A field is not found. -/
theorem Finds.field (h : r.Finds as ms) (x : String) :
    r.Finds (as ++ [.mark '.'] ++ [.word x]) ms := by
  intro front hf
  rw [gather_append, gather_append, h front hf, List.reverse_append, List.append_assoc]
  simp only [gather, r.mark _ (by decide : '.' ≠ '\x7b'), List.append_nil]
  show _ ++ r.rule (.mark '.' :: _) _ = _
  rw [r.field, List.append_nil]

theorem settles_nil : r.Settles [] [] := fun _ hf => ⟨rfl, hf⟩

theorem settles_mark {c : Char} (hpoint : c ≠ '.') (hbrace : c ≠ '\x7b') : r.Settles [.mark c] [] :=
  Finds.mark settles_nil.toFinds hpoint hbrace

theorem settles_keyword {k : String} (hk : k ∈ keywords) (hvar : k ≠ "var") :
    r.Settles [.word k] [] := by
  intro front hf
  rw [gather, gather, r.keyword hk hf, List.append_nil]
  exact ⟨rfl, r.ready_keyword _ hk hvar⟩

theorem finds_name {x : String} (hx : Ident.isIdentifier x = true) : r.Finds [.word x] [.used x] := by
  intro front hf
  rw [gather, gather, r.name hx hf, List.append_nil, List.flatMap_singleton]

theorem finds_declared {x : String} (hx : Ident.isIdentifier x = true) :
    r.Finds ([.word "var"] ++ [.word x]) [.declared x] := by
  intro front hf
  rw [List.flatMap_singleton]
  exact r.declared hx hf

/-- The head of a handler, with the brace that opens its body. -/
theorem settles_caught {x : String} (hx : Ident.isIdentifier x = true) :
    r.Settles ([.word "catch", .mark '('] ++ [.word x] ++ [.mark ')'] ++ [.mark '\x7b'])
      [.caught x] := by
  intro front hf
  rw [List.flatMap_singleton]
  exact ⟨r.caught hx hf, r.ready_mark _ (by decide)⟩

theorem finds_number (n : Int) : r.Finds (numberTokens n) [] := by
  have hdigits : Ident.isIdentifier (String.ofList (Nat.toDigits 10 n.natAbs)) = false := by
    obtain ⟨c, rest, hfirst, hdigit⟩ := Digits.exists_toDigits n.natAbs
    rw [Ident.isIdentifier, String.toList_ofList, hfirst, Ident.spellsIdentifier,
      Ident.isStart_of_isDigit hdigit, Bool.false_and]
  have hword : r.Finds [.word (String.ofList (Nat.toDigits 10 n.natAbs))] [] := by
    intro front hf
    rw [gather, gather, r.number hdigits hf]
    rfl
  unfold numberTokens
  split
  · exact (settles_mark (by decide) (by decide)).finds hword
  · exact hword

/-- Pieces with commas between them. -/
theorem finds_commaTokens : ∀ {tss : List (List Token)} {nss : List (List Note)},
    List.Forall₂ r.Finds tss nss → r.Finds (commaTokens tss) nss.flatten
  | _, _, .nil => fun _ _ => rfl
  | _, _, .cons h .nil => by
      rw [commaTokens, List.intercalate_singleton, List.flatten_cons, List.flatten_nil, List.append_nil]
      exact h
  | _, _, .cons h (.cons h' hs) => by
      have ih := finds_commaTokens (.cons h' hs)
      rw [commaTokens, List.intercalate_cons_cons, List.flatten_cons]
      exact (h.mark (by decide) (by decide)).finds ih

theorem finds_names : ∀ {xs : List String}, (∀ x ∈ xs, Ident.isIdentifier x = true) →
    List.Forall₂ r.Finds (xs.map fun x => [.word x]) (xs.map fun x => [.used x])
  | [], _ => .nil
  | _ :: _, h =>
      .cons (finds_name (h _ List.mem_cons_self)) (finds_names fun x hx => h x (List.mem_cons_of_mem _ hx))

end Reader

/-! ## 5. Heads that are none of a handler -/

/-- What stands between parentheses is no name that is caught, if the word in front of them is none
    of a handler. -/
theorem Expr.handled?_tokens : ∀ (e : Expr) (front : List Token),
    (∀ x, handled? (.mark ')' :: .word x :: front) = none) →
    handled? (.mark ')' :: (e.tokens.reverse ++ front)) = none
  | .name x, _, h => h x
  | .text _, _, _ => rfl
  | .number n, front, h => by
      rw [Expr.tokens, numberTokens]
      split
      · rfl
      · exact h _
  | .sum a b, front, _ => by
      rw [Expr.tokens, List.reverse_append, List.append_assoc]
      refine b.handled?_tokens _ fun x => ?_
      rw [List.reverse_append]
      rfl
  | .member _ _, _, _ | .item _ _, _, _ | .call _ _, _, _ | .construct _ _, _, _ | .list _, _, _
  | .lambda _ _, _, _ => by
      simp [Expr.tokens, handled?]

/-- The parameters of a function are no name that is caught. -/
theorem handled?_params : ∀ (params : List String) (front : List Token),
    handled? (.mark ')' :: front) = none → (∀ x, handled? (.mark ')' :: .word x :: front) = none) →
    handled? (.mark ')' ::
      ((commaTokens (params.map fun x => [.word x])).reverse ++ front)) = none
  | [], _, h, _ => h
  | [x], _, _, h => h x
  | x :: y :: xs, front, _, _ => by
      rw [List.map_cons, List.map_cons, commaTokens, List.intercalate_cons_cons,
        List.reverse_append, List.append_assoc]
      exact handled?_params (y :: xs) _ rfl fun _ => rfl

namespace Reader

variable {r : Reader}

/-- The head of a function, with the brace that opens its body. -/
theorem settles_head {params : List String} (h : ∀ x ∈ params, Ident.isIdentifier x = true) :
    r.Settles (headTokens params ++ [.mark '\x7b']) (params.map .used) := by
  have hopen : r.Settles [.word "function", .mark '('] [] :=
    (settles_keyword (by decide) (by decide)).append (settles_mark (by decide) (by decide))
  have hparams : r.Finds (commaTokens (params.map fun x => [.word x])) (params.map .used) := by
    have hp := finds_commaTokens (finds_names (r := r) h)
    rwa [← List.flatMap_def, ← List.map_eq_flatMap] at hp
  have hhead : r.Settles (headTokens params) (params.map .used) :=
    (hopen.finds hparams).mark (by decide) (by decide)
  refine hhead.toFinds.brace fun front => ?_
  rw [headTokens, List.reverse_append, List.reverse_append, List.append_assoc, List.append_assoc]
  exact handled?_params params _ rfl fun _ => rfl

/-! ## 6. Programs -/

mutual

/-- **A reader finds what is noted of an expression.** -/
theorem finds_expr : ∀ e : Expr, e.Named → r.Finds e.tokens e.notes
  | .name _, h => finds_name h
  | .text _, _ => fun front _ => by rw [Expr.tokens, gather, gather, r.literal]; rfl
  | .number n, _ => finds_number n
  | .member e field, h => (finds_expr e h.1).field field
  | .item e key, h =>
      ((((finds_expr e h.1).mark (by decide) (by decide)).finds (finds_expr key h.2)).mark
        (by decide) (by decide)).toFinds
  | .call f args, h =>
      ((((finds_expr f h.1).mark (by decide) (by decide)).finds
        (finds_commaTokens (finds_each args h.2))).mark (by decide) (by decide)).toFinds
  | .construct f args, h =>
      ((((((settles_keyword (by decide) (by decide)).finds (finds_expr f h.1)).mark (by decide)
        (by decide)).finds (finds_commaTokens (finds_each args h.2))).mark (by decide)
        (by decide)).toFinds)
  | .sum a b, h => ((finds_expr a h.1).mark (by decide) (by decide)).finds (finds_expr b h.2)
  | .list items, h =>
      (((settles_mark (by decide) (by decide)).finds
        (finds_commaTokens (finds_each items h))).mark (by decide) (by decide)).toFinds
  | .lambda params result, h => by
      have hreturn : r.Settles [.word "return"] [] := settles_keyword (by decide) (by decide)
      have hbrace : r.Settles [.mark '\x7d'] [] := settles_mark (by decide) (by decide)
      have hbody := ((((settles_head h.1).append hreturn).finds (finds_expr result h.2)).mark
        (by decide : ';' ≠ '.') (by decide)).append hbrace
      simp only [List.append_assoc, List.append_nil] at hbody
      rw [Expr.tokens, Expr.notes]
      simp only [List.append_assoc]
      exact hbody.toFinds

theorem finds_each : ∀ es : List Expr, Expr.AllNamed es →
    List.Forall₂ r.Finds (Expr.tokensAll es) (Expr.notesEach es)
  | [], _ => .nil
  | e :: es, h => .cons (finds_expr e h.1) (finds_each es h.2)

end

theorem settles_case (c : Int × Expr) (h : c.2.Named) : r.Settles (caseTokens c) c.2.notes := by
  have hcase : r.Settles [.word "case"] [] := settles_keyword (by decide) (by decide)
  have hreturn : r.Settles [.word "return"] [] := settles_keyword (by decide) (by decide)
  have hbody := ((((hcase.finds (finds_number c.1)).mark (by decide : ':' ≠ '.') (by decide)).append
    hreturn).finds (finds_expr c.2 h)).mark (by decide : ';' ≠ '.') (by decide)
  rw [caseTokens]
  simp only [List.append_assoc] at hbody ⊢
  exact hbody

theorem settles_cases : ∀ cases : List (Int × Expr), (∀ c ∈ cases, c.2.Named) →
    r.Settles (cases.flatMap caseTokens) (cases.flatMap fun c => c.2.notes)
  | [], _ => settles_nil
  | c :: cases, h =>
      (settles_case c (h c List.mem_cons_self)).append
        (settles_cases cases fun d hd => h d (List.mem_cons_of_mem _ hd))

mutual

/-- **A reader finds what is noted of a statement.** -/
theorem settles_stmt : ∀ s : Stmt, s.Named → r.Settles s.tokens s.notes
  | .run e, h => (finds_expr e h).mark (by decide) (by decide)
  | .declare _ e, h =>
      (((finds_declared h.1).mark (by decide) (by decide)).finds (finds_expr e h.2)).mark
        (by decide) (by decide)
  | .assign target e, h =>
      (((finds_expr target h.1).mark (by decide) (by decide)).finds (finds_expr e h.2)).mark
        (by decide) (by decide)
  | .give e, h =>
      ((settles_keyword (by decide) (by decide)).finds (finds_expr e h)).mark (by decide) (by decide)
  | .attempt body caught handler, h => by
      have htry : r.Settles [.word "try", .mark '\x7b'] [] :=
        (settles_keyword (by decide) (by decide)).toFinds.brace fun _ => rfl
      have hbrace : r.Settles [.mark '\x7d'] [] := settles_mark (by decide) (by decide)
      have hbody := (htry.append (settles_all body h.1)).append hbrace
      have hhandler := ((settles_caught h.2.1).append (settles_all handler h.2.2)).append hbrace
      rw [List.append_nil, List.nil_append] at hbody
      rw [List.append_nil] at hhandler
      exact hbody.append hhandler
  | .declareFunction x params body, h => by
      have hbrace : r.Settles [.mark '\x7d'] [] := settles_mark (by decide) (by decide)
      have hsemicolon : r.Settles [.mark ';'] [] := settles_mark (by decide) (by decide)
      have hdeclared : r.Settles ([.word "var"] ++ [.word x] ++ [.mark '=']) [.declared x] :=
        (finds_declared h.1).mark (by decide) (by decide)
      have hall := (((hdeclared.append (settles_head h.2.1)).append
        (settles_all body h.2.2)).append hbrace).append hsemicolon
      rw [Stmt.tokens, Stmt.notes]
      simp only [List.append_assoc, List.append_nil] at hall ⊢
      exact hall
  | .choose scrutinee cases, h => by
      have hswitch : r.Settles [.word "switch", .mark '('] [] :=
        (settles_keyword (by decide) (by decide)).append (settles_mark (by decide) (by decide))
      have hbrace : r.Settles [.mark '\x7d'] [] := settles_mark (by decide) (by decide)
      have hhead := ((hswitch.finds (finds_expr scrutinee h.1)).mark (by decide : ')' ≠ '.')
        (by decide)).toFinds.brace fun front => by
          rw [List.reverse_append, List.reverse_append, List.append_assoc, List.append_assoc]
          exact scrutinee.handled?_tokens _ fun _ => rfl
      have hall := (hhead.append (settles_cases cases h.2)).append hbrace
      rwa [List.append_nil, List.nil_append] at hall

theorem settles_all : ∀ ss : List Stmt, Stmt.AllNamed ss →
    r.Settles (Stmt.tokensAll ss) (Stmt.notesAll ss)
  | [], _ => settles_nil
  | s :: ss, h => (settles_stmt s h.1).append (settles_all ss h.2)

end

/-- **A reader finds what is noted of a property**, behind its name. -/
theorem finds_property (r : Reader) (p : Property) (h : p.Named) :
    gather r.rule [] p.tokens = p.notes.flatMap r.found := by
  have hbrace : r.Settles [.mark '\x7d'] [] := settles_mark (by decide) (by decide)
  have hcomma : r.Settles [.mark ','] [] := settles_mark (by decide) (by decide)
  have hall := (((settles_head h.params).append (settles_all p.body h.body)).append hbrace).append
    hcomma
  obtain ⟨hfound, -⟩ := hall [.mark ':'] (r.ready_mark [] (by decide))
  have hcolon : r.rule [] (.mark ':') = [] := r.mark [] (by decide)
  rw [List.append_nil, List.append_nil] at hfound
  rw [Property.notes, ← hfound, Property.tokens]
  simp only [List.append_assoc, List.cons_append, List.nil_append, gather, hcolon]

end Reader

/-! ## 7. The three questions -/

/-- The identifiers of a property stand at its places. -/
theorem mem_identifiers_tokens {p : Property} (h : p.Named) {x : String}
    (hx : x ∈ identifiers p.tokens) : ∃ n ∈ p.notes, n.name = x := by
  have hfound : x ∈ p.notes.flatMap Reader.identifier.found :=
    Reader.identifier.finds_property p h ▸ hx
  obtain ⟨n, hn, hm⟩ := List.mem_flatMap.mp hfound
  refine ⟨n, hn, ?_⟩
  simp only [Reader.identifier] at hm
  split at hm
  · cases hm
  · exact (List.mem_singleton.mp hm).symm

/-- The names a property declares are those that are noted as declared. -/
theorem declaredNames_tokens {p : Property} (h : p.Named) :
    declaredNames p.tokens = p.notes.flatMap Reader.declaration.found :=
  Reader.declaration.finds_property p h

/-- The names a property catches are those that are noted as caught. -/
theorem caughtNames_tokens {p : Property} (h : p.Named) :
    caughtNames p.tokens = p.notes.flatMap Reader.handler.found :=
  Reader.handler.finds_property p h

example : caughtNames (Text.tokens "key = catch(key);".toList) = [] ∧
    caughtNames (Text.tokens "catch (error) \x7b".toList) = ["error"] := by
  decide

/-- Names that are only used are neither declared nor caught. -/
theorem found_used {ns : List Note} (h : ∀ n ∈ ns, ∃ x, n = .used x) :
    ns.flatMap Reader.declaration.found = [] ∧ ns.flatMap Reader.handler.found = [] := by
  constructor <;> rw [List.flatMap_eq_nil_iff]
  all_goals
    intro n hn
    obtain ⟨x, rfl⟩ := h n hn
    rfl

theorem found_map_used (xs : List String) :
    (xs.map .used).flatMap Reader.declaration.found = [] ∧
      (xs.map .used).flatMap Reader.handler.found = [] :=
  found_used fun _ hn => (List.mem_map.mp hn).imp fun _ hx => hx.2.symm

end HostGlue.Script
