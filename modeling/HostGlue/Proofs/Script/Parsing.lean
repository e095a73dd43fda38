import HostGlue.Proofs.Script.Tokens

/-!
# Reading a program back from its text

A text is read as a program token by token, by a machine that holds what it has read so far and what may
come next. It knows the part of the language that calls into the host are written in: no function stands
inside another, and nothing is constructed or chosen. This file fixes

* `Region` and `Slot`, the places a statement and an expression can stand at, and `State`, where the
  machine is;
* **`State.step`, what a token makes of a state, and `read?`, the property that a text is**;
* `Property.Readable`, the programs that are written in this part of the language;
* **`Property.read?_code`: a readable program is read back from its text**, at any depth.
-/

namespace HostGlue.Script

open Text (Token)

/-! ## 1. Words and lines -/

/-- A name that can be used and bound: an identifier that is no reserved word. -/
def isFree (x : String) : Bool := Ident.isIdentifier x && !Ident.isReserved x

theorem isFree_iff {x : String} :
    isFree x = true ↔ Ident.isIdentifier x = true ∧ Ident.isReserved x = false := by
  rw [isFree, Bool.and_eq_true, Bool.not_eq_true']

/-- The number that a word is, if it is written as numbers are. -/
def number? (w : String) : Option Nat :=
  let n := Digits.number 10 w.toList
  if Nat.toDigits 10 n = w.toList then some n else none

/-- The characters that lines of a program end in. -/
def lineEnds : List Char := [';', '\x7b', '\x7d', ',']

/-- No statement is broken off by the end of its line: behind `return` a line feed would end it. -/
def unbroken (text : String) : Bool :=
  (Text.lines text.toList).all fun line => line.getLast?.all lineEnds.contains

/-! ## 2. Places -/

/-- Where a statement stands, with the statements in front of it: in the body of a property, in a `try`
    region, or in the `catch` region behind one. -/
inductive Region where
  | body (name : String) (params : List String) (front : List Stmt)
  | tried (outer : Region) (front : List Stmt)
  | handler (outer : Region) (body : List Stmt) (caught : String) (front : List Stmt)

/-- The place behind some more statements. -/
def Region.more : Region → List Stmt → Region
  | .body name xs front, ss => .body name xs (front ++ ss)
  | .tried outer front, ss => .tried outer (front ++ ss)
  | .handler outer region x front, ss => .handler outer region x (front ++ ss)

/-- Where an expression stands: at the start of a statement, as a value that is declared, assigned or
    returned, behind the sign of a sum, between the brackets of an item, or among the arguments of a
    call. -/
inductive Slot where
  | first (r : Region)
  | value (x : String) (r : Region)
  | assigned (target : Expr) (r : Region)
  | given (r : Region)
  | summand (a : Expr) (outer : Slot)
  | key (e : Expr) (outer : Slot)
  | argument (f : Expr) (front : List Expr) (outer : Slot)

/-- Where the machine is. It may be in front of fixed tokens, of a parameter or what stands behind one,
    of a statement, of a name that is declared or caught, or of an operand; behind an expression, which
    may be followed by a point or a bracket or be complete; or at the end. -/
inductive State where
  | start
  | expect (t : Token) (ts : List Token) (next : State)
  | param (name : String) (front : List String)
  | paramEnd (name : String) (front : List String)
  | statement (r : Region)
  | declared (r : Region)
  | caught (r : Region) (body : List Stmt)
  | operand (k : Slot)
  | arguments (f : Expr) (k : Slot)
  | negative (k : Slot)
  | behind (e : Expr) (k : Slot)
  | field (e : Expr) (k : Slot)
  | complete (e : Expr) (k : Slot)
  | finished (p : Property)

namespace State

/-- In front of some fixed tokens. -/
def awaiting : List Token → State → State
  | [], next => next
  | t :: ts, next => .expect t ts next

/-- In front of the body of a property. -/
def opened (name : String) (xs : List String) : State :=
  awaiting [.mark '\x7b'] (.statement (.body name xs []))

/-- Behind a brace that ends a region. -/
def closed : Region → State
  | .body name xs front => awaiting [.mark ','] (.finished ⟨name, xs, front⟩)
  | .tried outer front => awaiting [.word "catch", .mark '('] (.caught outer front)
  | .handler outer region x front => .statement (outer.more [.attempt region x front])

end State

/-! ## 3. Steps -/

/-- What can be assigned to. -/
def Expr.isTarget : Expr → Bool
  | .name _ | .member _ _ | .item _ _ => true
  | _ => false

/-- An expression with what stands in front of it in a sum, and its place. -/
def Slot.settle : Slot → Expr → Expr × Slot
  | .summand a k, e => (.sum a e, k)
  | k, e => (e, k)

/-- A mark behind an expression that stands at a place, and is no summand any more. -/
def Slot.mark? : Slot → Expr → Char → Option State
  | .first r, e, c =>
    if c = ';' then some (.statement (r.more [.run e]))
    else if c = '=' ∧ e.isTarget then some (.operand (.assigned e r))
    else none
  | .value x r, e, c => if c = ';' then some (.statement (r.more [.declare x e])) else none
  | .assigned t r, e, c => if c = ';' then some (.statement (r.more [.assign t e])) else none
  | .given r, e, c => if c = ';' then some (.statement (r.more [.give e])) else none
  | .summand _ _, _, _ => none
  | .key b k, e, c => if c = ']' then some (.behind (.item b e) k) else none
  | .argument f front k, e, c =>
    if c = ',' then some (.operand (.argument f (front ++ [e]) k))
    else if c = ')' then some (.behind (.call f (front ++ [e])) k)
    else none

/-- A mark behind an expression: the sign of a sum, or what ends the expression. -/
def Slot.close? (k : Slot) (e : Expr) (c : Char) : Option State :=
  let (e, k) := k.settle e
  if c = '+' then some (.operand (.summand e k)) else k.mark? e c

/-- An operand begins. -/
def Slot.operand? (k : Slot) : Token → Option State
  | .word w =>
    if isFree w then some (.behind (.name w) k)
    else (number? w).map fun n : Nat => .complete (.number n) k
  | .literal s => some (.complete (.text s) k)
  | .mark c => if c = '-' then some (.negative k) else none

/-- **What a token makes of a state**, if it may come there. -/
def State.step : State → Token → Option State
  | .start, .word name =>
    if Ident.isIdentifier name then
      some (awaiting [.mark ':', .word "function", .mark '('] (.param name []))
    else none
  | .expect t ts next, u => if u = t then some (awaiting ts next) else none
  | .param name front, .word x => if isFree x then some (.paramEnd name (front ++ [x])) else none
  | .param name front, .mark c => if c = ')' ∧ front.isEmpty then some (opened name []) else none
  | .paramEnd name front, .mark c =>
    if c = ',' then some (.param name front)
    else if c = ')' then some (opened name front)
    else none
  | .statement r, .mark c => if c = '\x7d' then some (closed r) else none
  | .statement r, .word w =>
    if w = "var" then some (.declared r)
    else if w = "return" then some (.operand (.given r))
    else if w = "try" then some (awaiting [.mark '\x7b'] (.statement (.tried r [])))
    else if isFree w then some (.behind (.name w) (.first r))
    else none
  | .declared r, .word x =>
    if isFree x then some (awaiting [.mark '='] (.operand (.value x r))) else none
  | .caught r body, .word x =>
    if isFree x then some (awaiting [.mark ')', .mark '\x7b'] (.statement (.handler r body x [])))
    else none
  | .operand k, t => k.operand? t
  | .arguments f k, t =>
    if t = .mark ')' then some (.behind (.call f []) k) else (Slot.argument f [] k).operand? t
  | .negative k, .word w =>
    match number? w with
    | some (n + 1) => some (.complete (.number (Int.negSucc n)) k)
    | _ => none
  | .behind e k, .mark c =>
    if c = '.' then some (.field e k)
    else if c = '[' then some (.operand (.key e k))
    else if c = '(' then some (.arguments e k)
    else k.close? e c
  | .field e k, .word x => if Ident.isIdentifier x then some (.behind (.member e x) k) else none
  | .complete e k, .mark c => k.close? e c
  | _, _ => none

/-- What some tokens make of a state. -/
def State.run (s : State) (ts : List Token) : Option State := ts.foldlM step s

/-- The property that a state holds at the end. -/
def State.property? : State → Option Property
  | .finished p => some p
  | _ => none

/-- **The property that a text is**, if it is one. -/
def read? (text : String) : Option Property :=
  if unbroken text then (State.start.run (Text.tokens text.toList)).bind State.property? else none

/-! ## 4. Readable programs -/

/-- What an expression may be: an operand that a point or a bracket may follow, a term of a sum, or any
    expression. -/
inductive Rank where
  | operand
  | term
  | any

mutual

/-- An expression that is written so that it is read back, where one of a rank is read. -/
def Expr.Readable : Expr → Rank → Prop
  | .name x, _ => isFree x = true
  | .text _, rank | .number _, rank => rank ≠ .operand
  | .member e field, _ => e.Readable .operand ∧ Ident.isIdentifier field = true
  | .item e key, _ => e.Readable .operand ∧ key.Readable .any
  | .call f args, _ => f.Readable .operand ∧ Expr.AllReadable args
  | .sum a b, rank => rank = .any ∧ a.Readable .any ∧ b.Readable .term
  | .construct _ _, _ | .list _, _ | .lambda _ _, _ => False
termination_by structural e => e

/-- Arguments that are read back. -/
def Expr.AllReadable : List Expr → Prop
  | [] => True
  | e :: es => e.Readable .any ∧ Expr.AllReadable es
termination_by structural es => es

end

mutual

/-- A statement that is read back. -/
def Stmt.Readable : Stmt → Prop
  | .run e => e.Readable .operand
  | .declare x e => isFree x = true ∧ e.Readable .any
  | .assign target e => target.isTarget = true ∧ target.Readable .operand ∧ e.Readable .any
  | .give e => e.Readable .any
  | .attempt body caught handler =>
    Stmt.AllReadable body ∧ isFree caught = true ∧ Stmt.AllReadable handler
  | .declareFunction _ _ _ | .choose _ _ => False
termination_by structural s => s

/-- Statements that are read back. -/
def Stmt.AllReadable : List Stmt → Prop
  | [] => True
  | s :: ss => s.Readable ∧ Stmt.AllReadable ss
termination_by structural ss => ss

end

/-- A property that is read back. -/
structure Property.Readable (p : Property) : Prop where
  named : p.Named
  params : ∀ x ∈ p.params, isFree x = true
  body : Stmt.AllReadable p.body

theorem Expr.readable_name {x : String} (h : isFree x = true) (rank : Rank) :
    (Expr.name x).Readable rank := h

theorem Expr.allReadable_names : ∀ {xs : List String}, (∀ x ∈ xs, isFree x = true) →
    Expr.AllReadable (Expr.names xs)
  | [], _ => trivial
  | x :: _, h =>
      ⟨h x List.mem_cons_self, Expr.allReadable_names fun y hy => h y (List.mem_cons_of_mem x hy)⟩

theorem Expr.readable_foldl_member : ∀ (fields : List String) (e : Expr), e.Readable .operand →
    (∀ f ∈ fields, Ident.isIdentifier f = true) → (fields.foldl .member e).Readable .operand
  | [], _, he, _ => he
  | f :: fields, e, he, h =>
      Expr.readable_foldl_member fields (.member e f) ⟨he, h f List.mem_cons_self⟩
        fun g hg => h g (List.mem_cons_of_mem f hg)

/-- A path is an operand if its root is no reserved word. -/
theorem Expr.readable_ofPath {path : String} (h : Ident.IsPath path)
    (hroot : Ident.isReserved (Ident.rootSegment path) = false) :
    (Expr.ofPath path).Readable .operand := by
  obtain ⟨root, fields, e⟩ := h.segments
  have hall := h.identifiers
  rw [e] at hall
  rw [Ident.pathSegments_head e] at hroot
  rw [Expr.ofPath_eq e]
  exact Expr.readable_foldl_member fields (.name root)
    (isFree_iff.mpr ⟨hall root List.mem_cons_self, hroot⟩)
    fun f hf => hall f (List.mem_cons_of_mem root hf)

theorem Stmt.allReadable_append : ∀ {as bs : List Stmt}, Stmt.AllReadable as →
    Stmt.AllReadable bs → Stmt.AllReadable (as ++ bs)
  | [], _, _, hb => hb
  | _ :: _, _, ha, hb => ⟨ha.1, Stmt.allReadable_append ha.2 hb⟩

theorem Stmt.allReadable_map {α : Type} {f : α → Stmt} : ∀ {xs : List α},
    (∀ x ∈ xs, (f x).Readable) → Stmt.AllReadable (xs.map f)
  | [], _ => trivial
  | x :: _, h =>
      ⟨h x List.mem_cons_self, Stmt.allReadable_map fun y hy => h y (List.mem_cons_of_mem x hy)⟩

/-! ## 5. Runs -/

namespace State

variable {s s' : State} {t : Token} {ts us : List Token}

theorem run_singleton (s : State) (t : Token) : s.run [t] = s.step t := by
  rw [run, List.foldlM_cons, Option.bind_eq_bind]
  exact Option.bind_fun_some (s.step t)

/-- What a state is behind some tokens reads those that follow. -/
theorem run_append (h : s.run ts = some s') : s.run (ts ++ us) = s'.run us := by
  rw [run, List.foldlM_append, ← run, h]
  rfl

theorem run_cons (h : s.step t = some s') : s.run (t :: ts) = s'.run ts := by
  rw [run, List.foldlM_cons, h]
  rfl

/-- Fixed tokens are read where they must come. -/
theorem run_awaiting (next : State) : ∀ ts : List Token, (awaiting ts next).run ts = some next
  | [] => rfl
  | t :: ts => by
      have hstep : step (.expect t ts next) t = some (awaiting ts next) := if_pos rfl
      exact (run_cons hstep).trans (run_awaiting next ts)

end State

/-! ## 6. Names and numbers -/

/-- A free name is none of the words of a statement. -/
theorem ne_of_isFree {x w : String} (hx : isFree x = true) (hw : Ident.isReserved w = true) :
    x ≠ w := by
  rintro rfl
  rw [(isFree_iff.mp hx).2] at hw
  cases hw

theorem number?_toDigits (n : Nat) : number? (String.ofList (Nat.toDigits 10 n)) = some n := by
  rw [number?, String.toList_ofList, Digits.number_toDigits (by decide) (by decide)]
  exact if_pos rfl

/-- Digits are no name. -/
theorem isFree_toDigits (n : Nat) : isFree (String.ofList (Nat.toDigits 10 n)) = false := by
  obtain ⟨c, rest, hfirst, hdigit⟩ := Digits.exists_toDigits n
  rw [isFree, Ident.isIdentifier, String.toList_ofList, hfirst, Ident.spellsIdentifier,
    Ident.isStart_of_isDigit hdigit, Bool.false_and, Bool.false_and]

/-! ## 7. Expressions -/

/-- The marks that come behind an expression of its own. -/
def closers : List Char := ['+', ',', ')', ']', ';']

/-- A place at which no sum is unfinished. -/
def Slot.Settled (k : Slot) : Prop := ∀ e, k.settle e = (e, k)

/-- Tokens that are read as an operand, which a point or a bracket may follow. -/
def Taken (ts : List Token) (e : Expr) : Prop :=
  ∀ k, (State.operand k).run ts = some (.behind e k)

/-- Tokens that are read as an expression where a mark comes behind it, at a place. -/
def Ended (ts : List Token) (e : Expr) (k : Slot) : Prop :=
  ∀ c ∈ closers, (State.operand k).run (ts ++ [.mark c]) = k.close? e c

theorem Slot.close?_plus {k : Slot} (hk : k.Settled) (e : Expr) :
    k.close? e '+' = some (.operand (.summand e k)) := by
  rw [Slot.close?, hk e]
  rfl

/-- What ends a summand ends the sum. -/
theorem Slot.close?_summand {k : Slot} (hk : k.Settled) (a b : Expr) (c : Char) :
    (Slot.summand a k).close? b c = k.close? (.sum a b) c := by
  rw [Slot.close?, Slot.close?, hk (.sum a b)]
  rfl

/-- An argument in front of a comma, and the last one. -/
theorem Slot.close?_argument (f : Expr) (front : List Expr) (k : Slot) (e : Expr) :
    (Slot.argument f front k).close? e ',' = some (.operand (.argument f (front ++ [e]) k)) ∧
      (Slot.argument f front k).close? e ')' = some (.behind (.call f (front ++ [e])) k) :=
  ⟨rfl, rfl⟩

theorem Slot.settled_argument (f : Expr) (front : List Expr) (k : Slot) :
    (Slot.argument f front k).Settled := fun _ => rfl

section Tokens

variable {ts us : List Token} {e f key : Expr} {k : Slot}

theorem taken_name {x : String} (h : isFree x = true) : Taken [.word x] (.name x) := fun _ =>
  (State.run_singleton _ _).trans (if_pos h)

theorem Taken.member (h : Taken ts e) {field : String} (hf : Ident.isIdentifier field = true) :
    Taken (ts ++ [.mark '.'] ++ [.word field]) (.member e field) := by
  intro k
  rw [List.append_assoc, State.run_append (h k)]
  show (State.behind e k).run [.mark '.', .word field] = _
  rw [State.run_cons rfl, State.run_singleton]
  exact if_pos hf

theorem Taken.item (h : Taken ts e) (hkey : ∀ k, Ended us key (.key e k)) :
    Taken (ts ++ [.mark '['] ++ us ++ [.mark ']']) (.item e key) := by
  intro k
  have hopen : (State.behind e k).run ([.mark '['] ++ (us ++ [.mark ']'])) =
      (State.operand (.key e k)).run (us ++ [.mark ']']) := State.run_cons rfl
  rw [List.append_assoc, List.append_assoc, State.run_append (h k), hopen, hkey k ']' (by decide)]
  rfl

/-- Where no argument need come, the first one is read as anywhere. -/
theorem run_arguments {t : Token} {s : State}
    (h : (State.operand (.argument f [] k)).run (t :: ts) = some s) :
    (State.arguments f k).run (t :: ts) = some s := by
  have hstep : State.step (.arguments f k) t = State.step (.operand (.argument f [] k)) t := by
    refine if_neg ?_
    rintro rfl
    cases h
  rw [State.run, List.foldlM_cons, hstep]
  exact h

/-- Arguments are read one after another, up to the bracket behind the last. -/
theorem run_argument (f : Expr) (k : Slot) : ∀ {tss : List (List Token)} {es : List Expr},
    List.Forall₂ (fun ts e => ∀ k : Slot, k.Settled → Ended ts e k) tss es → es ≠ [] →
    ∀ front, (State.operand (.argument f front k)).run (commaTokens tss ++ [.mark ')']) =
      some (.behind (.call f (front ++ es)) k)
  | _, _, .nil, hne, _ => absurd rfl hne
  | _, _, .cons h .nil, _, front => by
      rw [commaTokens, List.intercalate_singleton,
        h _ (Slot.settled_argument f front k) ')' (by decide)]
      exact (Slot.close?_argument f front k _).2
  | ts :: us :: tss, e :: e' :: es, .cons h (.cons h' hs), _, front => by
      have ih := run_argument f k (.cons h' hs) (List.cons_ne_nil e' es) (front ++ [e])
      have hfirst := h _ (Slot.settled_argument f front k) ',' (by decide)
      rw [(Slot.close?_argument f front k e).1] at hfirst
      rw [commaTokens, List.intercalate_cons_cons, List.append_assoc,
        State.run_append hfirst, ← commaTokens, ih, List.append_assoc, List.singleton_append]

theorem Taken.call (h : Taken ts f) {tss : List (List Token)} {es : List Expr}
    (hs : List.Forall₂ (fun ts e => ∀ k : Slot, k.Settled → Ended ts e k) tss es) :
    Taken (ts ++ [.mark '('] ++ commaTokens tss ++ [.mark ')']) (.call f es) := by
  intro k
  have hopen : ∀ us : List Token, (State.behind f k).run ([.mark '('] ++ us) =
      (State.arguments f k).run us := fun _ => State.run_cons rfl
  rw [List.append_assoc, List.append_assoc, State.run_append (h k), hopen]
  cases hs with
  | nil => rfl
  | cons h hs =>
    have hall := run_argument f k (.cons h hs) (List.cons_ne_nil _ _) []
    cases hts : commaTokens _ ++ [Token.mark ')'] with
    | nil => exact absurd hts (List.append_ne_nil_of_right_ne_nil _ (List.cons_ne_nil _ _))
    | cons t us =>
      rw [hts] at hall
      exact run_arguments hall

theorem Taken.ended (h : Taken ts e) (k : Slot) : Ended ts e k := by
  intro c hc
  have hpoint : c ≠ '.' ∧ c ≠ '[' ∧ c ≠ '(' := by
    simp only [closers, List.mem_cons, List.not_mem_nil, or_false] at hc
    obtain rfl | rfl | rfl | rfl | rfl := hc <;> decide
  rw [State.run_append (h k), State.run_singleton]
  simp only [State.step, hpoint, if_false]

/-- What no point and no bracket may follow. -/
theorem ended_of_complete (h : (State.operand k).run ts = some (.complete e k)) : Ended ts e k := by
  intro c _
  rw [State.run_append h, State.run_singleton]
  rfl

theorem ended_number (n : Int) (k : Slot) : Ended (numberTokens n) (.number n) k := by
  refine ended_of_complete ?_
  unfold numberTokens
  split
  · rename_i hneg
    obtain ⟨m, rfl⟩ := Int.eq_negSucc_of_lt_zero hneg
    have hminus : (State.operand k).step (.mark '-') = some (.negative k) := rfl
    rw [List.singleton_append, State.run_cons hminus, State.run_singleton, Int.natAbs_negSucc]
    simp only [State.step, number?_toDigits]
  · rename_i hpos
    have hn : ((n.natAbs : Nat) : Int) = n := by omega
    rw [State.run_singleton, State.step, Slot.operand?, isFree_toDigits, number?_toDigits,
      Option.map_some, if_neg Bool.false_ne_true]
    exact congrArg (fun n => some (State.complete (.number n) k)) hn

theorem Ended.sum {a b : Expr} (hk : k.Settled) (ha : Ended ts a k)
    (hb : Ended us b (.summand a k)) : Ended (ts ++ [.mark '+'] ++ us) (.sum a b) k := by
  intro c hc
  have hplus := ha '+' (by decide)
  rw [Slot.close?_plus hk] at hplus
  rw [List.append_assoc, State.run_append hplus, hb c hc, Slot.close?_summand hk]

end Tokens

mutual

/-- **A readable operand is read back.** -/
theorem Expr.taken : ∀ e : Expr, e.Readable .operand → Taken e.tokens e
  | .name _, h => taken_name h
  | .text _, h | .number _, h => absurd rfl h
  | .member e _, h => (e.taken h.1).member h.2
  | .item e key, h => (e.taken h.1).item fun _ => key.ended .any h.2 _ fun _ _ => rfl
  | .call f args, h => (f.taken h.1).call (Expr.endedAll args h.2)
  | .sum _ _, h => nomatch h.1

/-- **A readable expression is read back**, up to a mark that ends it. -/
theorem Expr.ended : ∀ (e : Expr) (rank : Rank), e.Readable rank →
    ∀ k : Slot, (rank = .any → k.Settled) → Ended e.tokens e k
  | .name _, _, h, k, _ => (taken_name h).ended k
  | .text _, _, _, _, _ => ended_of_complete rfl
  | .number n, _, _, k, _ => ended_number n k
  | .member e _, _, h, k, _ => ((e.taken h.1).member h.2).ended k
  | .item e key, _, h, k, _ =>
      ((e.taken h.1).item fun _ => key.ended .any h.2 _ fun _ _ => rfl).ended k
  | .call f args, _, h, k, _ => ((f.taken h.1).call (Expr.endedAll args h.2)).ended k
  | .sum a b, _, h, k, hk =>
      .sum (hk h.1) (a.ended .any h.2.1 k fun _ => hk h.1) (b.ended .term h.2.2 _ nofun)

theorem Expr.endedAll : ∀ es : List Expr, Expr.AllReadable es →
    List.Forall₂ (fun ts e => ∀ k : Slot, k.Settled → Ended ts e k) (Expr.tokensAll es) es
  | [], _ => .nil
  | e :: es, h => .cons (fun k hk => e.ended .any h.1 k fun _ => hk) (Expr.endedAll es h.2)

end

/-! ## 8. Statements -/

theorem Region.more_nil (r : Region) : r.more [] = r := by
  cases r <;> exact congrArg _ (List.append_nil _)

theorem Region.more_append (r : Region) (as bs : List Stmt) :
    (r.more as).more bs = r.more (as ++ bs) := by
  cases r <;> exact congrArg _ (List.append_assoc ..)

/-- A readable operand begins with a name. -/
theorem Expr.exists_tokens : ∀ e : Expr, e.Readable .operand →
    ∃ x ts, e.tokens = .word x :: ts ∧ isFree x = true
  | .name x, h => ⟨x, [], rfl, h⟩
  | .text _, h | .number _, h => absurd rfl h
  | .member e _, h | .item e _, h | .call e _, h => by
      obtain ⟨x, ts, htokens, hx⟩ := e.exists_tokens h.1
      exact ⟨x, _, by rw [Expr.tokens, htokens]; rfl, hx⟩
  | .sum _ _, h => nomatch h.1

/-- A statement that begins with an operand is read as one. -/
theorem run_first {e : Expr} (h : e.Readable .operand) (r : Region) :
    (State.statement r).run e.tokens = some (.behind e (.first r)) := by
  obtain ⟨x, ts, htokens, hx⟩ := e.exists_tokens h
  have hstep : (State.statement r).step (.word x) = (State.operand (.first r)).step (.word x) := by
    have hvar : x ≠ "var" := ne_of_isFree hx (by decide)
    have hreturn : x ≠ "return" := ne_of_isFree hx (by decide)
    have htry : x ≠ "try" := ne_of_isFree hx (by decide)
    simp only [State.step, Slot.operand?, hvar, hreturn, htry, hx, if_true, if_false]
  rw [← e.taken h (.first r), htokens, State.run, State.run, List.foldlM_cons, List.foldlM_cons,
    hstep]

/-- What is read up to a semicolon. -/
theorem run_semicolon {e : Expr} {k : Slot} {s : State} (h : e.Readable .any) (hk : k.Settled)
    (hs : k.close? e ';' = some s) :
    (State.operand k).run (e.tokens ++ [.mark ';']) = some s :=
  (e.ended .any h k (fun _ => hk) ';' (by decide)).trans hs

mutual

/-- **A readable statement is read back.** -/
theorem Stmt.run_tokens : ∀ s : Stmt, s.Readable → ∀ r : Region,
    (State.statement r).run s.tokens = some (.statement (r.more [s]))
  | .run e, h, r => by
      rw [Stmt.tokens, State.run_append (run_first h r), State.run_singleton]
      rfl
  | .declare x e, h, r => by
      have hx : (State.declared r).step (.word x) =
          some (.awaiting [.mark '='] (.operand (.value x r))) := if_pos h.1
      have hvalue := @run_semicolon e (.value x r) _ h.2 (fun _ => rfl) rfl
      rw [Stmt.tokens]
      simp only [List.append_assoc]
      show (State.statement r).run (.word "var" :: .word x :: ([.mark '='] ++ _)) = _
      rw [State.run_cons rfl, State.run_cons hx, State.run_append (State.run_awaiting _ _)]
      exact hvalue
  | .assign target e, h, r => by
      have hassign : (State.behind target (.first r)).step (.mark '=') =
          some (.operand (.assigned target r)) := if_pos ⟨rfl, h.1⟩
      have hvalue := @run_semicolon e (.assigned target r) _ h.2.2 (fun _ => rfl) rfl
      rw [Stmt.tokens]
      simp only [List.append_assoc]
      rw [State.run_append (run_first h.2.1 r), List.singleton_append, State.run_cons hassign]
      exact hvalue
  | .give e, h, r => by
      rw [Stmt.tokens, List.append_assoc, List.singleton_append, State.run_cons rfl]
      exact @run_semicolon e (.given r) _ h (fun _ => rfl) rfl
  | .attempt body x handler, h, r => by
      have hbody := Stmt.run_tokensAll body h.1 (.tried r [])
      have hhandler := Stmt.run_tokensAll handler h.2.2 (.handler r body x [])
      have hx : (State.caught r body).step (.word x) =
          some (.awaiting [.mark ')', .mark '\x7b'] (.statement (.handler r body x []))) :=
        if_pos h.2.1
      have hcatch : State.closed ((Region.tried r []).more body) =
          .awaiting [.word "catch", .mark '('] (.caught r body) := rfl
      rw [Stmt.tokens]
      simp only [List.append_assoc]
      show (State.statement r).run (.word "try" :: ([.mark '\x7b'] ++ (_ ++ (.mark '\x7d' ::
        ([.word "catch", .mark '('] ++ (.word x :: ([.mark ')', .mark '\x7b'] ++ _))))))) = _
      rw [State.run_cons rfl, State.run_append (State.run_awaiting _ _), State.run_append hbody,
        State.run_cons rfl, hcatch, State.run_append (State.run_awaiting _ _), State.run_cons hx,
        State.run_append (State.run_awaiting _ _), State.run_append hhandler,
        State.run_singleton]
      rfl

/-- Readable statements are read back one after another. -/
theorem Stmt.run_tokensAll : ∀ ss : List Stmt, Stmt.AllReadable ss → ∀ r : Region,
    (State.statement r).run (Stmt.tokensAll ss) = some (.statement (r.more ss))
  | [], _, r => by rw [Region.more_nil]; rfl
  | s :: ss, h, r => by
      have ih := Stmt.run_tokensAll ss h.2 (r.more [s])
      rw [Region.more_append] at ih
      rw [Stmt.tokensAll, State.run_append (s.run_tokens h.1 r)]
      exact ih

end

/-! ## 9. Properties -/

/-- Parameters are read one after another, up to the bracket behind the last. -/
theorem run_params (name : String) : ∀ {xs : List String}, (∀ x ∈ xs, isFree x = true) →
    ∀ front, (xs = [] → front = []) →
      (State.param name front).run (commaTokens (xs.map fun x => [.word x]) ++ [.mark ')']) =
        some (.opened name (front ++ xs))
  | [], _, _, hne => by
      rw [hne rfl]
      rfl
  | [x], h, front, _ => by
      have hx : (State.param name front).step (.word x) = some (.paramEnd name (front ++ [x])) :=
        if_pos (h x List.mem_cons_self)
      exact (State.run_cons hx).trans rfl
  | x :: y :: xs, h, front, _ => by
      have hx : (State.param name front).step (.word x) = some (.paramEnd name (front ++ [x])) :=
        if_pos (h x List.mem_cons_self)
      have ih := run_params name (fun z hz => h z (List.mem_cons_of_mem x hz)) (front ++ [x])
        (fun hnil => absurd hnil (List.cons_ne_nil y xs))
      rw [List.append_assoc, List.singleton_append, commaTokens, List.map_cons] at ih
      rw [List.map_cons, List.map_cons, commaTokens, List.intercalate_cons_cons, List.append_assoc,
        List.append_assoc, List.singleton_append, State.run_cons hx, List.singleton_append,
        State.run_cons rfl, ih]

/-- **The tokens of a readable property are read back.** -/
theorem Property.run_tokens {p : Property} (h : p.Readable) :
    State.start.run (.word p.name :: p.tokens) = some (.finished p) := by
  have hname : State.start.step (.word p.name) =
      some (.awaiting [.mark ':', .word "function", .mark '('] (.param p.name [])) :=
    if_pos h.named.name
  have hparams := run_params p.name h.params [] fun _ => rfl
  rw [List.nil_append] at hparams
  have hbody := Stmt.run_tokensAll p.body h.body (.body p.name p.params [])
  have hend : State.closed ((Region.body p.name p.params []).more p.body) =
      .awaiting [.mark ','] (.finished p) := rfl
  rw [Property.tokens, headTokens]
  simp only [List.append_assoc]
  show State.start.run (.word p.name :: ([.mark ':', .word "function", .mark '('] ++ (_ ++
    ([.mark ')'] ++ ([.mark '\x7b'] ++ (_ ++ (.mark '\x7d' :: [.mark ',']))))))) = _
  rw [State.run_cons hname, State.run_append (State.run_awaiting _ _), ← List.append_assoc,
    State.run_append hparams, State.opened, State.run_append (State.run_awaiting _ _),
    State.run_append hbody, State.run_cons rfl, hend]
  exact State.run_awaiting _ _

/-! ## 10. Texts -/

/-- A text that ends in a character that lines end in. -/
def EndsLine (text : String) : Prop := ∃ c ∈ lineEnds, text.toList.getLast? = some c

theorem EndsLine.append {b : String} (h : EndsLine b) (a : String) : EndsLine (a ++ b) := by
  obtain ⟨c, hc, hlast⟩ := h
  refine ⟨c, hc, ?_⟩
  rw [String.toList_append, List.getLast?_append, hlast]
  rfl

theorem endsLine_semicolon : EndsLine ";" := ⟨';', by decide, rfl⟩

theorem endsLine_openLine (header : String) : EndsLine (openLine header) := by
  have hbrace : EndsLine "\x7b" := ⟨'\x7b', by decide, rfl⟩
  have hblank : EndsLine " \x7b" := ⟨'\x7b', by decide, rfl⟩
  unfold openLine
  split
  · exact hbrace
  · exact hblank.append header

/-- Trees of code whose lines end so. -/
def CodeEnds (cs : List Code) : Prop := ∀ d, ∀ l ∈ Code.bodyLines d cs, EndsLine l.content

namespace CodeEnds

theorem append {as bs : List Code} (ha : CodeEnds as) (hb : CodeEnds bs) : CodeEnds (as ++ bs) := by
  intro d l hl
  rw [Code.bodyLines_append] at hl
  exact (List.mem_append.mp hl).elim (ha d l) (hb d l)

theorem line {content : String} (h : EndsLine content) : CodeEnds [.line content] := by
  intro d l hl
  rw [List.mem_singleton.mp hl]
  exact h

theorem lines {α : Type} {f : α → String} (h : ∀ x, EndsLine (f x)) (xs : List α) :
    CodeEnds (xs.map fun x => .line (f x)) := by
  induction xs with
  | nil => exact fun _ _ hl => absurd hl List.not_mem_nil
  | cons x xs ih => exact (line (h x)).append ih

theorem block {suffix : String} {body : List Code} (header : String)
    (hs : EndsLine (closeLine suffix)) (hb : CodeEnds body) :
    CodeEnds [.block header suffix body] := by
  intro d l hl
  rw [Code.bodyLines, Code.bodyLines, List.append_nil, Code.lines] at hl
  rcases List.mem_append.mp hl with hl | hl
  · rcases List.mem_cons.mp hl with rfl | hl
    · exact endsLine_openLine header
    · exact hb (d + 1) l hl
  · rw [List.mem_singleton.mp hl]
    exact hs

end CodeEnds

mutual

/-- Every line of a statement ends with a semicolon or a brace. -/
theorem Stmt.ends_code : ∀ s : Stmt, CodeEnds s.code
  | .run _ | .declare _ _ | .assign _ _ | .give _ => .line (endsLine_semicolon.append _)
  | .attempt body _ handler =>
      (CodeEnds.block _ ⟨'\x7d', by decide, rfl⟩ (Stmt.ends_bodyCode body)).append
        (.block _ ⟨'\x7d', by decide, rfl⟩ (Stmt.ends_bodyCode handler))
  | .declareFunction _ _ body => .block _ ⟨';', by decide, rfl⟩ (Stmt.ends_bodyCode body)
  | .choose _ cases =>
      .block _ ⟨'\x7d', by decide, rfl⟩ (.lines (fun _ => endsLine_semicolon.append _) cases)

theorem Stmt.ends_bodyCode : ∀ ss : List Stmt, CodeEnds (Stmt.bodyCode ss)
  | [] => fun _ _ hl => absurd hl List.not_mem_nil
  | s :: ss => s.ends_code.append (Stmt.ends_bodyCode ss)

end

/-- No statement of a well-named property is broken off by the end of its line. -/
theorem Property.unbroken_code {p : Property} (h : p.Named) (d : Nat) :
    unbroken (Line.join (p.code.lines d)) = true := by
  have hlines : (p.code.lines d) = Code.bodyLines d [p.code] := (List.append_nil _).symm
  have hends : CodeEnds [p.code] := .block _ ⟨',', by decide, rfl⟩ (Stmt.ends_bodyCode p.body)
  rw [unbroken, hlines, Line.lines_join (p.solid_code h d), List.all_map, List.all_eq_true]
  intro l hl
  obtain ⟨c, hc, hlast⟩ := hends d l hl
  rw [Function.comp_apply, List.getLast?_append, hlast]
  exact List.contains_iff_mem.mpr hc

/-- **A readable property is read back from its text**, at any depth. So no other one is written as the
    same text. -/
theorem Property.read?_code {p : Property} (h : p.Readable) (d : Nat) :
    read? (Line.join (p.code.lines d)) = some p := by
  rw [read?, if_pos (p.unbroken_code h.named d), p.tokens_code h.named d, p.run_tokens h]
  rfl

-- A reserved word is called like no function, and what is returned stands on the line of `return`.
example :
    (read? "f: function (x) \x7b\n x = decode(x);\n return x;\n\x7d,\n").isSome = true ∧
    (read? "f: function (x) \x7b\n x = delete(x);\n return x;\n\x7d,\n").isSome = false ∧
    (read? "f: function (x) \x7b\n x = decode(x);\n return\n x;\n\x7d,\n").isSome = false := by
  decide +kernel

end HostGlue.Script
