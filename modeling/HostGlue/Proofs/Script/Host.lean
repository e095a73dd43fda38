import HostGlue.Script

/-!
# Running a program over a host

What a program does is decided by its host: what a name of the host stands for, what a property holds,
what a call gives. Nothing is known of the host here; whatever it is asked, it may answer with any
value or throw one. This file fixes

* `Action`, what a host is asked for, `Event`, what was asked and answered, and `Host`;
* `Expr.eval` and `Stmt.exec`, which run a program on its variables and the host;
* `Property.enter` and `Property.run`, a call of a property with some values.

A function of the program is a value the host is asked for. What the host does with it later is not
described, so nothing is said here of variables that such a function changes.
-/

namespace HostGlue.Script

/-! ## 1. Hosts -/

/-- What a host is asked for. A call has a receiver besides its arguments. -/
inductive Action (V : Type) where
  | global (x : String)
  | member (object : V) (field : String)
  | item (object key : V)
  | call (function receiver : V) (args : List V)
  | construct (function : V) (args : List V)
  | sum (a b : V)
  | list (items : List V)
  | function (params : List String) (body : List Stmt)
  | putGlobal (x : String) (value : V)
  | putMember (object : V) (field : String) (value : V)
  | putItem (object key value : V)

/-- What happened at an expression of a program: what the host was asked, and the value it gave or
    threw. -/
structure Event (V : Type) where
  expr : Expr
  action : Action V
  answer : Except V V

/-- The expression through which an event is a call. -/
def Event.callee? {V : Type} (ev : Event V) : Option Expr :=
  match ev.expr with
  | .call f _ => some f
  | _ => none

/-- A host. Its answers may depend on all that happened before, so they follow no rule at all. -/
structure Host (V : Type) where
  undefined : V
  text : String → V
  number : Int → V
  fits : V → Int → Bool
  answer : List (Event V) → Action V → Except V V

/-- A running program: the values of its variables, where a name that has none is one of the host,
    and what happened so far. -/
structure Machine (V : Type) where
  vars : String → Option V
  history : List (Event V)

variable {V α β : Type}

namespace Machine

/-- A machine on which more has happened. -/
def extend (m : Machine V) (evs : List (Event V)) : Machine V :=
  { m with history := m.history ++ evs }

/-- A machine with a variable set. -/
def set (m : Machine V) (x : String) (v : V) : Machine V :=
  { m with vars := fun y => if y = x then some v else m.vars y }

/-- A machine with a variable as it was at another time. -/
def restore (m : Machine V) (x : String) (old : Option V) : Machine V :=
  { m with vars := fun y => if y = x then old else m.vars y }

end Machine

/-! ## 2. Evaluation -/

/-- A computation that goes on with a value, or throws one. -/
abbrev Eval (V α : Type) := Machine V → Machine V × Except V α

namespace Eval

/-- The computation that only has a value. -/
def just (a : α) : Eval V α := fun m => (m, .ok a)

/-- One computation after another, up to the first that throws. -/
def andThen (x : Eval V α) (f : α → Eval V β) : Eval V β := fun m =>
  match x m with
  | (after, .ok a) => f a after
  | (after, .error thrown) => (after, .error thrown)

end Eval

/-- Asks the host for something at an expression. -/
def Host.ask (H : Host V) (e : Expr) (action : Action V) : Eval V V := fun m =>
  let answer := H.answer m.history action
  (m.extend [⟨e, action, answer⟩], answer)

/-- A value, and the receiver that a call of it has. -/
structure Ref (V : Type) where
  value : V
  receiver : V

/-- A value without a receiver. -/
def Host.plain (H : Host V) (v : V) : Ref V := ⟨v, H.undefined⟩

mutual

/-- The value of an expression. Parts are evaluated from left to right, what is called before its
    arguments. -/
def Expr.eval (H : Host V) : Expr → Eval V (Ref V)
  | .name x => fun m =>
    match m.vars x with
    | some v => (m, .ok (H.plain v))
    | none => (H.ask (.name x) (.global x)).andThen (fun v => .just (H.plain v)) m
  | .text value => .just (H.plain (H.text value))
  | .number n => .just (H.plain (H.number n))
  | .member e field => (Expr.eval H e).andThen fun object =>
    (H.ask (.member e field) (.member object.value field)).andThen fun v => .just ⟨v, object.value⟩
  | .item e key => (Expr.eval H e).andThen fun object => (Expr.eval H key).andThen fun k =>
    (H.ask (.item e key) (.item object.value k.value)).andThen fun v => .just ⟨v, object.value⟩
  | .call f args => (Expr.eval H f).andThen fun g => (Expr.evalAll H args).andThen fun vs =>
    (H.ask (.call f args) (.call g.value g.receiver vs)).andThen fun v => .just (H.plain v)
  | .construct f args => (Expr.eval H f).andThen fun g => (Expr.evalAll H args).andThen fun vs =>
    (H.ask (.construct f args) (.construct g.value vs)).andThen fun v => .just (H.plain v)
  | .sum a b => (Expr.eval H a).andThen fun v => (Expr.eval H b).andThen fun w =>
    (H.ask (.sum a b) (.sum v.value w.value)).andThen fun u => .just (H.plain u)
  | .list items => (Expr.evalAll H items).andThen fun vs =>
    (H.ask (.list items) (.list vs)).andThen fun v => .just (H.plain v)
  | .lambda params result =>
    (H.ask (.lambda params result) (.function params [.give result])).andThen fun v =>
      .just (H.plain v)
termination_by structural e => e

/-- The values of expressions, from left to right. -/
def Expr.evalAll (H : Host V) : List Expr → Eval V (List V)
  | [] => .just []
  | e :: es => (Expr.eval H e).andThen fun v => (Expr.evalAll H es).andThen fun vs =>
    .just (v.value :: vs)
termination_by structural es => es

end

/-- A variable has its value. -/
theorem Expr.eval_name {H : Host V} {m : Machine V} {x : String} {v : V} (h : m.vars x = some v) :
    (Expr.name x).eval H m = (m, .ok (H.plain v)) := by
  rw [Expr.eval]
  simp only [h]

/-- A name that is no variable is one of the host. -/
theorem Expr.eval_global {H : Host V} {m : Machine V} {x : String} (h : m.vars x = none) :
    (Expr.name x).eval H m =
      (H.ask (.name x) (.global x)).andThen (fun v => .just (H.plain v)) m := by
  rw [Expr.eval]
  simp only [h]

/-! ## 3. Execution -/

/-- How a statement ends that throws nothing. -/
inductive Completion (V : Type) where
  | normal
  | returned (v : V)

/-- Sets a variable, or the name of the host if there is no such variable. -/
def Host.put (H : Host V) (x : String) (v : V) : Eval V (Completion V) := fun m =>
  match m.vars x with
  | some _ => (m.set x v, .ok .normal)
  | none => (H.ask (.name x) (.putGlobal x v)).andThen (fun _ => .just .normal) m

/-- Sets what an expression stands for, from the value of another expression. -/
def Stmt.store (H : Host V) (target e : Expr) : Eval V (Completion V) :=
  match target with
  | .name x => (e.eval H).andThen fun v => H.put x v.value
  | .member o field => (o.eval H).andThen fun object => (e.eval H).andThen fun v =>
    (H.ask target (.putMember object.value field v.value)).andThen fun _ => .just .normal
  | .item o key => (o.eval H).andThen fun object => (key.eval H).andThen fun k =>
    (e.eval H).andThen fun v =>
      (H.ask target (.putItem object.value k.value v.value)).andThen fun _ => .just .normal
  | other => (other.eval H).andThen fun _ => (e.eval H).andThen fun _ => .just .normal

/-- The value of the first case that fits, if there is one. -/
def Stmt.choice (H : Host V) (v : V) : List (Int × Expr) → Eval V (Completion V)
  | [] => .just .normal
  | (n, e) :: rest =>
    if H.fits v n then (e.eval H).andThen fun w => .just (.returned w.value)
    else Stmt.choice H v rest

mutual

/-- Executes a statement. What the body of an `attempt` throws is the value of a variable for the
    handler, which hides another of its name. -/
def Stmt.exec (H : Host V) : Stmt → Eval V (Completion V)
  | .run e => (e.eval H).andThen fun _ => .just .normal
  | .declare x e => (e.eval H).andThen fun v m => (m.set x v.value, .ok .normal)
  | .assign target e => Stmt.store H target e
  | .give e => (e.eval H).andThen fun v => .just (.returned v.value)
  | .attempt body caught handler => fun m =>
    match Stmt.execAll H body m with
    | (after, .ok c) => (after, .ok c)
    | (after, .error thrown) =>
      let handled := Stmt.execAll H handler (after.set caught thrown)
      (handled.1.restore caught (after.vars caught), handled.2)
  | .declareFunction x params body =>
    (H.ask (.name x) (.function params body)).andThen fun v m => (m.set x v, .ok .normal)
  | .choose scrutinee cases => (scrutinee.eval H).andThen fun v => Stmt.choice H v.value cases
termination_by structural s => s

/-- Executes statements in order, up to the first that returns or throws. -/
def Stmt.execAll (H : Host V) : List Stmt → Eval V (Completion V)
  | [] => .just .normal
  | s :: ss => (Stmt.exec H s).andThen fun c =>
    match c with
    | .normal => Stmt.execAll H ss
    | .returned v => .just (.returned v)
termination_by structural ss => ss

end

/-- A body that throws nothing is all there is. -/
theorem Stmt.exec_attempt_ok {H : Host V} {body handler : List Stmt} {caught : String}
    {m after : Machine V} {c : Completion V} (h : Stmt.execAll H body m = (after, .ok c)) :
    (Stmt.attempt body caught handler).exec H m = (after, .ok c) := by
  rw [Stmt.exec]
  simp only [h]

/-- What a body throws is handled. -/
theorem Stmt.exec_attempt_error {H : Host V} {body handler : List Stmt} {caught : String}
    {m after : Machine V} {thrown : V} (h : Stmt.execAll H body m = (after, .error thrown)) :
    (Stmt.attempt body caught handler).exec H m =
      let handled := Stmt.execAll H handler (after.set caught thrown)
      (handled.1.restore caught (after.vars caught), handled.2) := by
  rw [Stmt.exec]
  simp only [h]

/-! ## 4. Calls of a property -/

mutual

/-- The variables a statement declares. They belong to the whole function. -/
def Stmt.declared : Stmt → List String
  | .declare x _ => [x]
  | .attempt body _ handler => Stmt.declaredAll body ++ Stmt.declaredAll handler
  | .declareFunction x _ _ => [x]
  | .run _ | .assign _ _ | .give _ | .choose _ _ => []
termination_by structural s => s

/-- The variables statements declare. -/
def Stmt.declaredAll : List Stmt → List String
  | [] => []
  | s :: ss => s.declared ++ Stmt.declaredAll ss
termination_by structural ss => ss

end

/-- The values parameters receive: those given, in order, and none for what is missing. -/
def Host.receive (H : Host V) : List String → List V → List V
  | [], _ => []
  | _ :: xs, vs => vs.head?.getD H.undefined :: H.receive xs vs.tail

/-- A machine with variables set in order. -/
def Machine.setAll (m : Machine V) : List String → List V → Machine V
  | [], _ => m
  | _ :: _, [] => m
  | x :: xs, v :: vs => (m.set x v).setAll xs vs

/-- The machine on which the body of a property starts: its parameters have the values they received,
    the other variables of the function have none yet. -/
def Property.enter (H : Host V) (p : Property) (given : List V) : Machine V :=
  let blank : Machine V :=
    ⟨fun x => if x ∈ Stmt.declaredAll p.body then some H.undefined else none, []⟩
  blank.setAll p.params (H.receive p.params given)

/-- Calls a property: what it returns or throws, on the machine it leaves. -/
def Property.run (H : Host V) (p : Property) (given : List V) : Machine V × Except V V :=
  (Stmt.execAll H p.body).andThen
    (fun c => match c with
      | .normal => .just H.undefined
      | .returned v => .just v)
    (p.enter H given)

end HostGlue.Script
