import HostGlue.Proofs.Script.Frame
import HostGlue.Proofs.Script.Spelling

/-!
# Runs step by step

A run of a program goes on, or a value is thrown, and what happened up to there is known either way.
This file fixes

* how a body runs statement by statement (`execAll_cons_ok`, `execAll_append_ok` and what they say of
  errors);
* how names, members of variables, and calls with known arguments are evaluated (`evalAll_names`,
  `eval_member_name`, `eval_call`);
* `NoCallOf`, events among which there is no call through an expression;
* what the parameters of a property have at its start (`Property.enter_params`).
-/

namespace HostGlue.Script

variable {V α β : Type}

/-! ## 1. Bodies -/

namespace Eval

variable {x : Eval V α} {k : α → Eval V β} {m after : Machine V}

theorem andThen_ok {a : α} (h : x m = (after, .ok a)) : x.andThen k m = k a after := by
  unfold andThen
  rw [h]

theorem andThen_error {thrown : V} (h : x m = (after, .error thrown)) :
    x.andThen k m = (after, .error thrown) := by
  unfold andThen
  rw [h]

/-- A computation that throws nothing had parts that threw nothing. -/
theorem of_andThen_ok {b : β} (h : x.andThen k m = (after, .ok b)) :
    ∃ between a, x m = (between, .ok a) ∧ k a between = (after, .ok b) := by
  unfold andThen at h
  split at h
  · rename_i between a hx
    exact ⟨between, a, hx, h⟩
  · cases h

/-- What is known of a computation in either case. -/
theorem Asks.cases {fs : List Expr} (h : Asks x fs) (m : Machine V) :
    (∃ evs a, Within evs fs ∧ x m = (m.extend evs, .ok a)) ∨
      ∃ evs thrown, Within evs fs ∧ x m = (m.extend evs, .error thrown) := by
  obtain ⟨evs, hm, hw⟩ := h m
  cases hr : x m with
  | mk after result =>
    rw [hr] at hm
    have hafter : after = m.extend evs := hm
    subst hafter
    cases result with
    | ok a => exact Or.inl ⟨evs, a, hw, rfl⟩
    | error thrown => exact Or.inr ⟨evs, thrown, hw, rfl⟩

end Eval

/-- A variable is set, and nothing happens. -/
theorem Host.put_of_some {H : Host V} {m : Machine V} {x : String} {old : V}
    (h : m.vars x = some old) (v : V) : H.put x v m = (m.set x v, .ok .normal) := by
  unfold put
  simp only [h]

namespace Stmt

variable {H : Host V} {s : Stmt} {ss as bs : List Stmt} {m after : Machine V} {thrown : V}

theorem exec_run_ok {e : Expr} {r : Ref V} (h : e.eval H m = (after, .ok r)) :
    (Stmt.run e).exec H m = (after, .ok .normal) := by
  rw [exec, Eval.andThen_ok h]
  rfl

theorem exec_run_error {e : Expr} (h : e.eval H m = (after, .error thrown)) :
    (Stmt.run e).exec H m = (after, .error thrown) := by
  rw [exec, Eval.andThen_error h]

theorem exec_declare_ok {x : String} {e : Expr} {r : Ref V} (h : e.eval H m = (after, .ok r)) :
    (Stmt.declare x e).exec H m = (after.set x r.value, .ok .normal) := by
  rw [exec, Eval.andThen_ok h]

theorem exec_declare_error {x : String} {e : Expr} (h : e.eval H m = (after, .error thrown)) :
    (Stmt.declare x e).exec H m = (after, .error thrown) := by
  rw [exec, Eval.andThen_error h]

theorem exec_give_ok {e : Expr} {r : Ref V} (h : e.eval H m = (after, .ok r)) :
    (Stmt.give e).exec H m = (after, .ok (.returned r.value)) := by
  rw [exec, Eval.andThen_ok h]
  rfl

theorem exec_assign_name (x : String) (e : Expr) :
    (Stmt.assign (.name x) e).exec H = (e.eval H).andThen fun v => H.put x v.value := by
  rw [exec, store]

theorem execAll_cons_ok (h : s.exec H m = (after, .ok .normal)) :
    execAll H (s :: ss) m = execAll H ss after := by
  rw [execAll, Eval.andThen_ok h]

theorem execAll_cons_error (h : s.exec H m = (after, .error thrown)) :
    execAll H (s :: ss) m = (after, .error thrown) := by
  rw [execAll, Eval.andThen_error h]

/-- A body that threw nothing evaluated the expression that it runs first, and went on. -/
theorem of_execAll_run {e : Expr} {c : Completion V}
    (h : execAll H (.run e :: ss) m = (after, .ok c)) : ∃ evs r,
    e.eval H m = (m.extend evs, .ok r) ∧ execAll H ss (m.extend evs) = (after, .ok c) := by
  rcases (e.eval_asks H).cases m with ⟨evs, r, -, he⟩ | ⟨evs, thrown, -, he⟩
  · rw [execAll_cons_ok (exec_run_ok he)] at h
    exact ⟨evs, r, he, h⟩
  · rw [execAll_cons_error (exec_run_error he)] at h
    cases h

/-- A body that threw nothing evaluated what it declares first, and went on with that variable. -/
theorem of_execAll_declare {x : String} {e : Expr} {c : Completion V}
    (h : execAll H (.declare x e :: ss) m = (after, .ok c)) : ∃ evs r,
    e.eval H m = (m.extend evs, .ok r) ∧
      execAll H ss ((m.extend evs).set x r.value) = (after, .ok c) := by
  rcases (e.eval_asks H).cases m with ⟨evs, r, -, he⟩ | ⟨evs, thrown, -, he⟩
  · rw [execAll_cons_ok (exec_declare_ok he)] at h
    exact ⟨evs, r, he, h⟩
  · rw [execAll_cons_error (exec_declare_error he)] at h
    cases h

/-- A body whose first part ends normally goes on with the second. -/
theorem execAll_append_ok : ∀ {as : List Stmt} {m : Machine V},
    execAll H as m = (after, .ok .normal) → execAll H (as ++ bs) m = execAll H bs after
  | [], m, h => by
      have hm : m = after := congrArg Prod.fst h
      rw [List.nil_append, hm]
  | s :: as, m, h => by
      rw [execAll] at h
      obtain ⟨between, c, hs, hrest⟩ := Eval.of_andThen_ok h
      cases c with
      | normal => rw [List.cons_append, execAll_cons_ok hs, execAll_append_ok hrest]
      | returned v => cases hrest

theorem execAll_append_error : ∀ {as : List Stmt} {m : Machine V},
    execAll H as m = (after, .error thrown) → execAll H (as ++ bs) m = (after, .error thrown)
  | [], m, h => by cases h
  | s :: as, m, h => by
      cases hs : s.exec H m with
      | mk between result =>
        cases result with
        | error thrown' =>
          rw [execAll_cons_error hs] at h
          rw [List.cons_append, execAll_cons_error hs, h]
        | ok c =>
          cases c with
          | normal =>
            rw [execAll_cons_ok hs] at h
            rw [List.cons_append, execAll_cons_ok hs, execAll_append_error h]
          | returned v =>
            rw [execAll, Eval.andThen_ok hs] at h
            cases h

/-- A body that ends with a return does not run off its end. -/
theorem execAll_give {e : Expr} {c : Completion V} : ∀ {ss : List Stmt} {m : Machine V},
    execAll H (ss ++ [.give e]) m = (after, .ok c) → ∃ v, c = .returned v
  | [], m, h => by
      rw [List.nil_append, execAll] at h
      obtain ⟨between, c', hs, hrest⟩ := Eval.of_andThen_ok h
      rw [exec] at hs
      obtain ⟨before, r, -, hr⟩ := Eval.of_andThen_ok hs
      cases hr
      cases hrest
      exact ⟨r.value, rfl⟩
  | s :: ss, m, h => by
      rw [List.cons_append, execAll] at h
      obtain ⟨between, c', -, hrest⟩ := Eval.of_andThen_ok h
      cases c' with
      | normal => exact execAll_give hrest
      | returned v =>
        cases hrest
        exact ⟨v, rfl⟩

theorem targetsAll_append : ∀ as bs : List Stmt,
    targetsAll (as ++ bs) = targetsAll as ++ targetsAll bs
  | [], _ => rfl
  | a :: as, bs => by
      rw [List.cons_append, targetsAll, targetsAll_append as bs, targetsAll, List.append_assoc]

end Stmt

/-! ## 2. Expressions -/

namespace Expr

variable {H : Host V} {m : Machine V}

/-- Variables have their values, and nothing happens. -/
theorem evalAll_names {xs : List String} {vs : List V}
    (h : List.Forall₂ (fun x v => m.vars x = some v) xs vs) :
    evalAll H (names xs) m = (m, .ok vs) := by
  induction h with
  | nil => rfl
  | @cons x v xs vs hx _ ih =>
    show (Expr.eval H (.name x)).andThen _ m = _
    rw [Eval.andThen_ok (eval_name hx)]
    exact Eval.andThen_ok ih

/-- What is asked of the host is answered once. -/
theorem ask_just (H : Host V) (e : Expr) (action : Action V) (k : V → α) (m : Machine V) :
    ∃ answer, (H.ask e action).andThen (fun v => .just (k v)) m =
      (m.extend [⟨e, action, answer⟩], answer.map k) := by
  refine ⟨H.answer m.history action, ?_⟩
  unfold Eval.andThen Host.ask
  cases H.answer m.history action <;> rfl

/-- A member of a variable is read once. -/
theorem eval_member_name {x field : String} {v : V} (h : m.vars x = some v) : ∃ answer,
    (Expr.member (.name x) field).eval H m =
      (m.extend [⟨.member (.name x) field, .member v field, answer⟩],
        answer.map fun u => ⟨u, v⟩) := by
  rw [eval, Eval.andThen_ok (eval_name h)]
  exact ask_just H _ _ _ m

/-- What was read of a variable without an error is what the host answered. -/
theorem of_eval_member_name {x field : String} {v : V} {evs : List (Event V)} {r : Ref V}
    (h : m.vars x = some v)
    (hr : (Expr.member (.name x) field).eval H m = (m.extend evs, .ok r)) :
    evs = [⟨.member (.name x) field, .member v field, .ok r.value⟩] ∧ r.receiver = v := by
  obtain ⟨answer, hm⟩ := @eval_member_name V H m x field v h
  rw [hm] at hr
  obtain ⟨hevs, hanswer⟩ := Prod.mk.inj hr
  cases answer with
  | error thrown => cases hanswer
  | ok u =>
    cases hanswer
    exact ⟨(Machine.extend_inj hevs).symm, rfl⟩

/-- A body that only returns a member of a variable reads it once. -/
theorem of_execAll_give_member {x field : String} {v : V} {after : Machine V} {c : Completion V}
    (hv : m.vars x = some v)
    (h : Stmt.execAll H [.give (.member (.name x) field)] m = (after, .ok c)) :
    ∃ value, c = .returned value ∧
      after = m.extend [⟨.member (.name x) field, .member v field, .ok value⟩] := by
  obtain ⟨answer, hm⟩ := @eval_member_name V H m x field v hv
  cases answer with
  | error thrown =>
    rw [Stmt.execAll, Stmt.exec, Eval.andThen_error (Eval.andThen_error hm)] at h
    cases h
  | ok value =>
    rw [Stmt.execAll, Eval.andThen_ok (Stmt.exec_give_ok hm)] at h
    cases h
    exact ⟨value, rfl, rfl⟩

theorem evalAll_cons_ok {e : Expr} {es : List Expr} {m₁ m₂ : Machine V} {r : Ref V} {vs : List V}
    (h : e.eval H m = (m₁, .ok r)) (hrest : evalAll H es m₁ = (m₂, .ok vs)) :
    evalAll H (e :: es) m = (m₂, .ok (r.value :: vs)) := by
  rw [evalAll, Eval.andThen_ok h, Eval.andThen_ok hrest]
  rfl

theorem evalAll_cons_error {e : Expr} {es : List Expr} {after : Machine V} {thrown : V}
    (h : e.eval H m = (after, .error thrown)) :
    evalAll H (e :: es) m = (after, .error thrown) := by
  rw [evalAll, Eval.andThen_error h]

theorem evalAll_cons_rest_error {e : Expr} {es : List Expr} {m₁ after : Machine V} {r : Ref V}
    {thrown : V} (h : e.eval H m = (m₁, .ok r)) (hrest : evalAll H es m₁ = (after, .error thrown)) :
    evalAll H (e :: es) m = (after, .error thrown) := by
  rw [evalAll, Eval.andThen_ok h, Eval.andThen_error hrest]

theorem eval_call_error {f : Expr} {args : List Expr} {after : Machine V} {thrown : V}
    (hf : f.eval H m = (after, .error thrown)) :
    (Expr.call f args).eval H m = (after, .error thrown) := by
  rw [eval, Eval.andThen_error hf]

theorem eval_call_args_error {f : Expr} {args : List Expr} {m₁ after : Machine V} {g : Ref V}
    {thrown : V} (hf : f.eval H m = (m₁, .ok g))
    (hargs : evalAll H args m₁ = (after, .error thrown)) :
    (Expr.call f args).eval H m = (after, .error thrown) := by
  rw [eval, Eval.andThen_ok hf, Eval.andThen_error hargs]

/-- Behind its arguments a call is made and answered. -/
theorem eval_call_ok {f : Expr} {args : List Expr} {m₁ m₂ : Machine V} {g : Ref V} {vs : List V}
    (hf : f.eval H m = (m₁, .ok g)) (hargs : evalAll H args m₁ = (m₂, .ok vs)) : ∃ answer,
    (Expr.call f args).eval H m =
      (m₂.extend [⟨.call f args, .call g.value g.receiver vs, answer⟩], answer.map H.plain) := by
  rw [eval, Eval.andThen_ok hf, Eval.andThen_ok hargs]
  exact ask_just H _ _ _ m₂

/-- A call whose arguments are known: something is thrown before it, or it is made and answered. -/
theorem eval_call {f : Expr} {args : List Expr} {vs : List V} (hf : f.callees = [])
    (hargs : ∀ evs, evalAll H args (m.extend evs) = (m.extend evs, .ok vs)) :
    (∃ evs thrown, Within evs [] ∧
      (Expr.call f args).eval H m = (m.extend evs, .error thrown)) ∨
    ∃ evs function receiver answer, Within evs [] ∧
      (Expr.call f args).eval H m =
        (m.extend (evs ++ [⟨.call f args, .call function receiver vs, answer⟩]),
          answer.map H.plain) := by
  have hasks := eval_asks H f
  rw [hf] at hasks
  rcases hasks.cases m with ⟨evs, g, hw, hg⟩ | ⟨evs, thrown, hw, hg⟩
  · obtain ⟨answer, hcall⟩ := eval_call_ok hg (hargs evs)
    refine Or.inr ⟨evs, g.value, g.receiver, answer, hw, ?_⟩
    rw [hcall, m.extend_extend]
  · exact Or.inl ⟨evs, thrown, hw, eval_call_error hg⟩

/-- A call with known arguments that threw nothing is the last that happened. -/
theorem of_eval_call {f : Expr} {args : List Expr} {vs : List V} {evs : List (Event V)} {r : Ref V}
    (hf : f.callees = [])
    (hargs : ∀ evs, evalAll H args (m.extend evs) = (m.extend evs, .ok vs))
    (h : (Expr.call f args).eval H m = (m.extend evs, .ok r)) : ∃ before function receiver,
    evs = before ++ [⟨.call f args, .call function receiver vs, .ok r.value⟩] := by
  rcases eval_call hf hargs with ⟨before, thrown, -, he⟩ | ⟨before, function, receiver, answer, -, he⟩
  · rw [he] at h
    cases (Prod.mk.inj h).2
  · rw [he] at h
    obtain ⟨hevs, hanswer⟩ := Prod.mk.inj h
    cases answer with
    | error thrown => cases hanswer
    | ok v =>
      cases hanswer
      exact ⟨before, function, receiver, (Machine.extend_inj hevs).symm⟩

/-- A call of a member of a variable: something is thrown at the member, or it is called with the
    variable for its receiver. -/
theorem eval_call_member {x field : String} {args : List Expr} {v : V} {vs : List V}
    (hx : m.vars x = some v)
    (hargs : ∀ evs, evalAll H args (m.extend evs) = (m.extend evs, .ok vs)) :
    (∃ evs thrown, Within evs [] ∧
      (Expr.call (.member (.name x) field) args).eval H m = (m.extend evs, .error thrown)) ∨
    ∃ function answer,
      (Expr.call (.member (.name x) field) args).eval H m =
        (m.extend [⟨.member (.name x) field, .member v field, .ok function⟩,
            ⟨.call (.member (.name x) field) args, .call function v vs, answer⟩],
          answer.map H.plain) := by
  have hasks : Eval.Asks ((Expr.member (.name x) field).eval H) [] := eval_asks H _
  rcases hasks.cases m with ⟨evs, g, hw, hg⟩ | ⟨evs, thrown, hw, hg⟩
  · obtain ⟨answer, hcall⟩ := eval_call_ok hg (hargs evs)
    obtain ⟨hevs, hreceiver⟩ := of_eval_member_name hx hg
    refine Or.inr ⟨g.value, answer, ?_⟩
    rw [hcall, m.extend_extend, hevs, hreceiver]
    rfl
  · exact Or.inl ⟨evs, thrown, hw, eval_call_error hg⟩

/-- An item that was read is among what happened. -/
theorem of_eval_item {e key : Expr} {evs : List (Event V)} {r : Ref V}
    (h : (Expr.item e key).eval H m = (m.extend evs, .ok r)) :
    ∃ object k, ⟨.item e key, .item object k, .ok r.value⟩ ∈ evs := by
  rw [eval] at h
  obtain ⟨m₁, object, h₁, h⟩ := Eval.of_andThen_ok h
  obtain ⟨m₂, k, h₂, h⟩ := Eval.of_andThen_ok h
  have hbefore : ∃ before, m₂ = m.extend before := by
    obtain ⟨evs₁, hm₁, -⟩ := eval_asks H e m
    obtain ⟨evs₂, hm₂, -⟩ := eval_asks H key m₁
    rw [h₁] at hm₁
    rw [h₂] at hm₂
    have hm₁' : m₁ = m.extend evs₁ := hm₁
    refine ⟨evs₁ ++ evs₂, ?_⟩
    rw [← m.extend_extend, ← hm₁']
    exact hm₂
  obtain ⟨before, rfl⟩ := hbefore
  obtain ⟨answer, hask⟩ := ask_just H (.item e key) (.item object.value k.value)
    (fun v => (⟨v, object.value⟩ : Ref V)) (m.extend before)
  rw [hask, m.extend_extend] at h
  obtain ⟨hevs, hr⟩ := Prod.mk.inj h
  cases answer with
  | error thrown => cases hr
  | ok v =>
    cases hr
    rw [← Machine.extend_inj hevs]
    exact ⟨_, _, List.mem_append_right _ (List.mem_singleton_self _)⟩

theorem callees_foldl_member : ∀ (fields : List String) (e : Expr), e.callees = [] →
    (fields.foldl .member e).callees = []
  | [], _, h => h
  | f :: fields, e, h => callees_foldl_member fields (.member e f) h

/-- A path is read and not called. -/
theorem callees_ofPath (path : String) : (ofPath path).callees = [] := by
  unfold ofPath
  split
  · rfl
  · exact callees_foldl_member _ _ rfl

/-- The name an expression begins with, if it is a path. -/
def root? : Expr → Option String
  | .name x => some x
  | .member e _ => e.root?
  | _ => none

theorem root?_foldl_member : ∀ (fields : List String) (e : Expr),
    (fields.foldl .member e).root? = e.root?
  | [], _ => rfl
  | f :: fields, e => root?_foldl_member fields (.member e f)

theorem root?_ofPath {path : String} (h : Ident.IsPath path) :
    (ofPath path).root? = some (Ident.rootSegment path) := by
  obtain ⟨root, fields, e⟩ := h.segments
  rw [ofPath_eq e, root?_foldl_member, Ident.pathSegments_head e]
  rfl

end Expr

/-! ## 3. Calls among events -/

/-- Events among which there is no call through an expression. -/
def NoCallOf (f : Expr) (evs : List (Event V)) : Prop := ∀ ev ∈ evs, ev.callee? ≠ some f

theorem Within.noCallOf {evs : List (Event V)} {fs : List Expr} {f : Expr} (h : Within evs fs)
    (hf : f ∉ fs) : NoCallOf f evs :=
  fun ev hev he => hf (h ev hev f he)

theorem NoCallOf.append {f : Expr} {as bs : List (Event V)} (ha : NoCallOf f as)
    (hb : NoCallOf f bs) : NoCallOf f (as ++ bs) := by
  intro ev hev
  rcases List.mem_append.mp hev with h | h
  · exact ha ev h
  · exact hb ev h

/-- Whether an event is a call. -/
def Event.isCall (ev : Event V) : Bool := ev.callee?.isSome

/-- Where nothing is called, no event is a call. -/
theorem Within.filter_isCall {evs : List (Event V)} (h : Within evs []) :
    evs.filter Event.isCall = [] := by
  rw [List.filter_eq_nil_iff]
  intro ev hev hcall
  obtain ⟨f, hf⟩ := Option.isSome_iff_exists.mp hcall
  exact absurd (h ev hev f hf) List.not_mem_nil

/-! ## 4. The start of a call -/

theorem Machine.setAll_vars_of_not_mem : ∀ {xs : List String} {vs : List V} {m : Machine V}
    {y : String}, y ∉ xs → (m.setAll xs vs).vars y = m.vars y
  | [], _, _, _, _ => by rw [Machine.setAll]
  | _ :: _, [], _, _, _ => by rw [Machine.setAll]
  | x :: xs, v :: vs, m, y, h => by
      rw [List.mem_cons, not_or] at h
      rw [Machine.setAll, Machine.setAll_vars_of_not_mem h.2]
      exact if_neg h.1

theorem Machine.setAll_history : ∀ (xs : List String) (vs : List V) (m : Machine V),
    (m.setAll xs vs).history = m.history
  | [], _, _ => by rw [Machine.setAll]
  | _ :: _, [], _ => by rw [Machine.setAll]
  | x :: xs, v :: vs, m => by
      rw [Machine.setAll, Machine.setAll_history xs vs]
      rfl

/-- Parameters of different names have the values they received. -/
theorem Machine.setAll_receive (H : Host V) : ∀ {xs : List String} {given : List V} {m : Machine V},
    xs.Nodup →
      List.Forall₂ (fun x v => (m.setAll xs (H.receive xs given)).vars x = some v) xs
        (H.receive xs given)
  | [], _, _, _ => .nil
  | x :: xs, given, m, h => by
      rw [List.nodup_cons] at h
      refine .cons ?_ (Machine.setAll_receive H h.2)
      rw [Host.receive, Machine.setAll, Machine.setAll_vars_of_not_mem h.1]
      exact if_pos rfl

theorem Property.enter_params (H : Host V) {p : Property} (h : p.params.Nodup) (given : List V) :
    List.Forall₂ (fun x v => (p.enter H given).vars x = some v) p.params
      (H.receive p.params given) :=
  Machine.setAll_receive H h

theorem Property.enter_history (H : Host V) (p : Property) (given : List V) :
    (p.enter H given).history = [] :=
  Machine.setAll_history _ _ _

end HostGlue.Script
