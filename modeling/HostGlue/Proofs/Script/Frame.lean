import HostGlue.Proofs.Script.Host

/-!
# What a run leaves as it was

Whatever a host answers, a program can only do what is written in it. This file shows that

* a run adds to what happened before and takes nothing away;
* all calls it makes are calls of the program (`Within`, `Expr.callees`, `Stmt.callees`);
* no variables change but those the program sets (`Stmt.targets`);
* so expressions are `Asks` and statements have a `Frame` (`Expr.eval_asks`, `Stmt.exec_frame`).
-/

namespace HostGlue.Script

variable {V α β : Type}

/-! ## 1. What a program calls and sets -/

mutual

/-- The expressions that an expression calls. -/
def Expr.callees : Expr → List Expr
  | .name _ | .text _ | .number _ | .lambda _ _ => []
  | .member e _ => e.callees
  | .item e key => e.callees ++ key.callees
  | .call f args => f.callees ++ Expr.calleesAll args ++ [f]
  | .construct f args => f.callees ++ Expr.calleesAll args
  | .sum a b => a.callees ++ b.callees
  | .list items => Expr.calleesAll items
termination_by structural e => e

/-- The expressions that expressions call. -/
def Expr.calleesAll : List Expr → List Expr
  | [] => []
  | e :: es => e.callees ++ Expr.calleesAll es
termination_by structural es => es

end

mutual

/-- The expressions that a statement calls. -/
def Stmt.callees : Stmt → List Expr
  | .run e | .declare _ e | .give e => e.callees
  | .assign target e => target.callees ++ e.callees
  | .attempt body _ handler => Stmt.calleesAll body ++ Stmt.calleesAll handler
  | .declareFunction _ _ _ => []
  | .choose scrutinee cases => scrutinee.callees ++ cases.flatMap (·.2.callees)
termination_by structural s => s

/-- The expressions that statements call. -/
def Stmt.calleesAll : List Stmt → List Expr
  | [] => []
  | s :: ss => s.callees ++ Stmt.calleesAll ss
termination_by structural ss => ss

end

mutual

/-- The variables that a statement sets. -/
def Stmt.targets : Stmt → List String
  | .declare x _ | .declareFunction x _ _ | .assign (.name x) _ => [x]
  | .attempt body _ handler => Stmt.targetsAll body ++ Stmt.targetsAll handler
  | .run _ | .give _ | .choose _ _ | .assign _ _ => []
termination_by structural s => s

/-- The variables that statements set. -/
def Stmt.targetsAll : List Stmt → List String
  | [] => []
  | s :: ss => s.targets ++ Stmt.targetsAll ss
termination_by structural ss => ss

end

/-! ## 2. Frames -/

/-- Events whose calls go through these expressions only. -/
def Within (evs : List (Event V)) (fs : List Expr) : Prop :=
  ∀ ev ∈ evs, ∀ f, ev.callee? = some f → f ∈ fs

theorem within_nil (fs : List Expr) : Within ([] : List (Event V)) fs :=
  fun _ h => absurd h List.not_mem_nil

theorem Within.append {as bs : List (Event V)} {fs : List Expr} (ha : Within as fs)
    (hb : Within bs fs) : Within (as ++ bs) fs := by
  intro ev hev
  rcases List.mem_append.mp hev with h | h
  · exact ha ev h
  · exact hb ev h

theorem Within.mono {evs : List (Event V)} {fs gs : List Expr} (h : Within evs fs)
    (hs : fs ⊆ gs) : Within evs gs :=
  fun ev hev f hf => hs (h ev hev f hf)

/-- A computation that leaves the variables alone and calls through these expressions only. -/
def Eval.Asks (x : Eval V α) (fs : List Expr) : Prop :=
  ∀ m, ∃ evs, (x m).1 = m.extend evs ∧ Within evs fs

/-- A computation that calls through these expressions only, and sets these variables only. -/
def Eval.Frame (x : Eval V α) (fs : List Expr) (xs : List String) : Prop :=
  ∀ m, ∃ evs, (x m).1.history = m.history ++ evs ∧ Within evs fs ∧
    ∀ y, y ∉ xs → (x m).1.vars y = m.vars y

theorem Machine.extend_nil (m : Machine V) : m.extend [] = m := by
  rw [extend, List.append_nil]

theorem Machine.extend_extend (m : Machine V) (as bs : List (Event V)) :
    (m.extend as).extend bs = m.extend (as ++ bs) := by
  simp only [extend, List.append_assoc]

theorem Machine.set_vars_self (m : Machine V) (x : String) (v : V) :
    (m.set x v).vars x = some v := if_pos rfl

theorem Machine.set_vars_of_ne {m : Machine V} {x y : String} (h : y ≠ x) (v : V) :
    (m.set x v).vars y = m.vars y := if_neg h

theorem Machine.extend_inj {m : Machine V} {as bs : List (Event V)}
    (h : m.extend as = m.extend bs) : as = bs :=
  List.append_cancel_left (congrArg Machine.history h)

namespace Eval

variable {x : Eval V α} {k : α → Eval V β} {fs gs : List Expr} {xs ys : List String}

theorem Asks.just (a : α) (fs : List Expr) : Asks (Eval.just a : Eval V α) fs :=
  fun m => ⟨[], m.extend_nil.symm, within_nil fs⟩

theorem Asks.ask {H : Host V} {e : Expr} {action : Action V}
    (h : ∀ g args, e = .call g args → g ∈ fs) : Asks (H.ask e action) fs := by
  intro m
  refine ⟨_, rfl, fun ev hev g hg => ?_⟩
  rw [List.mem_singleton.mp hev] at hg
  unfold Event.callee? at hg
  split at hg
  · rename_i f args he
    cases hg
    exact h g args he
  · cases hg

theorem Asks.mono (h : Asks x fs) (hs : fs ⊆ gs) : Asks x gs := by
  intro m
  obtain ⟨evs, hm, hw⟩ := h m
  exact ⟨evs, hm, hw.mono hs⟩

theorem Asks.andThen (hx : Asks x fs) (hk : ∀ a, Asks (k a) fs) : Asks (x.andThen k) fs := by
  intro m
  obtain ⟨evs, hm, hw⟩ := hx m
  unfold Eval.andThen
  cases hr : x m with
  | mk after result =>
    rw [hr] at hm
    have hafter : after = m.extend evs := hm
    subst hafter
    cases result with
    | error thrown => exact ⟨evs, rfl, hw⟩
    | ok a =>
      obtain ⟨more, hmore, hw'⟩ := hk a (m.extend evs)
      exact ⟨evs ++ more, by rw [← m.extend_extend]; exact hmore, hw.append hw'⟩

theorem Asks.frame (h : Asks x fs) (xs : List String) : Frame x fs xs := by
  intro m
  obtain ⟨evs, hm, hw⟩ := h m
  exact ⟨evs, by rw [hm]; rfl, hw, fun y _ => by rw [hm]; rfl⟩

theorem Frame.mono (h : Frame x fs xs) (hs : fs ⊆ gs) (ht : xs ⊆ ys) : Frame x gs ys := by
  intro m
  obtain ⟨evs, hm, hw, hv⟩ := h m
  exact ⟨evs, hm, hw.mono hs, fun y hy => hv y fun hm => hy (ht hm)⟩

theorem Frame.andThen (hx : Frame x fs xs) (hk : ∀ a, Frame (k a) fs xs) :
    Frame (x.andThen k) fs xs := by
  intro m
  obtain ⟨evs, hm, hw, hv⟩ := hx m
  unfold Eval.andThen
  cases hr : x m with
  | mk after result =>
    rw [hr] at hm hv
    cases result with
    | error thrown => exact ⟨evs, hm, hw, hv⟩
    | ok a =>
      obtain ⟨more, hmore, hw', hv'⟩ := hk a after
      refine ⟨evs ++ more, ?_, hw.append hw', fun y hy => ?_⟩
      · rw [← List.append_assoc, ← hm]
        exact hmore
      · rw [← hv y hy]
        exact hv' y hy

theorem Frame.set {y : String} (v : V) (a : α) (hy : y ∈ xs) :
    Frame (fun m : Machine V => (m.set y v, .ok a)) fs xs := by
  intro m
  refine ⟨[], (List.append_nil _).symm, within_nil fs, fun z hz => ?_⟩
  have hne : z ≠ y := fun e => hz (e ▸ hy)
  exact if_neg hne

end Eval

open Eval (Asks Frame)

/-! ## 3. Programs -/

mutual

/-- **The evaluation of an expression changes no variables and makes the calls of the expression
    only.** -/
theorem Expr.eval_asks (H : Host V) : ∀ e : Expr, Asks (e.eval H) e.callees
  | .name x => by
      intro m
      cases hx : m.vars x with
      | some v =>
        rw [Expr.eval_name hx]
        exact Asks.just (H.plain v) _ m
      | none =>
        have hask : Asks (H.ask (.name x) (.global x)) (Expr.name x).callees :=
          Asks.ask (by rintro _ _ ⟨⟩)
        rw [Expr.eval_global hx]
        exact (hask.andThen fun v => Asks.just (H.plain v) _) m
  | .text value => Asks.just _ _
  | .number n => Asks.just _ _
  | .member e field =>
      (Expr.eval_asks H e).andThen fun _ =>
        (Asks.ask (by rintro _ _ ⟨⟩)).andThen fun _ => Asks.just _ _
  | .item e key =>
      ((Expr.eval_asks H e).mono (List.subset_append_left _ _)).andThen fun _ =>
        ((Expr.eval_asks H key).mono (List.subset_append_right _ _)).andThen fun _ =>
          (Asks.ask (by rintro _ _ ⟨⟩)).andThen fun _ => Asks.just _ _
  | .call f args => by
      have hf : f.callees ⊆ (Expr.call f args).callees :=
        fun _ h => List.mem_append_left _ (List.mem_append_left _ h)
      have hargs : Expr.calleesAll args ⊆ (Expr.call f args).callees :=
        fun _ h => List.mem_append_left _ (List.mem_append_right _ h)
      refine ((Expr.eval_asks H f).mono hf).andThen fun _ =>
        ((Expr.evalAll_asks H args).mono hargs).andThen fun _ =>
          (Asks.ask ?_).andThen fun _ => Asks.just _ _
      rintro _ _ ⟨⟩
      exact List.mem_append_right _ (List.mem_singleton_self f)
  | .construct f args =>
      ((Expr.eval_asks H f).mono (List.subset_append_left _ _)).andThen fun _ =>
        ((Expr.evalAll_asks H args).mono (List.subset_append_right _ _)).andThen fun _ =>
          (Asks.ask (by rintro _ _ ⟨⟩)).andThen fun _ => Asks.just _ _
  | .sum a b =>
      ((Expr.eval_asks H a).mono (List.subset_append_left _ _)).andThen fun _ =>
        ((Expr.eval_asks H b).mono (List.subset_append_right _ _)).andThen fun _ =>
          (Asks.ask (by rintro _ _ ⟨⟩)).andThen fun _ => Asks.just _ _
  | .list items =>
      (Expr.evalAll_asks H items).andThen fun _ =>
        (Asks.ask (by rintro _ _ ⟨⟩)).andThen fun _ => Asks.just _ _
  | .lambda params result => (Asks.ask (by rintro _ _ ⟨⟩)).andThen fun _ => Asks.just _ _

theorem Expr.evalAll_asks (H : Host V) : ∀ es : List Expr,
    Asks (Expr.evalAll H es) (Expr.calleesAll es)
  | [] => Asks.just _ _
  | e :: es =>
      ((Expr.eval_asks H e).mono (List.subset_append_left _ _)).andThen fun _ =>
        ((Expr.evalAll_asks H es).mono (List.subset_append_right _ _)).andThen fun _ =>
          Asks.just _ _

end

theorem Host.put_frame (H : Host V) (x : String) (v : V) (fs : List Expr) :
    Frame (H.put x v) fs [x] := by
  intro m
  unfold Host.put
  cases m.vars x with
  | some _ => exact Frame.set v _ (List.mem_singleton_self x) m
  | none =>
    have h : Asks (H.ask (.name x) (.putGlobal x v)) fs := Asks.ask (by rintro _ _ ⟨⟩)
    exact ((h.andThen fun _ => Asks.just Completion.normal fs).frame [x]) m

theorem Stmt.store_frame (H : Host V) (target e : Expr) :
    Frame (Stmt.store H target e) (target.callees ++ e.callees) (Stmt.assign target e).targets := by
  have he := (e.eval_asks H).mono (List.subset_append_right target.callees e.callees)
  cases target with
  | name x => exact (he.frame _).andThen fun v => H.put_frame x v.value _
  | member o field =>
    refine Asks.frame ?_ _
    exact ((o.eval_asks H).mono (List.subset_append_left _ _)).andThen fun _ => he.andThen fun _ =>
      (Asks.ask (by rintro _ _ ⟨⟩)).andThen fun _ => Asks.just _ _
  | item o key =>
    refine Asks.frame ?_ _
    have ho : o.callees ⊆ (Expr.item o key).callees ++ e.callees :=
      fun _ h => List.mem_append_left _ (List.mem_append_left _ h)
    have hkey : key.callees ⊆ (Expr.item o key).callees ++ e.callees :=
      fun _ h => List.mem_append_left _ (List.mem_append_right _ h)
    exact ((o.eval_asks H).mono ho).andThen fun _ => ((key.eval_asks H).mono hkey).andThen fun _ =>
      he.andThen fun _ => (Asks.ask (by rintro _ _ ⟨⟩)).andThen fun _ => Asks.just _ _
  | _ =>
    refine Asks.frame ?_ _
    exact ((Expr.eval_asks H _).mono (List.subset_append_left _ _)).andThen fun _ =>
      he.andThen fun _ => Asks.just _ _

theorem Stmt.choice_asks (H : Host V) (v : V) : ∀ cases : List (Int × Expr),
    Asks (Stmt.choice H v cases) (cases.flatMap (·.2.callees))
  | [] => Asks.just _ _
  | (n, e) :: rest => by
      have ih := Stmt.choice_asks H v rest
      rw [Stmt.choice, List.flatMap_cons]
      split
      · exact ((e.eval_asks H).mono (List.subset_append_left _ _)).andThen fun _ => Asks.just _ _
      · exact ih.mono (List.subset_append_right _ _)

mutual

/-- **The execution of a statement makes the calls of the statement only, and sets the variables it
    sets only.** What a handler calls its error is as before when the handler is left. -/
theorem Stmt.exec_frame (H : Host V) : ∀ s : Stmt, Frame (s.exec H) s.callees s.targets
  | .run e => ((e.eval_asks H).andThen fun _ => Asks.just _ _).frame _
  | .declare x e =>
      ((e.eval_asks H).frame [x]).andThen fun v => Frame.set v.value _ (List.mem_singleton_self x)
  | .assign target e => Stmt.store_frame H target e
  | .give e => ((e.eval_asks H).andThen fun _ => Asks.just _ _).frame _
  | .attempt body caught handler => by
      intro m
      obtain ⟨evs, hm, hw, hv⟩ := Stmt.execAll_frame H body m
      have hbody : Within evs (Stmt.attempt body caught handler).callees :=
        hw.mono (List.subset_append_left _ _)
      cases hr : Stmt.execAll H body m with
      | mk after result =>
        rw [hr] at hm hv
        have hout : ∀ y, y ∉ (Stmt.attempt body caught handler).targets →
            y ∉ Stmt.targetsAll body ∧ y ∉ Stmt.targetsAll handler := by
          intro y hy
          exact ⟨fun h => hy (List.mem_append_left _ h), fun h => hy (List.mem_append_right _ h)⟩
        cases result with
        | ok c =>
          rw [Stmt.exec_attempt_ok hr]
          exact ⟨evs, hm, hbody, fun y hy => hv y (hout y hy).1⟩
        | error thrown =>
          rw [Stmt.exec_attempt_error hr]
          obtain ⟨more, hmore, hw', hv'⟩ := Stmt.execAll_frame H handler (after.set caught thrown)
          refine ⟨evs ++ more, ?_, hbody.append (hw'.mono (List.subset_append_right _ _)), ?_⟩
          · rw [← List.append_assoc, ← hm]
            exact hmore
          · intro y hy
            obtain ⟨hyb, hyh⟩ := hout y hy
            by_cases hc : y = caught
            · subst hc
              exact (if_pos rfl).trans (hv y hyb)
            · have hset := hv' y hyh
              exact (if_neg hc).trans (hset.trans ((if_neg hc).trans (hv y hyb)))
  | .declareFunction x params body => by
      have hask : Asks (H.ask (.name x) (.function params body)) [] := Asks.ask (by rintro _ _ ⟨⟩)
      exact (hask.frame [x]).andThen fun v => Frame.set v _ (List.mem_singleton_self x)
  | .choose scrutinee cases =>
      (((scrutinee.eval_asks H).mono (List.subset_append_left _ _)).andThen fun v =>
        (Stmt.choice_asks H v.value cases).mono (List.subset_append_right _ _)).frame _

theorem Stmt.execAll_frame (H : Host V) : ∀ ss : List Stmt,
    Frame (Stmt.execAll H ss) (Stmt.calleesAll ss) (Stmt.targetsAll ss)
  | [] => (Asks.just _ _).frame _
  | s :: ss => by
      have hs := (Stmt.exec_frame H s).mono (List.subset_append_left _ (Stmt.calleesAll ss))
        (List.subset_append_left _ (Stmt.targetsAll ss))
      refine hs.andThen fun c => ?_
      cases c with
      | normal =>
        exact (Stmt.execAll_frame H ss).mono (List.subset_append_right _ _)
          (List.subset_append_right _ _)
      | returned v => exact (Asks.just _ _).frame _

end

end HostGlue.Script
