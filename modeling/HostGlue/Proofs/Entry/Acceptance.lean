import HostGlue.Proofs.Script.Spelling
import Mathlib.Data.List.Forall2

/-!
# What is known of an accepted extern

An extern is accepted if no check finds a reason against it. This file says what acceptance
guarantees:

* of an ordinary entry: a leading status parameter of 32 bits, all others carry values in, and all
  names can be bound (`Ordinary.Shape`, `Ordinary.shape`);
* of an initializer: names that can be bound, and three trampolines, each of which wraps the callback
  parameter at its position (`Initializer.Shape`, `Initializer.shape`, `Trampoline.Wraps`);
* of both: the entry is a well-named program (`named_property`), so all it is written as are solid
  lines (`solid_code`).
-/

namespace HostGlue.Entry

open Script (Expr Stmt)
open Ident (Bindable)

/-! ## 1. Ordinary entries -/

namespace Ordinary

variable {ctx : Context}

/-- What acceptance guarantees of an ordinary entry. -/
structure Shape (ctx : Context) (e : Extern) (status : Param) (others : List Param) : Prop where
  params : e.params = status :: others
  statusOutput : status.direction = .output
  statusIntegral : status.ty.isIntegral32 = true
  othersInput : ∀ p ∈ others, p.direction = .input
  bound : Bound Ident.ordinaryLocals ctx e

theorem of_eq_ok {e : Extern} {o : Ordinary ctx} (h : of ctx e = .ok o) : o.source = e := by
  unfold of at h
  split at h
  · cases h
  · cases h
    rfl

theorem of_eq_error {e : Extern} {err : GlueError} (h : of ctx e = .error err) :
    error? ctx e = some err := by
  unfold of at h
  split at h
  · rename_i herr
    cases h
    exact herr
  · cases h

theorem of_of_none {e : Extern} (h : error? ctx e = none) : of ctx e = .ok ⟨e, h⟩ := by
  unfold of
  split
  · rename_i herr
    rw [h] at herr
    cases herr
  · rfl

theorem of_of_some {e : Extern} {err : GlueError} (h : error? ctx e = some err) :
    of ctx e = .error err := by
  unfold of
  split
  · rename_i herr
    rw [h] at herr
    cases herr
    rfl
  · rename_i herr
    rw [h] at herr
    cases herr

theorem status_of_statusFault? {e : Extern} (h : statusFault? e = none) :
    ∃ status others, e.params = status :: others ∧ status.direction = .output ∧
      status.ty.isIntegral32 = true ∧ ∀ p ∈ others, p.direction = .input := by
  unfold statusFault? Extern.status? at h
  cases hp : e.params with
  | nil => rw [hp] at h; cases h
  | cons status others =>
    rw [hp] at h
    simp only [List.head?_cons, Option.filter_some, List.tail_cons, beq_iff_eq] at h
    by_cases hd : status.direction = .output
    · rw [if_pos hd] at h
      cases hi : status.ty.isIntegral32 with
      | false => simp [hi] at h
      | true =>
        simp only [hi, Bool.not_true, Bool.false_eq_true, if_false, Option.map_eq_none_iff,
          List.find?_eq_none, beq_iff_eq] at h
        refine ⟨status, others, rfl, hd, hi, fun p hp => ?_⟩
        cases hpd : p.direction with
        | input => rfl
        | output => exact absurd hpd (h p hp)
    · rw [if_neg hd] at h
      cases h

/-- **The shape of an accepted ordinary entry.** -/
theorem shape (o : Ordinary ctx) : ∃ status others, Shape ctx o.source status others := by
  have h := o.accepted
  unfold error? at h
  split at h
  · cases h
  · rename_i hs
    split at h
    · cases h
    · obtain ⟨status, others, hp, hd, hi, ho⟩ := status_of_statusFault? hs
      exact ⟨status, others, hp, hd, hi, ho, (bindingError?_eq_none_iff _ _ _).mp h⟩

namespace Shape

variable {e : Extern} {status : Param} {others : List Param}

/-- All but the status are forwarded. -/
theorem forwarded (h : Shape ctx e status others) : e.forwarded = others := by
  unfold Extern.forwarded
  rw [h.params, List.filter_cons_of_neg (by rw [h.statusOutput]; decide), List.filter_eq_self]
  intro p hp
  rw [h.othersInput p hp]
  rfl

/-- The status is no text. -/
theorem status_not_string (h : Shape ctx e status others) : status.ty.isString = false := by
  have hi := h.statusIntegral
  cases hty : status.ty with
  | callback ps r => rfl
  | plain p =>
    rw [hty] at hi
    cases p <;> first | rfl | exact absurd hi (by decide)

/-- The texts among the parameters are texts among the others. -/
theorem strings (h : Shape ctx e status others) :
    e.params.filter (·.ty.isString) = others.filter (·.ty.isString) := by
  rw [h.params, List.filter_cons_of_neg (by rw [h.status_not_string]; decide)]

end Shape

theorem statusName_eq {o : Ordinary ctx} {status : Param} {others : List Param}
    (h : Shape ctx o.source status others) : o.statusName = status.name := by
  unfold statusName
  rw [h.params]
  rfl

theorem isIntegral32_iff (ty : Ty) : ty.isIntegral32 = true ↔ ty = .plain .i32 ∨ ty = .plain .u32 := by
  cases ty with
  | callback params result => simp [Ty.isIntegral32]
  | plain t => cases t <;> simp [Ty.isIntegral32]

/-- The status is stored in its own format, which is that of 32 bits, signed or not. -/
theorem storageTag_status {o : Ordinary ctx} {status : Param} {others : List Param}
    (h : Shape ctx o.source status others) :
    status.ty.storageTag = .ok o.statusTag ∧ o.statusTag = .i32 := by
  have htag : status.ty.storageTag = .ok .i32 := by
    rcases (isIntegral32_iff status.ty).mp h.statusIntegral with hty | hty <;> rw [hty] <;> rfl
  have heq : o.statusTag = .i32 := by
    unfold statusTag
    rw [h.params, List.head?_cons, Option.bind_some, htag]
    rfl
  rw [heq]
  exact ⟨htag, rfl⟩

theorem statusTag_eq (o : Ordinary ctx) : o.statusTag = .i32 := by
  obtain ⟨status, others, h⟩ := o.shape
  exact (storageTag_status h).2

theorem named_name (x : String) (h : Ident.isIdentifier x = true) : (Expr.name x).Named := h

theorem named_instanceSlot (p : Protocol) : (instanceSlot p).Named :=
  ⟨named_name "Module" (by decide), trivial⟩

theorem named_returnAnswer (result : Ty) : Stmt.AllNamed (returnAnswer result) := by
  unfold returnAnswer answerValue
  split <;> simp only [Stmt.AllNamed, Stmt.Named, Expr.Named, Expr.AllNamed, Expr.names, List.map] <;>
    decide

/-- An ordinary entry is a well-named program. -/
theorem named_property (o : Ordinary ctx) : o.property.Named := by
  obtain ⟨status, others, hs⟩ := o.shape
  have hid : ∀ p ∈ o.source.params, Ident.isIdentifier p.name = true := fun p hp =>
    (hs.bound.params p.name (List.mem_map_of_mem hp)).identifier
  have hstatus : Ident.isIdentifier o.statusName = true := by
    rw [statusName_eq hs]
    exact hid status (by rw [hs.params]; exact List.mem_cons_self)
  have hparams : ∀ x ∈ o.source.params.map (·.name), Ident.isIdentifier x = true := fun x hx =>
    (hs.bound.params x hx).identifier
  have hforwarded : ∀ x ∈ o.source.forwarded.map (·.name), Ident.isIdentifier x = true := by
    intro x hx
    obtain ⟨p, hp, rfl⟩ := List.mem_map.mp hx
    exact hid p (List.mem_of_mem_filter hp)
  have hslot := named_instanceSlot ctx.protocol
  have hstore : ∀ value : Expr, value.Named → (o.storeStatus value).Named := fun value hv =>
    ⟨(by decide : Ident.isIdentifier "setValue" = true), hstatus, hv, trivial, trivial⟩
  have hdecode : ∀ p ∈ o.source.params.filter (·.ty.isString), (decodeParam ctx p).Named :=
    fun p hp =>
      have hp := hid p (List.mem_of_mem_filter hp)
      ⟨hp, Expr.named_ofPath ctx.sound.stringDecoder, hp, trivial⟩
  have htry : Stmt.AllNamed o.tryBody := by
    have hforward : (Expr.member (.name "context") o.source.name).Named :=
      ⟨named_name "context" (by decide), hs.bound.name⟩
    unfold tryBody
    refine Stmt.allNamed_append (Stmt.allNamed_append (Stmt.allNamed_map hdecode)
      ⟨⟨by decide, hslot⟩, ⟨by decide, hforward, ?_⟩, ?_, trivial⟩) (named_returnAnswer _)
    · exact Expr.allNamed_names hforwarded
    · exact hstore _ ⟨named_name "ret" (by decide), by decide⟩
  have hcatch : Stmt.AllNamed o.catchBody := by
    refine ⟨hstore _ trivial, ⟨⟨?_, ?_, ?_, ?_, trivial⟩, by decide, trivial, trivial⟩, trivial⟩
    · exact ⟨⟨named_name "console" (by decide), by decide⟩, named_name "error" (by decide), trivial⟩
    · exact ⟨by decide, named_name "String" (by decide), named_name "error" (by decide), trivial⟩
    · exact ⟨by decide, ⟨hslot, by decide⟩, named_name "errString" (by decide), trivial⟩
    · exact ⟨named_name "strRet" (by decide), by decide⟩
  exact ⟨hs.bound.name, hparams, ⟨htry, (by decide : Ident.isIdentifier "error" = true), hcatch⟩,
    trivial⟩

end Ordinary

/-! ## 2. Initializers -/

/-- A trampoline wraps a callback parameter: it is held by this variable, calls the pointer with the
    signature of the callback, and hands on arguments that hide nothing it needs. -/
inductive Trampoline.Wraps (ctx : Context) (e : Extern) (x : String) (p : Param) :
    Trampoline → Prop where
  | of {params : List Param} {result : Ty} {signature : String}
      (callback : p.ty = .callback params result)
      (bindable : ∀ a ∈ params.map (·.name),
        Bindable (e.params.map (·.name) ++ Ident.initializerLocals) ctx.protocol.roots a)
      (nodup : (params.map (·.name)).Nodup)
      (signed : callSignature result params = .ok signature) :
      Wraps ctx e x p ⟨x, p.name, params.map (·.name), signature⟩

theorem Trampoline.wraps_of_eq_ok {ctx : Context} {e : Extern} {x : String} {p : Param}
    {t : Trampoline} (h : Trampoline.of ctx e x p = .ok t) : Wraps ctx e x p t := by
  unfold Trampoline.of at h
  cases hty : p.ty with
  | plain t => rw [hty] at h; cases h
  | callback params result =>
    simp only [hty] at h
    split at h
    · cases h
    · rename_i hargs
      cases hsig : callSignature result params with
      | error u => rw [hsig] at h; cases h
      | ok signature =>
        rw [hsig] at h
        cases h
        obtain ⟨hb, hn, -⟩ := (firstObjection?_eq_none_iff
          (argumentObjection?_eq_none_iff (e.params.map (·.name)) ctx.protocol.roots) []
          (params.map (·.name))).mp hargs
        exact .of hty hb hn hsig

/-- What is known of the arguments of a trampoline. -/
theorem Trampoline.Wraps.args {ctx : Context} {e : Extern} {x : String} {p : Param}
    {t : Trampoline} (h : Wraps ctx e x p t) : t.args.Nodup ∧
      ∀ a ∈ t.args, Bindable (e.params.map (·.name) ++ Ident.initializerLocals) ctx.protocol.roots a := by
  cases h with
  | of _ bindable nodup _ => exact ⟨nodup, bindable⟩

theorem forall₂_of_trampolines {ctx : Context} {e : Extern} :
    ∀ {xs : List (String × Param)} {ts : List Trampoline}, trampolines ctx e xs = .ok ts →
      List.Forall₂ (fun xp t => Trampoline.Wraps ctx e xp.1 xp.2 t) xs ts
  | [], ts, h => by
      cases h
      exact .nil
  | (x, p) :: xs, ts, h => by
      unfold trampolines at h
      cases ht : Trampoline.of ctx e x p with
      | error err => rw [ht] at h; cases h
      | ok t =>
        rw [ht] at h
        cases hts : trampolines ctx e xs with
        | error err => rw [hts] at h; cases h
        | ok us =>
          rw [hts] at h
          cases h
          exact .cons (Trampoline.wraps_of_eq_ok ht) (forall₂_of_trampolines hts)

namespace Initializer

variable {ctx : Context}

/-- What acceptance guarantees of an initializer. -/
structure Shape (ctx : Context) (i : Initializer) : Prop where
  bound : Bound Ident.initializerLocals ctx i.source
  enough : trampolineNames.length ≤ i.source.params.length
  wraps : List.Forall₂ (fun xp t => Trampoline.Wraps ctx i.source xp.1 xp.2 t)
    (trampolineNames.zip i.source.params) i.trampolines

/-- **The shape of an accepted initializer.** -/
theorem shape {e : Extern} {i : Initializer} (h : of ctx e = .ok i) :
    i.source = e ∧ Shape ctx i := by
  unfold of at h
  split at h
  · cases h
  · rename_i hb
    split at h
    · cases h
    · rename_i hlen
      cases ht : Entry.trampolines ctx e (trampolineNames.zip e.params) with
      | error err => rw [ht] at h; cases h
      | ok ts =>
        rw [ht] at h
        cases h
        exact ⟨rfl, (bindingError?_eq_none_iff _ _ _).mp hb, Nat.le_of_not_lt hlen,
          forall₂_of_trampolines ht⟩

/-- There are three trampolines, for the first three parameters. -/
theorem Shape.three {i : Initializer} (h : Shape ctx i) :
    ∃ p q r rest t u v, i.source.params = p :: q :: r :: rest ∧ i.trampolines = [t, u, v] ∧
      Trampoline.Wraps ctx i.source "ch" p t ∧ Trampoline.Wraps ctx i.source "oac" q u ∧
      Trampoline.Wraps ctx i.source "orc" r v := by
  have hlen : 3 ≤ i.source.params.length := h.enough
  have hw := h.wraps
  match hp : i.source.params with
  | [] | [_] | [_, _] => simp [hp] at hlen
  | p :: q :: r :: rest =>
    rw [hp] at hw
    generalize hts : i.trampolines = ts at hw
    cases hw with
    | cons ht hw =>
      cases hw with
      | cons hu hw =>
        cases hw with
        | cons hv hw =>
          cases hw
          exact ⟨p, q, r, rest, _, _, _, rfl, rfl, ht, hu, hv⟩

theorem Shape.wraps_of_mem {i : Initializer} (h : Shape ctx i) {t : Trampoline}
    (ht : t ∈ i.trampolines) : ∃ x p, Trampoline.Wraps ctx i.source x p t := by
  obtain ⟨p, q, r, -, t₁, t₂, t₃, -, hts, h₁, h₂, h₃⟩ := h.three
  rw [hts, List.mem_cons, List.mem_cons, List.mem_singleton] at ht
  rcases ht with rfl | rfl | rfl
  · exact ⟨_, p, h₁⟩
  · exact ⟨_, q, h₂⟩
  · exact ⟨_, r, h₃⟩

theorem named_trampoline {e : Extern} {x : String} {p : Param} {t : Trampoline}
    (hx : Ident.isIdentifier x = true) (hp : Ident.isIdentifier p.name = true)
    (h : Trampoline.Wraps ctx e x p t) : (Stmt.declare t.binding (t.function ctx)).Named := by
  cases h with
  | of _ bindable _ _ =>
    have hargs := fun a ha => (bindable a ha).identifier
    exact ⟨hx, hargs, Expr.named_ofPath ctx.sound.dynCall, trivial, hp, Expr.allNamed_names hargs,
      trivial⟩

theorem named_declareArrayBuilder : (declareArrayBuilder ctx.kinds).Named := by
  refine ⟨by decide, by decide, ⟨(by decide : Ident.isIdentifier "typeCode" = true), ?_⟩, trivial⟩
  intro c hc
  obtain ⟨k, hk, rfl⟩ := List.mem_map.mp hc
  have hid := ((Ident.objection?_eq_none_iff k.name).mp (ctx.kinds_named k hk)).1
  exact ⟨hid, Expr.allNamed_names (by decide)⟩

/-- An initializer is a well-named program. -/
theorem named_property {i : Initializer} (h : Shape ctx i) : (i.property ctx).Named := by
  have hid : ∀ p ∈ i.source.params, Ident.isIdentifier p.name = true := fun p hp =>
    (h.bound.params p.name (List.mem_map_of_mem hp)).identifier
  obtain ⟨p, q, r, rest, t, u, v, hparams, hts, ht, hu, hv⟩ := h.three
  have htramps : Stmt.AllNamed
      (i.trampolines.map fun t => Stmt.declare t.binding (t.function ctx)) := by
    rw [hts]
    exact ⟨named_trampoline (by decide) (hid p (by simp [hparams])) ht,
      named_trampoline (by decide) (hid q (by simp [hparams])) hu,
      named_trampoline (by decide) (hid r (by simp [hparams])) hv, trivial⟩
  have hwire : Stmt.AllNamed
      [.declare "ctr" (constructorSlot ctx.protocol),
       .assign (instanceSlot ctx.protocol)
        (.construct (.name "ctr") (Expr.names ("arrayBuilder" :: trampolineNames)))] := by
    refine ⟨⟨by decide, (by decide : Ident.isIdentifier "Module" = true), trivial⟩,
      ⟨Ordinary.named_instanceSlot ctx.protocol, (by decide : Ident.isIdentifier "ctr" = true),
        Expr.allNamed_names (by decide)⟩, trivial⟩
  exact ⟨h.bound.name, fun x hx => (h.bound.params x hx).identifier,
    ⟨named_declareArrayBuilder, Stmt.allNamed_append htramps hwire⟩⟩

end Initializer

/-! ## 3. Entries of either kind -/

variable {ctx : Context}

/-- What an accepted entry is, by its kind. -/
theorem ofKind_eq_ok {kind : Kind} {e : Extern} {entry : Entry ctx}
    (h : ofKind ctx kind e = .ok entry) :
    (kind = .ordinary ∧ ∃ o : Ordinary ctx, o.source = e ∧ entry = .ordinary o) ∨
      (kind = .initializer ∧
        ∃ i : Initializer, i.source = e ∧ Initializer.Shape ctx i ∧ entry = .initializer i) := by
  cases kind with
  | ordinary =>
    cases ho : Ordinary.of ctx e with
    | error err => rw [ofKind, ho] at h; cases h
    | ok o =>
      rw [ofKind, ho] at h
      cases h
      exact Or.inl ⟨rfl, o, Ordinary.of_eq_ok ho, rfl⟩
  | initializer =>
    cases hi : Initializer.of ctx e with
    | error err => rw [ofKind, hi] at h; cases h
    | ok i =>
      rw [ofKind, hi] at h
      cases h
      obtain ⟨hs, hshape⟩ := Initializer.shape hi
      exact Or.inr ⟨rfl, i, hs, hshape, rfl⟩

/-- **An accepted entry is a well-named program.** -/
theorem named_property {kind : Kind} {e : Extern} {entry : Entry ctx}
    (h : ofKind ctx kind e = .ok entry) : entry.property.Named := by
  rcases ofKind_eq_ok h with ⟨-, o, -, rfl⟩ | ⟨-, i, -, hshape, rfl⟩
  · exact o.named_property
  · exact Initializer.named_property hshape

/-- **Every line of an accepted entry is solid**, at any depth. -/
theorem solid_code {kind : Kind} {e : Extern} {entry : Entry ctx}
    (h : ofKind ctx kind e = .ok entry) (d : Nat) :
    ∀ l ∈ entry.code.lines d, Text.Solid l.content.toList := by
  intro l hl
  have hs := Script.Property.solid_code entry.property (named_property h)
  exact hs d l (by rw [Code.bodyLines, Code.bodyLines, List.append_nil]; exact hl)

end HostGlue.Entry
