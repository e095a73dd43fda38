import HostGlue.Proofs.Entry.Emission
import HostGlue.Proofs.Entry.Forwarding
import HostGlue.Proofs.Script.Parsing

/-!
# What an ordinary entry does about errors

The `catch` region stores the status of a thrown call and hands the error out as a text of the
instance; an inner `try` region around the latter makes it return a code of its own if that throws as
well. This file shows what a call of the whole entry comes to over any host:

* `HandedOut`, that the error was handed out (`execAll_handOut`);
* the entry is read back from the text that is emitted for it (`readable_property`);
* **a call of what is read returns, forwards at most once, and tells by the status how it went**
  (`run_recovers`), wherever the host throws, as long as the status of a thrown call can be stored.
-/

namespace HostGlue.Entry.Ordinary

open Script

variable {V : Type} {ctx : Context}

/-! ## 1. Handing out an error -/

/-- The function of the instance that makes a text of it. -/
def createString (ctx : Context) : Expr := .member (instanceSlot ctx.protocol) "CreateString"

/-- Hands out an error: the inner `try` region. -/
def handOut (ctx : Context) : List Stmt :=
  [.run (.call (.member (.name "console") "log") [.name "error"]),
   .declare "errString" (.call (.name "String") [.name "error"]),
   .declare "strRet" (.call (createString ctx) [.name "errString"]),
   .give (.member (.name "strRet") "value")]

theorem catchBody_eq (o : Ordinary ctx) :
    o.catchBody = [o.storeStatus (.number (-1)),
      .attempt (handOut ctx) "innerError" [.give (.number 0)]] := rfl

/-- Events in which an error was handed out with this value: a text was made of it, and the value of
    that was read last. -/
def HandedOut (ctx : Context) (value : V) (evs : List (Event V)) : Prop :=
  ∃ before function receiver shown made,
    ⟨.call (createString ctx) [.name "errString"], .call function receiver [shown], .ok made⟩ ∈
      before ∧
    evs = before ++ [⟨.member (.name "strRet") "value", .member made "value", .ok value⟩]

theorem HandedOut.prepend {value : V} {evs : List (Event V)} (first : List (Event V))
    (h : HandedOut ctx value evs) : HandedOut ctx value (first ++ evs) := by
  obtain ⟨before, function, receiver, shown, made, hmade, rfl⟩ := h
  exact ⟨first ++ before, function, receiver, shown, made, List.mem_append_right _ hmade,
    (List.append_assoc _ _ _).symm⟩

/-- **An error is handed out, or something is thrown on the way.** -/
theorem execAll_handOut (H : Host V) {m after : Machine V} {c : Completion V}
    (h : Stmt.execAll H (handOut ctx) m = (after, .ok c)) : ∃ evs value,
    after.history = m.history ++ evs ∧ c = .returned value ∧ HandedOut ctx value evs := by
  rw [handOut] at h
  obtain ⟨evs₁, -, -, h⟩ := Stmt.of_execAll_run h
  obtain ⟨evs₂, shown, -, h⟩ := Stmt.of_execAll_declare h
  obtain ⟨evs₃, made, hmade, h⟩ := Stmt.of_execAll_declare h
  -- The text is made of what was declared just before.
  have herr : (((m.extend evs₁).extend evs₂).set "errString" shown.value).vars "errString" =
      some shown.value := Machine.set_vars_self _ _ _
  have hargs : ∀ evs, Expr.evalAll H [.name "errString"]
      ((((m.extend evs₁).extend evs₂).set "errString" shown.value).extend evs) =
        ((((m.extend evs₁).extend evs₂).set "errString" shown.value).extend evs,
          .ok [shown.value]) :=
    fun evs => @Expr.evalAll_names V H _ ["errString"] [shown.value] (.cons herr .nil)
  obtain ⟨before, function, receiver, rfl⟩ :=
    Expr.of_eval_call (rfl : (createString ctx).callees = []) hargs hmade
  obtain ⟨value, rfl, rfl⟩ := Expr.of_execAll_give_member (Machine.set_vars_self _ _ _) h
  have hout : HandedOut ctx value
      (before ++ [⟨.call (createString ctx) [.name "errString"],
        .call function receiver [shown.value], .ok made.value⟩] ++
        [⟨.member (.name "strRet") "value", .member made.value "value", .ok value⟩]) :=
    ⟨_, function, receiver, shown.value, made.value,
      List.mem_append_right _ (List.mem_singleton_self _), rfl⟩
  refine ⟨evs₁ ++ evs₂ ++ (before ++ [_] ++ [_]), value, ?_, rfl, hout.prepend (evs₁ ++ evs₂)⟩
  show m.history ++ evs₁ ++ evs₂ ++ (before ++ [_]) ++ [_] = _
  simp only [List.append_assoc]

/-! ## 2. Calls -/

/-- How the `try` region of a call with these values ends. -/
def tried (H : Host V) (o : Ordinary ctx) (given : List V) : Machine V × Except V (Completion V) :=
  Stmt.execAll H o.tryBody (o.property.enter H given)

/-- How the status of a thrown call is stored, behind a `try` region that threw something. -/
def stored (H : Host V) (o : Ordinary ctx) (after : Machine V) (thrown : V) :
    Machine V × Except V (Completion V) :=
  (o.storeStatus (.number (-1))).exec H (after.set "error" thrown)

/-- A call returns what its statement returns. -/
theorem run_of_returned {H : Host V} {o : Ordinary ctx} {given : List V} {m : Machine V} {v : V}
    (h : (Stmt.attempt o.tryBody "error" o.catchBody).exec H (o.property.enter H given) =
      (m, .ok (.returned v))) : o.property.run H given = (m, .ok v) := by
  have hbody : Stmt.execAll H o.property.body (o.property.enter H given) =
      (m, .ok (.returned v)) := by
    show Stmt.execAll H [_] _ = _
    rw [Stmt.execAll, Eval.andThen_ok h]
    rfl
  rw [Property.run, Eval.andThen_ok hbody]
  rfl

/-! ## 3. The `catch` region -/

theorem callees_handOut :
    Stmt.calleesAll (handOut ctx) =
      [.member (.name "console") "log", .name "String", createString ctx] := rfl

/-- Handing out an error neither calls the instance's function nor stores a status. -/
theorem handOut_calls (o : Ordinary ctx) :
    o.forward ∉ Stmt.calleesAll (handOut ctx) ∧ statusStore ∉ Stmt.calleesAll (handOut ctx) := by
  rw [callees_handOut]
  constructor
  · simp [forward, createString, instanceSlot, hostItem]
  · simp [statusStore, createString]

/-- The inner `try` region with its handler: an error is handed out, or its code is returned. -/
theorem exec_handOut (H : Host V) (m : Machine V) : ∃ evs final v,
    (Stmt.attempt (handOut ctx) "innerError" [.give (.number 0)]).exec H m =
      (final, .ok (.returned v)) ∧
    final.history = m.history ++ evs ∧ Within evs (Stmt.calleesAll (handOut ctx)) ∧
    match (Stmt.execAll H (handOut ctx) m).2 with
    | .ok _ => HandedOut ctx v evs
    | .error _ => v = H.number 0 := by
  obtain ⟨evs, hh, hw, -⟩ := Stmt.execAll_frame H (handOut ctx) m
  cases h : Stmt.execAll H (handOut ctx) m with
  | mk after result =>
    rw [h] at hh
    cases result with
    | ok c =>
      obtain ⟨evs', v, hh', rfl, hout⟩ := execAll_handOut H h
      have hevs : evs' = evs := List.append_cancel_left (hh'.symm.trans hh)
      rw [hevs] at hout
      exact ⟨evs, after, v, Stmt.exec_attempt_ok h, hh, hw, hout⟩
    | error thrown =>
      refine ⟨evs, _, H.number 0, Stmt.exec_attempt_error h, ?_, hw, rfl⟩
      exact hh

/-- **The `catch` region returns** if it can store the status of a thrown call, which it does last. -/
theorem execAll_catchBody (H : Host V) (o : Ordinary ctx) {after : Machine V} {address thrown : V}
    (hs : after.vars o.statusName = some address)
    (hstore : ∀ err, (o.stored H after thrown).2 ≠ .error err) : ∃ evs final v,
    Stmt.execAll H o.catchBody (after.set "error" thrown) = (final, .ok (.returned v)) ∧
    final.history = after.history ++ evs ∧ NoCallOf o.forward evs ∧
    LastStored H o.statusName address (H.number (-1)) evs ∧
    match (Stmt.execAll H (handOut ctx) (o.stored H after thrown).1).2 with
    | .ok _ => HandedOut ctx v evs
    | .error _ => v = H.number 0 := by
  have hs' : (after.set "error" thrown).vars o.statusName = some address :=
    (Machine.set_vars_of_ne (o.not_param_of_local (by decide)).1 thrown).trans hs
  obtain ⟨hforward, hstatus⟩ := o.handOut_calls
  rcases o.exec_storeStatus H hs' (rfl : (Expr.number (-1)).callees = []) with
    ⟨m, err, h⟩ | ⟨evs₁, evs₂, w, ev, hw₁, hw₂, hvalue, hstores, h⟩
  · exact absurd (congrArg Prod.snd h) (hstore err)
  · have hw : w = H.plain (H.number (-1)) := (Except.ok.inj (Prod.mk.inj hvalue).2).symm
    rw [hw] at hstores
    have hstored : (o.stored H after thrown).1 =
        (after.set "error" thrown).extend (evs₁ ++ evs₂ ++ [ev]) := congrArg Prod.fst h
    obtain ⟨evs₃, final, v, h₃, hh₃, hw₃, hout⟩ := @exec_handOut V ctx H (o.stored H after thrown).1
    refine ⟨evs₁ ++ evs₂ ++ ev :: evs₃, final, v, ?_, ?_, ?_, ?_, ?_⟩
    · rw [catchBody_eq, Stmt.execAll_cons_ok h, ← hstored, Stmt.execAll, Eval.andThen_ok h₃]
      rfl
    · rw [hh₃, hstored]
      show after.history ++ (evs₁ ++ evs₂ ++ [ev]) ++ evs₃ = _
      simp only [List.append_assoc, List.singleton_append]
    · have hev : NoCallOf o.forward [ev] := by
        intro ev' hm
        rw [List.mem_singleton.mp hm, hstores.callee]
        exact fun e => Expr.noConfusion (Option.some.inj e)
      have hquiet := (hw₁.append hw₂).noCallOf (List.not_mem_nil (a := o.forward))
      exact hquiet.append (hev.append (hw₃.noCallOf hforward))
    · exact ⟨evs₁ ++ evs₂, ev, evs₃, rfl, hstores, hw₃.noCallOf hstatus⟩
    · cases hr : (Stmt.execAll H (handOut ctx) (o.stored H after thrown).1).2 with
      | ok c =>
        rw [hr] at hout
        have hout' := (hout.prepend [ev]).prepend (evs₁ ++ evs₂)
        exact hout'
      | error err =>
        rw [hr] at hout
        exact hout

/-! ## 4. The whole entry -/

/-- At the start of a call the status parameter holds the first value given. -/
theorem enter_status (H : Host V) (o : Ordinary ctx) (given : List V) :
    (o.property.enter H given).vars o.statusName = some (given.head?.getD H.undefined) ∧
      Holds (o.property.enter H given) o.source.params.tail
        (H.receive (o.source.params.tail.map (·.name)) given.tail) := by
  obtain ⟨status, others, h⟩ := o.shape
  have hparams : o.property.params = status.name :: others.map (·.name) := by
    show o.source.params.map (·.name) = _
    rw [h.params, List.map_cons]
  have hnodup : o.property.params.Nodup := h.bound.nodup
  have henter := Property.enter_params H hnodup given
  rw [hparams] at henter
  rw [statusName_eq h, h.params, List.tail_cons]
  cases henter with
  | cons hstatus hothers =>
    exact ⟨hstatus, List.forall₂_map_left_iff.mp hothers⟩

theorem ofKind_source (o : Ordinary ctx) : ofKind ctx .ordinary o.source = .ok (.ordinary o) := by
  have ho : Ordinary.of ctx o.source = .ok o := by
    unfold Ordinary.of
    split
    · rename_i err h
      rw [o.accepted] at h
      cases h
    · rfl
  rw [ofKind, ho]
  rfl

/-- **A call whose `try` region threw returns what the `catch` region returns**, if that can store the
    status, and what happened in the region stands behind what happened before. -/
theorem run_of_thrown (H : Host V) (o : Ordinary ctx) {given : List V} {after : Machine V}
    {thrown : V} (htried : o.tried H given = (after, .error thrown))
    (hstore : ∀ err, (o.stored H after thrown).2 ≠ .error err) : ∃ evs v,
    (o.property.run H given).2 = .ok v ∧
    (o.property.run H given).1.history = after.history ++ evs ∧ NoCallOf o.forward evs ∧
    LastStored H o.statusName (given.head?.getD H.undefined) (H.number (-1)) evs ∧
    match (Stmt.execAll H (handOut ctx) (o.stored H after thrown).1).2 with
    | .ok _ => HandedOut ctx v evs
    | .error _ => v = H.number 0 := by
  have htry : Stmt.execAll H o.tryBody (o.property.enter H given) = (after, .error thrown) := htried
  have hstatus : after.vars o.statusName = some (given.head?.getD H.undefined) := by
    obtain ⟨_, -, -, hv⟩ := Stmt.execAll_frame H o.tryBody (o.property.enter H given)
    have hsame := hv o.statusName o.statusName_not_target
    rw [htry] at hsame
    exact hsame.trans (o.enter_status H given).1
  obtain ⟨evs, final, v, hcatch, hh, hn, hlast, hout⟩ := execAll_catchBody H o hstatus hstore
  have hrun : o.property.run H given = (final.restore "error" (after.vars "error"), .ok v) := by
    refine run_of_returned ?_
    rw [Stmt.exec_attempt_error htry]
    show (((Stmt.execAll H o.catchBody (after.set "error" thrown)).1).restore _ _, _) = _
    rw [hcatch]
  rw [hrun]
  exact ⟨evs, v, rfl, hh, hn, hlast, hout⟩

/-! ## 5. The text of the entry -/

theorem readable_returnAnswer (result : Ty) : Stmt.AllReadable (returnAnswer result) := by
  have hvalue : answerValue.Readable .any := ⟨Expr.readable_name (by decide) _, by decide⟩
  unfold returnAnswer
  split
  · have hlength : (Expr.call (.name "lengthBytesUTF8") [.name "returnStr"]).Readable .any :=
      ⟨Expr.readable_name (by decide) _, Expr.readable_name (by decide) _, trivial⟩
    refine ⟨⟨by decide, hvalue⟩, ⟨by decide, rfl, hlength, nofun⟩, ⟨by decide, ?_⟩, ?_, ?_, trivial⟩
    · exact ⟨Expr.readable_name (by decide) _, Expr.readable_name (by decide) _, trivial⟩
    · exact ⟨Expr.readable_name (by decide) _, Expr.allReadable_names (by decide)⟩
    · exact Expr.readable_name (by decide) .any
  · exact ⟨hvalue, trivial⟩

/-- The parameters of an ordinary entry can be used and bound. -/
theorem isFree_param (o : Ordinary ctx) {p : Param} (hp : p ∈ o.source.params) :
    isFree p.name = true := by
  obtain ⟨_, _, hs⟩ := o.shape
  have hbound := hs.bound.params p.name (List.mem_map_of_mem hp)
  exact isFree_iff.mpr ⟨hbound.identifier, hbound.notReserved⟩

theorem readable_instanceSlot : (instanceSlot ctx.protocol).Readable .operand :=
  ⟨Expr.readable_name (by decide) _, nofun⟩

theorem readable_storeStatus (o : Ordinary ctx) {value : Expr} (h : value.Readable .any) :
    (o.storeStatus value).Readable := by
  obtain ⟨status, others, hs⟩ := o.shape
  have hstatus : isFree o.statusName = true := by
    rw [statusName_eq hs]
    exact o.isFree_param (by rw [hs.params]; exact List.mem_cons_self)
  exact ⟨Expr.readable_name (by decide) _, hstatus, h, nofun, trivial⟩

theorem readable_tryBody (o : Ordinary ctx)
    (hreserved : Ident.isReserved (Ident.rootSegment ctx.protocol.stringDecoder) = false) :
    Stmt.AllReadable o.tryBody := by
  obtain ⟨_, _, hs⟩ := o.shape
  have hdecode : ∀ p ∈ o.source.params.filter (·.ty.isString), (decodeParam ctx p).Readable := by
    intro p hp
    have hfree := o.isFree_param (List.mem_of_mem_filter hp)
    exact ⟨rfl, hfree, Expr.readable_ofPath ctx.sound.stringDecoder hreserved, hfree, trivial⟩
  have hforward : (Expr.member (.name "context") o.source.name).Readable .operand :=
    ⟨Expr.readable_name (by decide) _, hs.bound.name⟩
  have hgiven : ∀ x ∈ o.source.forwarded.map (·.name), isFree x = true := by
    intro x hx
    obtain ⟨p, hp, rfl⟩ := List.mem_map.mp hx
    exact o.isFree_param (List.mem_of_mem_filter hp)
  have htype : (Expr.member (.name "ret") "type").Readable .any :=
    ⟨Expr.readable_name (by decide) _, by decide⟩
  refine Stmt.allReadable_append (Stmt.allReadable_append (Stmt.allReadable_map hdecode) ?_)
    (readable_returnAnswer _)
  exact ⟨⟨by decide, readable_instanceSlot⟩,
    ⟨by decide, hforward, Expr.allReadable_names hgiven⟩, o.readable_storeStatus htype, trivial⟩

theorem readable_catchBody (o : Ordinary ctx) : Stmt.AllReadable o.catchBody := by
  have herror : (Expr.name "error").Readable .any := Expr.readable_name (by decide) _
  refine ⟨o.readable_storeStatus nofun,
    ⟨⟨?_, ?_, ?_, ?_, trivial⟩, by decide, nofun, trivial⟩, trivial⟩
  · exact ⟨⟨Expr.readable_name (by decide) _, by decide⟩, herror, trivial⟩
  · exact ⟨by decide, Expr.readable_name (by decide) _, herror, trivial⟩
  · exact ⟨by decide, ⟨readable_instanceSlot, by decide⟩, Expr.readable_name (by decide) _, trivial⟩
  · exact ⟨Expr.readable_name (by decide) _, by decide⟩

/-- **An ordinary entry is read back from its text** if the decoder does not begin with a reserved
    word. -/
theorem readable_property (o : Ordinary ctx)
    (hreserved : Ident.isReserved (Ident.rootSegment ctx.protocol.stringDecoder) = false) :
    o.property.Readable := by
  have hparams : ∀ x ∈ o.source.params.map (·.name), isFree x = true := by
    intro x hx
    obtain ⟨p, hp, rfl⟩ := List.mem_map.mp hx
    exact o.isFree_param hp
  exact ⟨o.named_property, hparams, ⟨o.readable_tryBody hreserved, by decide, o.readable_catchBody⟩,
    trivial⟩

/-- What an accepted extern adds to the text of a writer is its entry, at the depth of the writer. -/
theorem text_emission (o : Ordinary ctx) (w : Writer) :
    (emission ctx .ordinary o.source w).writer.text =
      w.text ++ Line.join (o.property.code.lines w.depth) := by
  rw [emission_of_ok o.ofKind_source, Writer.text_extend]
  rfl

/-! ## 6. Calls of what is read -/

/-- **A call of an ordinary entry recovers from whatever the host throws.** The text that is emitted
    for an accepted extern, on any writer, is read as a program of one `try` region with its `catch`
    region, and over any host a call of this program, given any values,

    * returns, if only the status of a thrown call can be stored;
    * calls the instance at most once, with the parameters behind the first in order, each text among
      them replaced by the answer to one call of the decoder that was made before;
    * if the `try` region ended without an error, stored the kind of the instance's answer last, and
      otherwise -1;
    * in the latter case returns the value of the text that was made of the error, or 0 if something
      was thrown on the way to it.

    The decoder must not begin with a variable of the entry or with a reserved word. -/
theorem run_recovers (H : Host V) (o : Ordinary ctx) (w : Writer) (given : List V)
    (hroot : Ident.rootSegment ctx.protocol.stringDecoder ∉ Ident.ordinaryLocals)
    (hreserved : Ident.isReserved (Ident.rootSegment ctx.protocol.stringDecoder) = false)
    (hstore : ∀ after thrown, o.tried H given = (after, .error thrown) →
      ∀ err, (o.stored H after thrown).2 ≠ .error err) :
    ∃ text p, (emission ctx .ordinary o.source w).writer.text = w.text ++ text ∧
      Script.read? text = some p ∧
      (p.name = o.source.name ∧ p.params = o.source.params.map (·.name) ∧
        p.body = [.attempt o.tryBody "error" o.catchBody]) ∧
      let call := p.run H given
      let address := given.head?.getD H.undefined
      let received := H.receive (o.source.params.tail.map (·.name)) given.tail
      (∃ v, call.2 = .ok v) ∧
      (NoCallOf o.forward call.1.history ∨
        ∃ answer, Forwarded o received call.1.history answer) ∧
      (∀ after c, o.tried H given = (after, .ok c) → ∃ answer value,
        Forwarded o received call.1.history (.ok answer) ∧
        ⟨.member (.name "ret") "type", .member answer "type", .ok value⟩ ∈ call.1.history ∧
        LastStored H o.statusName address value call.1.history) ∧
      ∀ after thrown, o.tried H given = (after, .error thrown) →
        LastStored H o.statusName address (H.number (-1)) call.1.history ∧
        match (Stmt.execAll H (handOut ctx) (o.stored H after thrown).1).2 with
        | .ok _ => ∃ value, call.2 = .ok value ∧ HandedOut ctx value call.1.history
        | .error _ => call.2 = .ok (H.number 0) := by
  refine ⟨_, o.property, o.text_emission w, Property.read?_code (o.readable_property hreserved) w.depth,
    ⟨rfl, rfl, rfl⟩, ?_⟩
  intro call address received
  obtain ⟨hstatus, hothers⟩ := o.enter_status H given
  obtain ⟨evs, after, result, htried, hh, hevs⟩ := tryBody_cases H o hroot hstatus hothers
  rw [Property.enter_history, List.nil_append] at hh
  have htried' : o.tried H given = (after, result) := htried
  cases result with
  | ok c =>
    obtain ⟨v, answer, value, rfl, hforwarded, htype, hlast⟩ := hevs.completed c rfl
    have hcall : call = (after, .ok v) := run_of_returned (Stmt.exec_attempt_ok htried)
    rw [hcall, hh]
    refine ⟨⟨v, rfl⟩, hevs.forwarded, fun _ _ _ => ⟨answer, value, hforwarded, htype, hlast⟩, ?_⟩
    intro after' thrown h
    rw [htried'] at h
    cases h
  | error thrown =>
    obtain ⟨evs', v, hcall, hh', hn', hlast, hout⟩ :=
      run_of_thrown H o htried' (hstore after thrown htried')
    have hhistory : call.1.history = evs ++ evs' := by
      rw [← hh]
      exact hh'
    rw [hhistory, hcall]
    refine ⟨⟨v, rfl⟩, ?_, ?_, ?_⟩
    · rcases hevs.forwarded with hn | ⟨answer, hforwarded⟩
      · exact Or.inl (hn.append hn')
      · exact Or.inr ⟨answer, hforwarded.append hn'⟩
    · intro after' c h
      rw [htried'] at h
      cases h
    · intro after' thrown' h
      rw [htried'] at h
      cases h
      refine ⟨hlast.prepend evs, ?_⟩
      cases hr : (Stmt.execAll H (handOut ctx) (o.stored H after thrown).1).2 with
      | ok c =>
        rw [hr] at hout
        exact ⟨v, rfl, hout.prepend evs⟩
      | error err =>
        rw [hr] at hout
        exact congrArg Except.ok hout

/-- A host of numbers on which `setText` cannot be read, and everything else is 1. -/
def sampleHost : Host Int where
  undefined := 0
  text s := s.length
  number n := n
  fits v n := v == n
  answer _ action :=
    match action with
    | .member _ "setText" => .error 7
    | _ => .ok 1

/-- An entry that decodes one text and returns another. -/
def sample : Ordinary .standard where
  source := ⟨"setText", "Native.Text",
    [⟨"status", .plain .i32, .output⟩, ⟨"key", .plain .string, .input⟩,
      ⟨"value", .plain .f64, .input⟩], .plain .string⟩
  accepted := by decide

/-- A call of the entry that is read from its text, on a host that throws. -/
theorem run_recovers_sample : ∃ after thrown text p,
    sample.tried sampleHost [4, 8, 15] = (after, .error thrown) ∧
    (emission .standard .ordinary sample.source .empty).writer.text = Writer.empty.text ++ text ∧
    Script.read? text = some p ∧ (∃ v, (p.run sampleHost [4, 8, 15]).2 = .ok v) ∧
    LastStored sampleHost "status" 4 (-1) (p.run sampleHost [4, 8, 15]).1.history := by
  cases htried : sample.tried sampleHost [4, 8, 15] with
  | mk after result =>
    have hafter : (sample.tried sampleHost [4, 8, 15]).1 = after := congrArg Prod.fst htried
    have hresult : (sample.tried sampleHost [4, 8, 15]).2.map (fun _ => ()) = .error 7 := by
      decide +kernel
    rw [htried] at hresult
    cases result with
    | ok c => cases hresult
    | error thrown =>
      cases hresult
      have hstored : (sample.stored sampleHost (sample.tried sampleHost [4, 8, 15]).1 7).2.isOk =
          true := by decide +kernel
      have hstore : ∀ after' thrown, sample.tried sampleHost [4, 8, 15] = (after', .error thrown) →
          ∀ err, (sample.stored sampleHost after' thrown).2 ≠ .error err := by
        intro after' thrown h err herr
        rw [htried] at h
        cases h
        rw [hafter, herr] at hstored
        cases hstored
      obtain ⟨text, p, htext, hread, -, hreturns, -, -, hthrown⟩ :=
        run_recovers sampleHost sample .empty [4, 8, 15] (by decide) (by decide) hstore
      exact ⟨after, 7, text, p, rfl, htext, hread, hreturns, (hthrown after 7 htried).1⟩

end HostGlue.Entry.Ordinary
