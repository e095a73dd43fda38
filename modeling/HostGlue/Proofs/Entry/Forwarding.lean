import HostGlue.Proofs.Entry.Acceptance
import HostGlue.Proofs.Script.Steps

/-!
# What the `try` region of an ordinary entry does

Over any host the region decodes the texts, calls the instance, stores the kind of the answer and
returns a value, or throws somewhere in between. This file shows that

* decoding makes one call for each text, in order, and replaces its variable by the answer
  (`Prepared`, `execAll_decode`);
* the instance is called at most once, with what was prepared (`Forwarded`, `execAll_forward`);
* if the region ends without an error, the kind of the answer was stored last (`LastStored`,
  `tryBody_cases`).
-/

namespace HostGlue.Entry.Ordinary

open Script

variable {V : Type} {ctx : Context}

/-! ## 1. What can be said of events -/

/-- The function that decodes texts. -/
def decoder (ctx : Context) : Expr := .ofPath ctx.protocol.stringDecoder

/-- The function of the instance that an entry forwards to. -/
def forward (o : Ordinary ctx) : Expr := .member (.name "context") o.source.name

/-- The call of the instance, as something that happened. -/
def forwardEvent (o : Ordinary ctx) (function inst : V) (args : List V)
    (answer : Except V V) : Event V :=
  ⟨.call o.forward (Expr.names (o.source.params.tail.map (·.name))), .call function inst args,
    answer⟩

/-- The function that stores a status. -/
def statusStore : Expr := .name "setValue"

/-- What is forwarded for parameters that received some values: for a text the answer to one call of
    the decoder on it, for all others what they received. The calls come in the order of the
    parameters. -/
inductive Prepared (decoder : Expr) : List Param → List V → List (Event V) → List V → Prop where
  | nil : Prepared decoder [] [] [] []
  | plain {p : Param} {ps : List Param} {v : V} {vs args : List V} {calls : List (Event V)}
      (notText : p.ty.isString = false) (others : Prepared decoder ps vs calls args) :
      Prepared decoder (p :: ps) (v :: vs) calls (v :: args)
  | text {p : Param} {ps : List Param} {v w function receiver : V} {vs args : List V}
      {calls : List (Event V)} (isText : p.ty.isString = true)
      (others : Prepared decoder ps vs calls args) :
      Prepared decoder (p :: ps) (v :: vs)
        (⟨.call decoder [.name p.name], .call function receiver [v], .ok w⟩ :: calls) (w :: args)

/-- Events in which the instance was read, and its function of the entry's name. -/
structure Fetched (o : Ordinary ctx) (inst function : V) (evs : List (Event V)) : Prop where
  slot : ∃ object key, ⟨instanceSlot ctx.protocol, .item object key, .ok inst⟩ ∈ evs
  member : ⟨o.forward, .member inst o.source.name, .ok function⟩ ∈ evs

/-- Events in which an entry called the instance once and got this answer: before that it read the
    function it called, prepared the values it received, and made no other calls. -/
def Forwarded (o : Ordinary ctx) (received : List V) (evs : List (Event V))
    (answer : Except V V) : Prop :=
  ∃ before after function inst args,
    evs = before ++ o.forwardEvent function inst args answer :: after ∧
    NoCallOf o.forward before ∧ NoCallOf o.forward after ∧ Fetched o inst function before ∧
    Prepared (decoder ctx) o.source.params.tail received (before.filter Event.isCall) args

/-- An event that stored a value through a parameter, at the address the parameter holds. -/
structure Stores (H : Host V) (status : String) (address value : V) (ev : Event V) : Prop where
  through : ∃ e, ev.expr = .call statusStore [.name status, e, .text "i32"]
  values : ∃ function receiver, ev.action = .call function receiver [address, value, H.text "i32"]
  done : ∃ v, ev.answer = .ok v

theorem Stores.callee {H : Host V} {status : String} {address value : V} {ev : Event V}
    (h : Stores H status address value ev) : ev.callee? = some statusStore := by
  obtain ⟨e, he⟩ := h.through
  rw [Event.callee?, he]

/-- Events in which this value was stored, and nothing behind it. -/
def LastStored (H : Host V) (status : String) (address value : V) (evs : List (Event V)) : Prop :=
  ∃ before ev after, evs = before ++ ev :: after ∧ Stores H status address value ev ∧
    NoCallOf statusStore after

theorem Forwarded.append {o : Ordinary ctx} {received : List V} {evs more : List (Event V)}
    {answer : Except V V} (h : Forwarded o received evs answer) (hm : NoCallOf o.forward more) :
    Forwarded o received (evs ++ more) answer := by
  obtain ⟨before, after, function, inst, args, rfl, hb, ha, hf, hp⟩ := h
  exact ⟨before, after ++ more, function, inst, args, by simp, hb, ha.append hm, hf, hp⟩

theorem Fetched.prepend {o : Ordinary ctx} {inst function : V} {evs : List (Event V)}
    (before : List (Event V)) (h : Fetched o inst function evs) :
    Fetched o inst function (before ++ evs) := by
  obtain ⟨object, key, hslot⟩ := h.slot
  exact ⟨⟨object, key, List.mem_append_right _ hslot⟩, List.mem_append_right _ h.member⟩

/-! ## 2. Decoding -/

theorem exec_decodeParam (H : Host V) {p : Param} {m : Machine V} {v : V}
    (hv : m.vars p.name = some v) :
    (∃ after thrown, (decodeParam ctx p).exec H m = (after, .error thrown)) ∨
    ∃ evs function receiver w, Within evs [] ∧
      (decodeParam ctx p).exec H m =
        ((m.extend (evs ++ [⟨.call (decoder ctx) [.name p.name], .call function receiver [v],
          .ok w⟩])).set p.name w, .ok .normal) := by
  have hargs : ∀ evs, Expr.evalAll H [.name p.name] (m.extend evs) = (m.extend evs, .ok [v]) :=
    fun evs => @Expr.evalAll_names V H (m.extend evs) [p.name] [v] (.cons hv .nil)
  rw [decodeParam, Stmt.exec_assign_name]
  rcases Expr.eval_call (Expr.callees_ofPath ctx.protocol.stringDecoder) hargs with
    ⟨evs, thrown, -, h⟩ | ⟨evs, function, receiver, answer, hw, h⟩
  · exact Or.inl ⟨_, thrown, Eval.andThen_error h⟩
  · cases answer with
    | error thrown => exact Or.inl ⟨_, thrown, Eval.andThen_error h⟩
    | ok w =>
      refine Or.inr ⟨evs, function, receiver, w, hw, ?_⟩
      rw [Eval.andThen_ok h]
      exact @Host.put_of_some V H (m.extend _) p.name v hv w

/-- The variables of parameters have these values. -/
def Holds (m : Machine V) : List Param → List V → Prop :=
  List.Forall₂ fun p v => m.vars p.name = some v

theorem Holds.extend {m : Machine V} {ps : List Param} {vs : List V} (h : Holds m ps vs)
    (evs : List (Event V)) : Holds (m.extend evs) ps vs := h

theorem Holds.names {m : Machine V} {ps : List Param} {vs : List V} (h : Holds m ps vs) :
    List.Forall₂ (fun x v => m.vars x = some v) (ps.map (·.name)) vs := by
  induction h with
  | nil => exact .nil
  | cons hv _ ih => exact .cons hv ih

/-- Another variable may be set. -/
theorem Holds.set {m : Machine V} {ps : List Param} {vs : List V} (h : Holds m ps vs) {x : String}
    (hx : x ∉ ps.map (·.name)) (w : V) : Holds (m.set x w) ps vs := by
  induction h with
  | nil => exact .nil
  | @cons p v ps vs hv _ ih =>
    rw [List.map_cons, List.mem_cons, not_or] at hx
    have hne : p.name ≠ x := fun e => hx.1 e.symm
    exact .cons ((if_neg hne).trans hv) (ih hx.2)

/-- **Decoding throws, or makes one call for each text** and leaves the answer in its variable. -/
theorem execAll_decode (H : Host V) : ∀ {ps : List Param} {vs : List V} {m : Machine V},
    Holds m ps vs → (ps.map (·.name)).Nodup →
    (∃ after thrown,
      Stmt.execAll H ((ps.filter (·.ty.isString)).map (decodeParam ctx)) m =
        (after, .error thrown)) ∨
    ∃ after evs args,
      Stmt.execAll H ((ps.filter (·.ty.isString)).map (decodeParam ctx)) m = (after, .ok .normal) ∧
      after.history = m.history ++ evs ∧ Within evs [decoder ctx] ∧
      Prepared (decoder ctx) ps vs (evs.filter Event.isCall) args ∧ Holds after ps args ∧
      ∀ y, y ∉ ps.map (·.name) → after.vars y = m.vars y
  | [], _, m, .nil, _ =>
      Or.inr ⟨m, [], [], rfl, (List.append_nil _).symm, within_nil _, .nil, .nil, fun _ _ => rfl⟩
  | p :: ps, v :: vs, m, .cons hv hps, hn => by
      rw [List.map_cons, List.nodup_cons] at hn
      cases ht : p.ty.isString with
      | false =>
        rw [List.filter_cons_of_neg (by simp [ht])]
        rcases execAll_decode H hps hn.2 with h | ⟨after, evs, args, h, hh, hw, hp, ha, hk⟩
        · exact Or.inl h
        · refine Or.inr ⟨after, evs, v :: args, h, hh, hw, .plain ht hp, .cons ?_ ha, ?_⟩
          · rw [hk p.name hn.1, hv]
          · exact fun y hy => hk y fun hm => hy (List.mem_cons_of_mem _ hm)
      | true =>
        have hfilter : (p :: ps).filter (·.ty.isString) = p :: ps.filter (·.ty.isString) :=
          List.filter_cons_of_pos ht
        rw [hfilter, List.map_cons]
        rcases exec_decodeParam H hv with ⟨after, thrown, h⟩ | ⟨evs₁, function, receiver, w, hw₁, h₁⟩
        · exact Or.inl ⟨after, thrown, Stmt.execAll_cons_error h⟩
        · rw [Stmt.execAll_cons_ok h₁]
          -- Behind the first decoding the others still hold what they received.
          have hothers : ∀ evs, Holds ((m.extend evs).set p.name w) ps vs := fun evs =>
            (Holds.extend hps evs).set hn.1 w
          rcases execAll_decode H (hothers _) hn.2 with
            h | ⟨after, evs, args, h, hh, hw, hp, ha, hk⟩
          · exact Or.inl h
          · refine Or.inr ⟨after, evs₁ ++ [⟨.call (decoder ctx) [.name p.name],
              .call function receiver [v], .ok w⟩] ++ evs, w :: args, h, ?_, ?_, ?_, .cons ?_ ha, ?_⟩
            · rw [hh]
              exact List.append_assoc _ _ _
            · refine ((hw₁.mono (List.nil_subset _)).append ?_).append hw
              intro ev hev f hf
              rw [List.mem_singleton.mp hev] at hf
              exact List.mem_singleton.mpr (Option.some.inj hf).symm
            · rw [List.filter_append, List.filter_append, hw₁.filter_isCall]
              exact .text ht hp
            · rw [hk p.name hn.1]
              exact if_pos rfl
            · intro y hy
              rw [List.map_cons, List.mem_cons, not_or] at hy
              rw [hk y hy.2]
              exact if_neg hy.1

/-! ## 3. Storing a status -/

/-- **Storing a status throws, or stores the value it is given** at the address that the parameter
    holds. -/
theorem exec_storeStatus (H : Host V) (o : Ordinary ctx) {m : Machine V} {address : V}
    (hs : m.vars o.statusName = some address) {value : Expr} (hv : value.callees = []) :
    (∃ after thrown, (o.storeStatus value).exec H m = (after, .error thrown)) ∨
    ∃ evs₁ evs₂ w ev, Within evs₁ [] ∧ Within evs₂ [] ∧
      value.eval H (m.extend evs₁) = (m.extend (evs₁ ++ evs₂), .ok w) ∧
      Stores H o.statusName address w.value ev ∧
      (o.storeStatus value).exec H m = (m.extend (evs₁ ++ evs₂ ++ [ev]), .ok .normal) := by
  have hname : Eval.Asks (statusStore.eval H) [] := Expr.eval_asks H _
  have hvalue := value.eval_asks H
  rw [hv] at hvalue
  have hword : o.statusTag.word = "i32" := congrArg StorageTag.word o.statusTag_eq
  rw [storeStatus, hword]
  rcases hname.cases m with ⟨evs₁, g, hw₁, hg⟩ | ⟨evs₁, thrown, -, hg⟩
  · have haddress : (Expr.name o.statusName).eval H (m.extend evs₁) =
        (m.extend evs₁, .ok (H.plain address)) := Expr.eval_name hs
    rcases hvalue.cases (m.extend evs₁) with ⟨evs₂, w, hw₂, hw⟩ | ⟨evs₂, thrown, -, hw⟩
    · rw [m.extend_extend] at hw
      have htag : Expr.evalAll H [.text "i32"] (m.extend (evs₁ ++ evs₂)) =
          (m.extend (evs₁ ++ evs₂), .ok [H.text "i32"]) := rfl
      have hargs := Expr.evalAll_cons_ok haddress (Expr.evalAll_cons_ok hw htag)
      obtain ⟨answer, hcall⟩ := Expr.eval_call_ok hg hargs
      cases answer with
      | error thrown => exact Or.inl ⟨_, thrown, Stmt.exec_run_error hcall⟩
      | ok v =>
        refine Or.inr ⟨evs₁, evs₂, w,
          ⟨.call statusStore [.name o.statusName, value, .text "i32"],
            .call g.value g.receiver [address, w.value, H.text "i32"], .ok v⟩,
          hw₁, hw₂, hw, ⟨⟨value, rfl⟩, ⟨_, _, rfl⟩, ⟨v, rfl⟩⟩, ?_⟩
        rw [m.extend_extend] at hcall
        exact Stmt.exec_run_ok hcall
    · have hrest : Expr.evalAll H [value, .text "i32"] (m.extend evs₁) =
          ((m.extend evs₁).extend evs₂, .error thrown) := Expr.evalAll_cons_error hw
      have hargs := Expr.evalAll_cons_rest_error haddress hrest
      exact Or.inl ⟨_, thrown, Stmt.exec_run_error (Expr.eval_call_args_error hg hargs)⟩
  · exact Or.inl ⟨_, thrown, Stmt.exec_run_error (Expr.eval_call_error hg)⟩

/-! ## 4. The whole region -/

/-- What the region does behind the call. -/
def settle (o : Ordinary ctx) : List Stmt :=
  o.storeStatus (.member (.name "ret") "type") :: returnAnswer o.source.result

theorem tryBody_eq (o : Ordinary ctx) :
    o.tryBody = (o.source.params.filter (·.ty.isString)).map (decodeParam ctx) ++
      .declare "context" (instanceSlot ctx.protocol) ::
      .declare "ret" (.call o.forward (Expr.names (o.source.forwarded.map (·.name)))) ::
      o.settle := by
  rw [tryBody, List.append_assoc]
  rfl

/-- The answer is returned at the end, whatever its type. -/
theorem returnAnswer_eq (result : Ty) : ∃ init e, returnAnswer result = init ++ [.give e] := by
  unfold returnAnswer
  split
  · exact ⟨[_, _, _, _], _, rfl⟩
  · exact ⟨[], _, rfl⟩

/-- Returning the answer calls what copies a text, and nothing else. -/
theorem callees_returnAnswer (result : Ty) :
    Stmt.calleesAll (returnAnswer result) ⊆
      [.name "lengthBytesUTF8", .name "_malloc", .name "stringToUTF8"] := by
  unfold returnAnswer
  split
  · exact List.Subset.refl _
  · exact List.nil_subset _

theorem targets_returnAnswer (result : Ty) :
    Stmt.targetsAll (returnAnswer result) ⊆ Ident.ordinaryLocals := by
  unfold returnAnswer
  split <;> decide

/-- How the region ended, by what was answered: with an error, or it returned, and the kind of the
    answer is what was stored last. -/
inductive Settled (H : Host V) (o : Ordinary ctx) (address : V) (evs : List (Event V)) :
    Except V V → Except V (Completion V) → Prop where
  | thrown {answer : Except V V} {thrown : V} : Settled H o address evs answer (.error thrown)
  | stored {answer value v : V}
      (kind : ⟨.member (.name "ret") "type", .member answer "type", .ok value⟩ ∈ evs)
      (last : LastStored H o.statusName address value evs) :
      Settled H o address evs (.ok answer) (.ok (.returned v))

/-- What is done behind the call does not call the instance. -/
theorem forward_not_settle (o : Ordinary ctx) : o.forward ∉ Stmt.calleesAll o.settle := by
  intro hm
  rcases List.mem_append.mp hm with hm | hm
  · cases List.mem_singleton.mp hm
  · have hcopies := callees_returnAnswer _ hm
    simp only [forward, List.mem_cons, List.not_mem_nil, reduceCtorEq, or_self] at hcopies

/-- Returning the answer stores no status. -/
theorem statusStore_not_return (result : Ty) :
    statusStore ∉ Stmt.calleesAll (returnAnswer result) := by
  intro hm
  have hcopies := callees_returnAnswer _ hm
  simp [statusStore] at hcopies

/-- **Behind the call the region throws, or stores the kind of the answer last** and returns. -/
theorem execAll_settle (H : Host V) (o : Ordinary ctx) {m : Machine V} {address answer : V}
    (hs : m.vars o.statusName = some address) (hr : m.vars "ret" = some answer) :
    ∃ evs after result, Stmt.execAll H o.settle m = (after, result) ∧
      after.history = m.history ++ evs ∧ NoCallOf o.forward evs ∧
      Settled H o address evs (.ok answer) result := by
  obtain ⟨evs, hh, hw, -⟩ := Stmt.execAll_frame H o.settle m
  cases hexec : Stmt.execAll H o.settle m with
  | mk after result =>
    rw [hexec] at hh
    refine ⟨evs, after, result, rfl, hh, hw.noCallOf o.forward_not_settle, ?_⟩
    cases result with
    | error thrown => exact .thrown
    | ok c =>
      rcases o.exec_storeStatus H hs (rfl : (Expr.member (.name "ret") "type").callees = []) with
        ⟨_, thrown, h⟩ | ⟨evs₁, evs₂, w, ev, -, -, hw₂, hstores, h⟩
      · rw [settle, Stmt.execAll_cons_error h] at hexec
        cases hexec
      · rw [settle, Stmt.execAll_cons_ok h] at hexec
        obtain ⟨evs₃, hh₃, hw₃, -⟩ := Stmt.execAll_frame H (returnAnswer o.source.result)
          (m.extend (evs₁ ++ evs₂ ++ [ev]))
        rw [hexec] at hh₃
        have hevs : evs = evs₁ ++ evs₂ ++ [ev] ++ evs₃ := by
          have e := hh.symm.trans hh₃
          rw [Machine.extend, List.append_assoc] at e
          exact List.append_cancel_left e
        have htype := (Expr.of_eval_member_name (by exact hr) (m.extend_extend evs₁ evs₂ ▸ hw₂)).1
        obtain ⟨init, e, hgive⟩ := returnAnswer_eq o.source.result
        rw [hgive] at hexec
        obtain ⟨v, rfl⟩ := Stmt.execAll_give hexec
        refine @Settled.stored V ctx H o address evs answer w.value v ?_ ⟨evs₁ ++ evs₂, ev, evs₃, ?_, hstores,
          hw₃.noCallOf (statusStore_not_return _)⟩
        · rw [hevs, htype]
          simp
        · rw [hevs, List.append_assoc]
          rfl

theorem callees_decodes : ∀ ps : List Param,
    Stmt.calleesAll (ps.map (decodeParam ctx)) ⊆ [decoder ctx]
  | [] => List.nil_subset _
  | p :: ps => by
      have hdecode : (decodeParam ctx p).callees = [decoder ctx] := by
        show (decoder ctx).callees ++ [] ++ [decoder ctx] = _
        rw [decoder, Expr.callees_ofPath]
        rfl
      rw [List.map_cons, Stmt.calleesAll, hdecode]
      exact List.append_subset.mpr ⟨List.Subset.refl _, callees_decodes ps⟩

theorem targets_decodes : ∀ ps : List Param,
    Stmt.targetsAll (ps.map (decodeParam ctx)) = ps.map (·.name)
  | [] => rfl
  | p :: ps => by
      rw [List.map_cons, Stmt.targetsAll, targets_decodes ps]
      rfl

/-- A decoder that is rooted in no variable of the entry is not what it forwards to. -/
theorem decoder_ne_forward (o : Ordinary ctx)
    (hroot : Ident.rootSegment ctx.protocol.stringDecoder ∉ Ident.ordinaryLocals) :
    decoder ctx ≠ o.forward := by
  intro h
  have e := congrArg Expr.root? h
  rw [decoder, Expr.root?_ofPath ctx.sound.stringDecoder] at e
  have hcontext : Ident.rootSegment ctx.protocol.stringDecoder = "context" := Option.some.inj e
  exact hroot (by rw [hcontext]; decide)

/-- A variable of the entry is no parameter of it. -/
theorem not_param_of_local (o : Ordinary ctx) {x : String} (hx : x ∈ Ident.ordinaryLocals) :
    o.statusName ≠ x ∧ x ∉ o.source.params.tail.map (·.name) := by
  obtain ⟨status, others, h⟩ := o.shape
  have hparam : x ∉ o.source.params.map (·.name) := fun hm => (h.bound.params x hm).notLocal hx
  rw [h.params, List.map_cons, List.mem_cons, not_or, ← statusName_eq h] at hparam
  rw [h.params, List.tail_cons]
  exact ⟨fun e => hparam.1 e.symm, hparam.2⟩

/-- The region does not set the parameter of the status. -/
theorem statusName_not_target (o : Ordinary ctx) : o.statusName ∉ Stmt.targetsAll o.tryBody := by
  obtain ⟨status, others, h⟩ := o.shape
  have hn := h.bound.nodup
  rw [h.params, List.map_cons, List.nodup_cons, ← statusName_eq h] at hn
  rw [tryBody_eq, Stmt.targetsAll_append, targets_decodes, h.strings, List.mem_append]
  rintro (hm | hm)
  · obtain ⟨p, hp, e⟩ := List.mem_map.mp hm
    exact hn.1 (e ▸ List.mem_map_of_mem (List.mem_of_mem_filter hp))
  · rcases List.mem_cons.mp hm with hm | hm
    · exact (o.not_param_of_local (by decide)).1 hm
    · rcases List.mem_cons.mp hm with hm | hm
      · exact (o.not_param_of_local (by decide)).1 hm
      · exact (o.not_param_of_local (targets_returnAnswer _ hm)).1 rfl

/-- What is known of the events of the region and of how it ended. The instance was called at most
    once, with the values that were prepared for it. If there was no error, the region returned, the
    instance answered, and the kind of its answer is what was stored last. -/
structure Tried (H : Host V) (o : Ordinary ctx) (address : V) (received : List V)
    (evs : List (Event V)) (result : Except V (Completion V)) : Prop where
  forwarded : NoCallOf o.forward evs ∨ ∃ answer, Forwarded o received evs answer
  completed : ∀ c, result = .ok c → ∃ v answer value, c = .returned v ∧
    Forwarded o received evs (.ok answer) ∧
    ⟨.member (.name "ret") "type", .member answer "type", .ok value⟩ ∈ evs ∧
    LastStored H o.statusName address value evs

theorem Tried.unforwarded {H : Host V} {o : Ordinary ctx} {address thrown : V} {received : List V}
    {evs : List (Event V)} (h : NoCallOf o.forward evs) :
    Tried H o address received evs (.error thrown) :=
  ⟨Or.inl h, fun c hc => by cases hc⟩

theorem LastStored.prepend {H : Host V} {status : String} {address value : V}
    {evs : List (Event V)} (before : List (Event V)) (h : LastStored H status address value evs) :
    LastStored H status address value (before ++ evs) := by
  obtain ⟨first, ev, after, rfl, hs, ha⟩ := h
  exact ⟨before ++ first, ev, after, (List.append_assoc _ _ _).symm, hs, ha⟩

/-- What happened from the reading of the instance on: it threw before the instance was called, or the
    instance was called once, with these values, and the end is as it was settled. -/
inductive Passed (H : Host V) (o : Ordinary ctx) (address : V) (args : List V) :
    List (Event V) → Except V (Completion V) → Prop where
  | uncalled {evs : List (Event V)} {thrown : V} (quiet : Within evs []) :
      Passed H o address args evs (.error thrown)
  | called {before after : List (Event V)} {function inst : V} {answer : Except V V}
      {result : Except V (Completion V)} (quiet : Within before [])
      (fetched : Fetched o inst function before) (others : NoCallOf o.forward after)
      (settled : Settled H o address after answer result) :
      Passed H o address args (before ++ o.forwardEvent function inst args answer :: after) result

/-- The instance was read, and then the function of the entry's name from it. -/
theorem fetched_of_slot {H : Host V} (o : Ordinary ctx) {m : Machine V} {evs : List (Event V)}
    {c : Ref V} (function : V)
    (h : (instanceSlot ctx.protocol).eval H m = (m.extend evs, .ok c)) :
    Fetched o c.value function
      (evs ++ [⟨o.forward, .member c.value o.source.name, .ok function⟩]) := by
  obtain ⟨object, key, hitem⟩ := Expr.of_eval_item h
  exact ⟨⟨object, key, List.mem_append_left _ hitem⟩,
    List.mem_append_right _ (List.mem_singleton_self _)⟩

/-- To read a function of the instance is no call. -/
theorem within_read (o : Ordinary ctx) (inst function : V) :
    Within [⟨o.forward, .member inst o.source.name, .ok function⟩] [] := by
  intro ev hev f hf
  rw [List.mem_singleton.mp hev] at hf
  cases hf

/-- **With the instance at hand** the region throws before it calls it, or it calls it with what the
    variables hold. -/
theorem execAll_call (H : Host V) (o : Ordinary ctx) {m : Machine V} {address inst : V}
    {args : List V} (hs : m.vars o.statusName = some address)
    (hargs : Holds m o.source.params.tail args) (hinst : m.vars "context" = some inst) :
    ∃ evs after result,
      Stmt.execAll H (.declare "ret"
        (.call o.forward (Expr.names (o.source.params.tail.map (·.name)))) :: o.settle) m =
          (after, result) ∧
      after.history = m.history ++ evs ∧
      ((Within evs [] ∧ ∃ thrown, result = .error thrown) ∨
        ∃ function answer later,
          evs = ⟨o.forward, .member inst o.source.name, .ok function⟩ ::
            o.forwardEvent function inst args answer :: later ∧
          NoCallOf o.forward later ∧ Settled H o address later answer result) := by
  rcases Expr.eval_call_member hinst fun evs => Expr.evalAll_names (hargs.extend evs).names with
    ⟨evs, thrown, hw, h⟩ | ⟨function, answer, h⟩
  · -- The instance has no such function, or it is none at all.
    exact ⟨evs, _, _, Stmt.execAll_cons_error (Stmt.exec_declare_error h), rfl,
      Or.inl ⟨hw, thrown, rfl⟩⟩
  · cases answer with
    | error thrown =>
      exact ⟨_, _, _, Stmt.execAll_cons_error (Stmt.exec_declare_error h), rfl,
        Or.inr ⟨function, .error thrown, [], rfl, fun _ h => absurd h List.not_mem_nil, .thrown⟩⟩
    | ok r =>
      have hret := o.not_param_of_local (by decide : "ret" ∈ Ident.ordinaryLocals)
      have hcall : (Expr.call o.forward
          (Expr.names (o.source.params.tail.map (·.name)))).eval H m = (_, .ok (H.plain r)) := h
      rw [Stmt.execAll_cons_ok (Stmt.exec_declare_ok hcall)]
      obtain ⟨later, after, result, h', hh, hn, hsettled⟩ := execAll_settle H o
        (m := (m.extend [⟨o.forward, .member inst o.source.name, .ok function⟩,
          o.forwardEvent function inst args (.ok r)]).set "ret" r)
        ((Machine.set_vars_of_ne hret.1 r).trans hs) (Machine.set_vars_self _ _ _)
      exact ⟨_, after, result, h', hh.trans (List.append_assoc _ [_, _] _),
        Or.inr ⟨function, .ok r, later, rfl, hn, hsettled⟩⟩

/-- **Behind the decoding** the region throws before it calls the instance, or it calls the instance
    with what the variables hold. -/
theorem execAll_forward (H : Host V) (o : Ordinary ctx) {m : Machine V} {address : V}
    {args : List V} (hs : m.vars o.statusName = some address)
    (hargs : Holds m o.source.params.tail args) :
    ∃ evs after result,
      Stmt.execAll H (.declare "context" (instanceSlot ctx.protocol) ::
        .declare "ret" (.call o.forward (Expr.names (o.source.params.tail.map (·.name)))) ::
        o.settle) m = (after, result) ∧
      after.history = m.history ++ evs ∧ Passed H o address args evs result := by
  have hcontext := o.not_param_of_local (by decide : "context" ∈ Ident.ordinaryLocals)
  have hslot : Eval.Asks ((instanceSlot ctx.protocol).eval H) [] := Expr.eval_asks H _
  rcases hslot.cases m with ⟨evs₁, c, hw₁, h₁⟩ | ⟨evs₁, thrown, hw₁, h₁⟩
  case inr =>
    -- There is no instance to be had.
    exact ⟨evs₁, _, _, Stmt.execAll_cons_error (Stmt.exec_declare_error h₁), rfl, .uncalled hw₁⟩
  rw [Stmt.execAll_cons_ok (Stmt.exec_declare_ok h₁)]
  obtain ⟨evs₂, after, result, h₂, hh₂, hcases⟩ := execAll_call H o
    (m := (m.extend evs₁).set "context" c.value)
    ((Machine.set_vars_of_ne hcontext.1 c.value).trans hs)
    ((hargs.extend evs₁).set hcontext.2 c.value) (Machine.set_vars_self _ _ _)
  refine ⟨evs₁ ++ evs₂, after, result, h₂, hh₂.trans (List.append_assoc _ _ _), ?_⟩
  rcases hcases with ⟨hw₂, thrown, rfl⟩ | ⟨function, answer, later, rfl, hlater, hsettled⟩
  · exact .uncalled (hw₁.append hw₂)
  · rw [List.append_cons]
    exact .called (hw₁.append (o.within_read c.value function)) (o.fetched_of_slot function h₁)
      hlater hsettled

/-- What happened behind the decoding, with what was decoded before, is what is known of the
    region. -/
theorem Passed.tried {H : Host V} {o : Ordinary ctx} {address : V} {received args : List V}
    {decoded evs : List (Event V)} {result : Except V (Completion V)}
    (h : Passed H o address args evs result) (hn : NoCallOf o.forward decoded)
    (hp : Prepared (decoder ctx) o.source.params.tail received (decoded.filter Event.isCall) args) :
    Tried H o address received (decoded ++ evs) result := by
  cases h with
  | uncalled quiet => exact .unforwarded (hn.append (quiet.noCallOf List.not_mem_nil))
  | @called before after function inst answer result quiet fetched others settled =>
    have hforwarded : Forwarded o received
        (decoded ++ (before ++ o.forwardEvent function inst args answer :: after)) answer := by
      refine ⟨decoded ++ before, after, function, inst, args, (List.append_assoc _ _ _).symm,
        hn.append (quiet.noCallOf List.not_mem_nil), others, fetched.prepend decoded, ?_⟩
      rw [List.filter_append, quiet.filter_isCall, List.append_nil]
      exact hp
    refine ⟨Or.inr ⟨answer, hforwarded⟩, fun c hc => ?_⟩
    cases settled with
    | thrown => cases hc
    | @stored answer value v kind last =>
      cases hc
      have hlast := (last.prepend [o.forwardEvent function inst args (.ok answer)]).prepend
        (decoded ++ before)
      rw [List.append_assoc] at hlast
      exact ⟨v, answer, value, rfl, hforwarded, by simp [kind], hlast⟩

/-- **The `try` region over any host** is as described. -/
theorem tryBody_cases (H : Host V) (o : Ordinary ctx)
    (hroot : Ident.rootSegment ctx.protocol.stringDecoder ∉ Ident.ordinaryLocals)
    {m : Machine V} {address : V} {received : List V} (hs : m.vars o.statusName = some address)
    (hreceived : Holds m o.source.params.tail received) :
    ∃ evs after result, Stmt.execAll H o.tryBody m = (after, result) ∧
      after.history = m.history ++ evs ∧ Tried H o address received evs result := by
  obtain ⟨status, others, hshape⟩ := o.shape
  have htail : o.source.params.tail = others := by rw [hshape.params, List.tail_cons]
  have hnodup := hshape.bound.nodup
  rw [hshape.params, List.map_cons, List.nodup_cons, ← statusName_eq hshape] at hnodup
  have hdecoder : o.forward ∉ [decoder ctx] := fun hm =>
    o.decoder_ne_forward hroot (List.mem_singleton.mp hm).symm
  rw [tryBody_eq, hshape.strings, hshape.forwarded, ← htail]
  rw [← htail] at hnodup
  rcases execAll_decode H hreceived hnodup.2 with
    ⟨after, thrown, h⟩ | ⟨m₁, evs₁, args, h₁, hh₁, hw₁, hprepared, hargs, hkeep⟩
  · -- A text could not be decoded.
    obtain ⟨evs, hh, hw, -⟩ := Stmt.execAll_frame H
      ((o.source.params.tail.filter (·.ty.isString)).map (decodeParam ctx)) m
    rw [h] at hh
    exact ⟨evs, after, _, Stmt.execAll_append_error h, hh,
      .unforwarded ((hw.mono (callees_decodes _)).noCallOf hdecoder)⟩
  have hn₁ : NoCallOf o.forward evs₁ := hw₁.noCallOf hdecoder
  have hs₁ : m₁.vars o.statusName = some address := (hkeep _ hnodup.1).trans hs
  rw [Stmt.execAll_append_ok h₁]
  obtain ⟨evs₂, after, result, h₂, hh₂, hpassed⟩ := execAll_forward H o hs₁ hargs
  exact ⟨evs₁ ++ evs₂, after, result, h₂, by rw [hh₂, hh₁, List.append_assoc],
    hpassed.tried hn₁ hprepared⟩

end HostGlue.Entry.Ordinary
