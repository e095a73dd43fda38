import HostGlue.Proofs.Entry.Complaints

/-!
# Everything that speaks against an initializer

The initializer wraps its first three parameters, which are function pointers. Here all that can be said
against an extern as an initializer is listed, in the order in which it counts:

* `typeComplaints`, the types of a callback that cannot be handed to an indirect call, and that the
  signature fails at the first of them (`failureOf_callSignature`);
* `Initializer.callbackComplaints`, all that is wrong with one callback: its arguments, then its types;
* `Initializer.complaints`, all errors of an extern: its names, the number of its parameters, then one
  callback after another, and that the check gives the first (`Initializer.failureOf_of`);
* `Initializer.Acceptable`, what an extern must be like (`Initializer.complaints_eq_nil_iff`);
* **`Initializer.emission_first_complaint`: on any writer an extern is emitted as an initializer exactly
  if it is acceptable**, and the error is the first complaint otherwise.
-/

namespace HostGlue.Entry

open Ident (Bindable)

/-- The error of a result, if it is one. -/
def failureOf {ε α : Type} : Except ε α → Option ε
  | .error err => some err
  | .ok _ => none

/-! ## 1. Names of arguments -/

/-- All that speaks against the name of a trampoline argument, behind the names `before`. -/
def argumentObjections (params roots before : List String) (name : String) : List Objection :=
  nameObjections name ++
    applying
      [(params.contains name, .shadowsInitializerParam),
        (Ident.initializerLocals.contains name, .shadowsWiringLocal),
        (roots.contains name, .shadowsProtocolFunction), (before.contains name, .duplicateParam)]

theorem head?_argumentObjections (params roots before : List String) (name : String) :
    (argumentObjections params roots before name).head? =
      argumentObjection? params roots before name := by
  unfold argumentObjections argumentObjection?
  simp only [List.head?_append, head?_nameObjections, head?_applying_cons]
  cases Ident.objection? name <;> rfl

/-! ## 2. Types of callbacks -/

/-- The integers of 8 and 16 bits. -/
def narrow : List Ty := [.plain .i8, .plain .u8, .plain .i16, .plain .u16]

/-- All types of a callback that cannot be handed to an indirect call: that of the result, then those
    of the arguments that carry a value in. -/
def typeComplaints (result : Ty) (params : List Param) : List Untagged :=
  ((result :: (params.filter (·.direction == .input)).map (·.ty)).filter (· ∈ narrow)).map
    (⟨·, .dispatch⟩)

theorem failureOf_dispatchTag (ty : Ty) :
    failureOf ty.dispatchTag = if ty ∈ narrow then some ⟨ty, .dispatch⟩ else none := by
  cases ty with
  | callback params result => simp [narrow, Ty.dispatchTag, failureOf]
  | plain t => cases t <;> simp [narrow, Ty.dispatchTag, Ty.width?, failureOf]

/-- The first argument without a class is the first that carries a narrow integer in. -/
theorem failureOf_argumentTags : ∀ params : List Param,
    failureOf (argumentTags params) =
      ((((params.filter (·.direction == .input)).map (·.ty)).filter (· ∈ narrow)).map
        (⟨·, .dispatch⟩)).head?
  | [] => rfl
  | a :: params => by
      have ih := failureOf_argumentTags params
      have hty := failureOf_dispatchTag a.ty
      rw [argumentTags, Param.dispatchTag, List.filter_cons]
      cases hd : a.direction with
      | output =>
        rw [if_neg (by decide), ← ih]
        cases argumentTags params <;> rfl
      | input =>
        rw [if_pos (by decide), List.map_cons, List.filter_cons]
        cases htag : a.ty.dispatchTag with
        | error u =>
          rw [htag] at hty
          split at hty
          · rename_i hnarrow
            rw [if_pos (decide_eq_true hnarrow)]
            exact hty
          · cases hty
        | ok tag =>
          rw [htag] at hty
          split at hty
          · cases hty
          · rename_i hwide
            rw [if_neg (by simpa using hwide), ← ih]
            cases argumentTags params <;> rfl

/-- **A signature fails at the first type that has no class**, that of the result before those of the
    arguments. -/
theorem failureOf_callSignature (result : Ty) (params : List Param) :
    failureOf (callSignature result params) = (typeComplaints result params).head? := by
  have hresult := failureOf_dispatchTag result
  have hparams := failureOf_argumentTags params
  rw [callSignature, typeComplaints, List.filter_cons]
  cases htag : result.dispatchTag with
  | error u =>
    rw [htag] at hresult
    split at hresult
    · rename_i hnarrow
      rw [if_pos (decide_eq_true hnarrow)]
      exact hresult
    · cases hresult
  | ok tag =>
    rw [htag] at hresult
    split at hresult
    · cases hresult
    · rename_i hwide
      rw [if_neg (by simpa using hwide), ← hparams]
      cases argumentTags params <;> rfl

theorem typeComplaints_eq_nil_iff (result : Ty) (params : List Param) :
    typeComplaints result params = [] ↔
      result ∉ narrow ∧ ∀ a ∈ params, a.direction = .input → a.ty ∉ narrow := by
  simp only [typeComplaints, List.map_eq_nil_iff, List.filter_eq_nil_iff, List.forall_mem_cons,
    List.forall_mem_map, List.mem_filter, decide_eq_true_eq, beq_iff_eq, and_imp]

namespace Initializer

variable (ctx : Context) (e : Extern)

/-! ## 3. Complaints -/

/-- All that speaks against a parameter that a trampoline has to wrap. -/
def callbackComplaints (p : Param) : List GlueError :=
  match p.ty with
  | .plain t => [.badInitializer e.name e.owner (.notCallback p.name (.plain t))]
  | .callback params result =>
    (objectionsTo (argumentObjections (e.params.map (·.name)) ctx.protocol.roots) []
      (params.map (·.name))).map
        (fun bad => .badInitializer e.name e.owner (.badArgument p.name bad.1 bad.2)) ++
    (typeComplaints result params).map (.unsupportedType e.name e.owner)

/-- All that speaks against an extern as an initializer before its callbacks are looked at: its own
    name, the names of its parameters, and how many there are. -/
def entryComplaints : List GlueError :=
  applying [(!Ident.isIdentifier e.name,
      .invalidIdentifier e.name (.entry e.name e.owner) .notIdentifier)] ++
    (objectionsTo (paramObjections Ident.initializerLocals ctx.protocol.roots) []
      (e.params.map (·.name))).map
        (fun bad => .invalidIdentifier bad.1 (.entry e.name e.owner) bad.2) ++
    applying [(e.params.length < 3, .badInitializer e.name e.owner (.tooFewParams e.params.length))]

/-- All that speaks against an extern as an initializer. -/
def complaints : List GlueError :=
  entryComplaints ctx e ++ (e.params.take 3).flatMap (callbackComplaints ctx e)

theorem failureOf_trampoline (x : String) (p : Param) :
    failureOf (Trampoline.of ctx e x p) = (callbackComplaints ctx e p).head? := by
  unfold Trampoline.of callbackComplaints
  cases p.ty with
  | plain t => rfl
  | callback params result =>
    simp only [List.head?_append, List.head?_map, ← failureOf_callSignature,
      head?_objectionsTo (head?_argumentObjections (e.params.map (·.name)) ctx.protocol.roots)]
    cases firstObjection? (argumentObjection? (e.params.map (·.name)) ctx.protocol.roots) []
        (params.map (·.name)) with
    | some bad => rfl
    | none => cases callSignature result params <;> rfl

theorem failureOf_trampolines : ∀ xs : List (String × Param),
    failureOf (Entry.trampolines ctx e xs) = ((xs.map (·.2)).flatMap (callbackComplaints ctx e)).head?
  | [] => rfl
  | (x, p) :: xs => by
      have ih := failureOf_trampolines xs
      have hp := failureOf_trampoline ctx e x p
      rw [Entry.trampolines, List.map_cons, List.flatMap_cons, List.head?_append, ← hp, ← ih]
      cases Trampoline.of ctx e x p with
      | error err => rfl
      | ok t => cases Entry.trampolines ctx e xs <;> rfl

/-- Trampolines are made for the first three parameters. -/
theorem wrapped_eq_take (ps : List Param) : (trampolineNames.zip ps).map (·.2) = ps.take 3 :=
  match ps with
  | [] | [_] | [_, _] | _ :: _ :: _ :: _ => rfl

/-- **The check gives the first complaint.** -/
theorem failureOf_of : failureOf (of ctx e) = (complaints ctx e).head? := by
  have hwrapped := failureOf_trampolines ctx e (trampolineNames.zip e.params)
  rw [wrapped_eq_take] at hwrapped
  unfold of complaints entryComplaints bindingError?
  -- Each check gives the head of a list of its own, and the lists are appended in the order of the checks.
  simp only [List.head?_append, List.head?_map, head?_applying_cons, ← hwrapped,
    head?_objectionsTo (head?_paramObjections Ident.initializerLocals ctx.protocol.roots)]
  cases Ident.isIdentifier e.name with
  | false => rfl
  | true =>
    cases firstObjection? (paramObjection? Ident.initializerLocals ctx.protocol.roots) []
        (e.params.map (·.name)) with
    | some bad => rfl
    | none =>
      have hcount : trampolineNames.length = 3 := rfl
      by_cases hlength : e.params.length < 3
      · simp only [hcount, hlength, decide_true, if_true]
        rfl
      · simp only [hcount, hlength, decide_false, if_false]
        cases Entry.trampolines ctx e (trampolineNames.zip e.params) <;> rfl

/-! ## 4. Acceptable externs -/

/-- What the type of a function pointer must be like for a trampoline to call it: its arguments can be
    bound inside the initializer, beside all its parameters and variables, and come once, and neither
    its result nor what an argument carries in is a narrow integer. -/
structure Callable (params : List Param) (result : Ty) : Prop where
  distinct : (params.map (·.name)).Nodup
  free : ∀ a ∈ params, Ident.isIdentifier a.name = true ∧ a.name ∉ Ident.reservedWords ∧
    a.name ∉ Ident.hostGlobals ∧ a.name ∉ e.params.map (·.name) ∧
    a.name ∉ Ident.initializerLocals ∧
    a.name ∉ [Ident.rootSegment ctx.protocol.stringDecoder, Ident.rootSegment ctx.protocol.dynCall]
  result : result ∉ narrow
  arguments : ∀ a ∈ params, a.direction = .input → a.ty ∉ narrow

/-- What an extern must be like to be an initializer: its name can be a property key, its parameters can
    be bound in the function beside each other, its variables, the host's names and the functions of the
    protocol, and at least three of them come first whose pointers can be called. -/
structure Acceptable : Prop where
  name : Ident.isIdentifier e.name = true
  distinct : (e.params.map (·.name)).Nodup
  free : ∀ p ∈ e.params, Ident.isIdentifier p.name = true ∧ p.name ∉ Ident.reservedWords ∧
    p.name ∉ Ident.hostGlobals ∧ p.name ∉ Ident.initializerLocals ∧
    p.name ∉ [Ident.rootSegment ctx.protocol.stringDecoder, Ident.rootSegment ctx.protocol.dynCall]
  enough : 3 ≤ e.params.length
  callbacks : ∀ p ∈ e.params.take 3, ∃ params result, p.ty = .callback params result ∧
    Callable ctx e params result

theorem entryComplaints_eq_nil_iff : entryComplaints ctx e = [] ↔
    Bound Ident.initializerLocals ctx e ∧ 3 ≤ e.params.length := by
  simp only [entryComplaints, List.append_eq_nil_iff, List.map_eq_nil_iff, applying_eq_nil_iff,
    objectionsTo_eq_nil_iff (head?_paramObjections Ident.initializerLocals ctx.protocol.roots)
      (paramObjection?_eq_none_iff Ident.initializerLocals ctx.protocol.roots),
    List.forall_mem_cons, List.not_mem_nil, false_imp_iff, implies_true, and_true,
    Bool.not_eq_false', decide_eq_false_iff_not, Nat.not_lt]
  constructor
  · rintro ⟨⟨hname, hfree, hdistinct⟩, henough⟩
    exact ⟨⟨hname, hfree, hdistinct⟩, henough⟩
  · rintro ⟨⟨hname, hfree, hdistinct⟩, henough⟩
    exact ⟨⟨hname, hfree, hdistinct⟩, henough⟩

theorem callbackComplaints_eq_nil_iff (p : Param) : callbackComplaints ctx e p = [] ↔
    ∃ params result, p.ty = .callback params result ∧ Callable ctx e params result := by
  unfold callbackComplaints
  cases p.ty with
  | plain t => simp
  | callback params result =>
    simp only [List.append_eq_nil_iff, List.map_eq_nil_iff, typeComplaints_eq_nil_iff,
      objectionsTo_eq_nil_iff (head?_argumentObjections (e.params.map (·.name)) ctx.protocol.roots)
        (argumentObjection?_eq_none_iff (e.params.map (·.name)) ctx.protocol.roots),
      List.forall_mem_map, Ident.bindable_iff, List.mem_append, not_or, and_assoc]
    constructor
    · rintro ⟨hfree, hdistinct, hresult, harguments⟩
      exact ⟨params, result, rfl, hdistinct, hfree, hresult, harguments⟩
    · rintro ⟨params', result', hty, hdistinct, hfree, hresult, harguments⟩
      cases hty
      exact ⟨hfree, hdistinct, hresult, harguments⟩

/-- **Nothing speaks against an extern exactly if it is acceptable.** -/
theorem complaints_eq_nil_iff : complaints ctx e = [] ↔ Acceptable ctx e := by
  simp only [complaints, List.append_eq_nil_iff, List.flatMap_eq_nil_iff, entryComplaints_eq_nil_iff,
    callbackComplaints_eq_nil_iff]
  constructor
  · rintro ⟨⟨⟨hname, hfree, hdistinct⟩, henough⟩, hcallbacks⟩
    exact ⟨hname, hdistinct, fun p hp => Ident.bindable_iff.mp (hfree _ (List.mem_map_of_mem hp)),
      henough, hcallbacks⟩
  · rintro ⟨hname, hdistinct, hfree, henough, hcallbacks⟩
    refine ⟨⟨⟨hname, fun x hx => ?_, hdistinct⟩, henough⟩, hcallbacks⟩
    obtain ⟨p, hp, rfl⟩ := List.mem_map.mp hx
    exact Ident.bindable_iff.mpr (hfree p hp)

/-! ## 5. Emissions -/

theorem failure_emission (w : Writer) :
    (emission ctx .initializer e w).failure = (complaints ctx e).head? := by
  rw [← failureOf_of]
  cases h : of ctx e with
  | error err =>
    have hof : ofKind ctx .initializer e = .error err := by rw [ofKind, h]; rfl
    rw [emission_of_error hof]
    rfl
  | ok i =>
    have hof : ofKind ctx .initializer e = .ok (.initializer i) := by rw [ofKind, h]; rfl
    rw [emission_of_ok hof]
    rfl

/-- **An extern is emitted as an initializer exactly if it is acceptable**, whatever the writer holds.
    If it is not, the error is the first complaint about it: about its name, the name of a parameter,
    the number of its parameters, and then about one callback after another, its arguments before its
    types. So what is wrong with one callback is reported whatever is wrong with those behind it. -/
theorem emission_first_complaint (w : Writer) :
    ((emission ctx .initializer e w).failure = none ↔ Acceptable ctx e) ∧
    (emission ctx .initializer e w).failure = (complaints ctx e).head? ∧
    ∀ before p after, e.params.take 3 = before ++ p :: after → entryComplaints ctx e = [] →
      (∀ q ∈ before, callbackComplaints ctx e q = []) → callbackComplaints ctx e p ≠ [] →
      (emission ctx .initializer e w).failure = (callbackComplaints ctx e p).head? := by
  rw [failure_emission]
  refine ⟨?_, rfl, fun before p after htake hentry hbefore hp => ?_⟩
  · rw [List.head?_eq_none_iff, complaints_eq_nil_iff]
  · obtain ⟨err, rest, hcons⟩ := List.exists_cons_of_ne_nil hp
    rw [complaints, hentry, List.nil_append, htake, List.flatMap_append,
      List.flatMap_eq_nil_iff.mpr hbefore, List.nil_append, List.flatMap_cons, hcons]
    rfl

/-- An initializer whose second callback takes a narrow integer, and whose third has an argument that
    cannot be bound. -/
def sampleExtern : Extern :=
  let callback := fun (name : String) (ty : Plain) =>
    Ty.callback [⟨name, .plain ty, .input⟩] (.plain .void)
  ⟨"InitializeInternal", "Native.Text", [⟨"handler", callback "pointer" .i32, .input⟩,
    ⟨"acquire", callback "flag" .u8, .input⟩, ⟨"release", callback "new" .i32, .input⟩],
    .plain .void⟩

theorem emission_first_complaint_sample :
    ∃ before p after, sampleExtern.params.take 3 = before ++ p :: after ∧ p.name = "acquire" ∧
      entryComplaints .standard sampleExtern = [] ∧
      (∀ q ∈ before, callbackComplaints .standard sampleExtern q = []) ∧
      callbackComplaints .standard sampleExtern p ≠ [] ∧
      (emission .standard .initializer sampleExtern .empty).failure =
        some (.unsupportedType "InitializeInternal" "Native.Text" ⟨.plain .u8, .dispatch⟩) := by
  have hentry : entryComplaints .standard sampleExtern = [] := by decide +kernel
  have hbefore : ∀ q ∈ sampleExtern.params.take 1,
      callbackComplaints .standard sampleExtern q = [] := by decide +kernel
  have hcomplaint : callbackComplaints .standard sampleExtern
      ⟨"acquire", .callback [⟨"flag", .plain .u8, .input⟩] (.plain .void), .input⟩ =
      [.unsupportedType "InitializeInternal" "Native.Text" ⟨.plain .u8, .dispatch⟩] := by
    decide +kernel
  have hp := hcomplaint ▸ List.cons_ne_nil _ []
  refine ⟨sampleExtern.params.take 1, _, _, rfl, rfl, hentry, hbefore, hp, ?_⟩
  rw [(emission_first_complaint .standard sampleExtern .empty).2.2 _ _ _ rfl hentry hbefore hp,
    hcomplaint]
  rfl

end Initializer

end HostGlue.Entry
