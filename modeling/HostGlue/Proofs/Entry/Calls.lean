import HostGlue.Proofs.Document.Layout

/-!
# The calls of function pointers

A trampoline hands its arguments on to a function pointer of the native side. The host reads from a
signature string how: its first character is the class of the result, and every other one is that of an
argument. This file shows that

* a signature lists the classes of the result and of the arguments (`classes_of_callSignature`), and that
  a parameter of type `void` is what has the class `void` (`Param.dispatchTag_eq_void_iff`);
* a trampoline is written as an indirect call (`Trampoline.line_eq`), on a line of its own behind the
  builder of views (`Initializer.getElem?_lines_property`);
* **`Initializer.emission_calls`: the three calls fit the callbacks they are made for**, and all their
  arguments carry a value exactly if no argument of the callback is `void`. Such an argument is let
  through (`Initializer.void_argument_called`), although an ordinary entry refuses such a parameter.
-/

namespace HostGlue

open Json (bind_eq_ok)

/-! ## 1. Classes -/

/-- The characters of the classes that carry a value. -/
def DispatchTag.carrying : List Char := ['i', 'j', 'f', 'd']

theorem DispatchTag.char_mem_carrying_iff (tag : DispatchTag) :
    tag.char ∈ carrying ↔ tag ≠ .void := by
  cases tag <;> decide

theorem DispatchTag.char_eq_v_iff (tag : DispatchTag) : tag.char = 'v' ↔ tag = .void := by
  cases tag <;> decide

/-- A parameter that carries nothing: it is of type `void`, and not passed by its address. -/
def Param.IsVoid (p : Param) : Prop := p.direction = .input ∧ p.ty = .plain .void

instance (p : Param) : Decidable p.IsVoid :=
  inferInstanceAs (Decidable (p.direction = .input ∧ p.ty = .plain .void))

theorem Ty.dispatchTag_eq_void_iff (ty : Ty) : ty.dispatchTag = .ok .void ↔ ty = .plain .void := by
  cases ty with
  | callback params result => simp [dispatchTag]
  | plain t => cases t <;> simp [dispatchTag, width?]

theorem Param.dispatchTag_eq_void_iff (p : Param) : p.dispatchTag = .ok .void ↔ p.IsVoid := by
  unfold dispatchTag IsVoid
  cases p.direction with
  | output => simp
  | input => simpa using p.ty.dispatchTag_eq_void_iff

/-- Every argument has a class, and what is listed are their characters. -/
theorem classes_of_argumentTags : ∀ {params : List Param} {cs : List Char},
    argumentTags params = .ok cs → ∃ tags : List DispatchTag,
      params.map (·.dispatchTag) = tags.map .ok ∧ cs = tags.map (·.char)
  | [], _, h => by
      cases h
      exact ⟨[], rfl, rfl⟩
  | a :: params, _, h => by
      obtain ⟨tag, htag, h⟩ := bind_eq_ok.mp h
      obtain ⟨cs, hcs, h⟩ := bind_eq_ok.mp h
      cases h
      obtain ⟨tags, htags, rfl⟩ := classes_of_argumentTags hcs
      refine ⟨tag :: tags, ?_, rfl⟩
      rw [List.map_cons, List.map_cons, htag, htags]

/-- **A signature lists the class of the result and then those of the arguments.** -/
theorem classes_of_callSignature {result : Ty} {params : List Param} {signature : String}
    (h : callSignature result params = .ok signature) :
    ∃ (tag : DispatchTag) (tags : List DispatchTag), result.dispatchTag = .ok tag ∧
      params.map (·.dispatchTag) = tags.map .ok ∧
      signature.toList = tag.char :: tags.map (·.char) := by
  obtain ⟨tag, htag, h⟩ := bind_eq_ok.mp h
  obtain ⟨cs, hcs, h⟩ := bind_eq_ok.mp h
  cases h
  obtain ⟨tags, htags, rfl⟩ := classes_of_argumentTags hcs
  exact ⟨tag, tags, htag, htags, String.toList_ofList⟩

namespace Entry

open Script (Expr Stmt)

/-! ## 2. Indirect calls -/

/-- A variable that holds a function which calls a function pointer: the arguments it takes, the
    signature, the pointer, and the arguments it passes on. -/
structure IndirectCall where
  binding : String
  args : List String
  signature : String
  pointer : String
  passed : List String

namespace IndirectCall

/-- An indirect call as it is written, by a function of the host. -/
def text (dynCall : String) (c : IndirectCall) : String :=
  "var " ++ c.binding ++ " = function (" ++ ", ".intercalate c.args ++ ") \x7b return " ++ dynCall ++
    "(\x27" ++ c.signature ++ "\x27, " ++ c.pointer ++ ", [" ++ ", ".intercalate c.passed ++ "]); \x7d;"

/-- A call that is made for a parameter and its callback: it passes on what it takes, in order, and its
    signature has the class of the result and then one class for every argument, at its position. -/
structure Fits (c : IndirectCall) (pointer : String) (params : List Param) (result : Ty) : Prop where
  args : c.args = params.map (·.name)
  passed : c.passed = c.args
  pointer : c.pointer = pointer
  length : c.signature.length = c.args.length + 1
  result : ∃ tag, result.dispatchTag = .ok tag ∧ c.signature.toList[0]? = some tag.char
  arguments : ∀ k a, params[k]? = some a →
    ∃ tag, a.dispatchTag = .ok tag ∧ c.signature.toList[k + 1]? = some tag.char

/-- Every character of the signature behind the first is that of a class that carries a value. -/
def Valued (c : IndirectCall) : Prop := ∀ t ∈ c.signature.toList.tail, t ∈ DispatchTag.carrying

variable {c : IndirectCall} {pointer : String} {params : List Param} {result : Ty}

/-- A call with the signature of a callback fits it. -/
theorem fits_of_callSignature (hargs : c.args = params.map (·.name)) (hpassed : c.passed = c.args)
    (hpointer : c.pointer = pointer) (h : callSignature result params = .ok c.signature) :
    c.Fits pointer params result := by
  obtain ⟨tag, tags, hresult, htags, hsignature⟩ := classes_of_callSignature h
  constructor
  case args => exact hargs
  case passed => exact hpassed
  case pointer => exact hpointer
  case length =>
    have hlength : params.length = tags.length := by
      simpa using congrArg List.length htags
    rw [← String.length_toList, hsignature, hargs, List.length_cons, List.length_map, List.length_map,
      hlength]
  case result => exact ⟨tag, hresult, by rw [hsignature]; rfl⟩
  case arguments =>
    intro k a ha
    have hk : (tags.map Except.ok)[k]? = some a.dispatchTag := by
      rw [← htags, List.getElem?_map, ha]
      rfl
    rw [List.getElem?_map] at hk
    obtain ⟨t, ht, he⟩ := Option.map_eq_some_iff.mp hk
    refine ⟨t, he.symm, ?_⟩
    rw [hsignature, List.getElem?_cons_succ, List.getElem?_map, ht]
    rfl

/-- At the position of an argument there is a `v` exactly if the argument is `void`. -/
theorem Fits.v_iff (h : c.Fits pointer params result) {k : Nat} {a : Param} (ha : params[k]? = some a) :
    c.signature.toList[k + 1]? = some 'v' ↔ a.IsVoid := by
  obtain ⟨tag, htag, hk⟩ := h.arguments k a ha
  rw [hk, Option.some_inj, DispatchTag.char_eq_v_iff, ← Param.dispatchTag_eq_void_iff, htag,
    Except.ok.injEq]

/-- Every argument carries a value exactly if none is `void`. -/
theorem valued_iff (h : callSignature result params = .ok c.signature) :
    c.Valued ↔ ∀ a ∈ params, ¬a.IsVoid := by
  obtain ⟨tag, tags, -, htags, hsignature⟩ := classes_of_callSignature h
  calc c.Valued
      ↔ ∀ t ∈ tags, t ≠ DispatchTag.void := by
        rw [Valued, hsignature, List.tail_cons, List.forall_mem_map]
        simp only [DispatchTag.char_mem_carrying_iff]
    _ ↔ Except.ok DispatchTag.void ∉ params.map (·.dispatchTag) := by
        rw [htags, List.mem_map_of_injective fun _ _ => Except.ok.inj]
        exact ⟨fun h hm => h _ hm rfl, fun h t ht e => h (e ▸ ht)⟩
    _ ↔ ∀ a ∈ params, ¬a.IsVoid := by
        simp only [List.mem_map, Param.dispatchTag_eq_void_iff, not_exists, not_and]

end IndirectCall

/-- A trampoline as an indirect call. -/
def Trampoline.indirectCall (t : Trampoline) : IndirectCall :=
  ⟨t.binding, t.args, t.signature, t.pointer, t.args⟩

/-! ## 3. Trampolines -/

/-- Every character of a signature stands for itself in a literal. -/
theorem encode_of_callSignature {result : Ty} {params : List Param} {signature : String}
    (h : callSignature result params = .ok signature) :
    Text.Quoted.encode signature = "\x27" ++ signature ++ "\x27" := by
  have hclass : ∀ tag : DispatchTag, Text.Quoted.encodeChar tag.char = [tag.char] := by
    intro tag
    cases tag <;> rfl
  obtain ⟨tag, tags, -, -, hsignature⟩ := classes_of_callSignature h
  refine Text.Quoted.encode_of_plain fun c hc => ?_
  rw [hsignature] at hc
  rcases List.mem_cons.mp hc with rfl | hc
  · exact hclass tag
  · obtain ⟨u, -, rfl⟩ := List.mem_map.mp hc
    exact hclass u

/-- **A trampoline is written as an indirect call** by the function that the protocol names. -/
theorem Trampoline.line_eq {ctx : Context} {e : Extern} {x : String} {p : Param} {t : Trampoline}
    (h : Wraps ctx e x p t) (d : Nat) :
    t.line ctx d = ⟨d, t.indirectCall.text ctx.protocol.dynCall⟩ := by
  have hsignature : Text.Quoted.encode t.signature = "\x27" ++ t.signature ++ "\x27" := by
    cases h with
    | of _ _ _ signed => exact encode_of_callSignature signed
  have hhead : " = function (" = " = " ++ "function (" := rfl
  have hopen : "(\x27" = "(" ++ "\x27" := rfl
  have hclose : "\x27, " = "\x27" ++ ", " := rfl
  have hend : "]); \x7d;" = "]); \x7d" ++ ";" := rfl
  rw [line, spell_function, hsignature]
  -- Rewriting with the equation of `text` would end in comparing two texts character by character.
  unfold indirectCall IndirectCall.text
  rw [hhead, hopen, hclose, hend]
  simp only [String.append_assoc]

namespace Initializer

variable {ctx : Context}

/-- The lines of an initializer: its head and the builder of views, the trampolines, and the rest. -/
theorem lines_property (ctx : Context) (i : Initializer) (d : Nat) : ∃ front back : List Line,
    (i.property ctx).code.lines d =
      front ++ (i.trampolines.map (Trampoline.line ctx (d + 1)) ++ back) ∧
    front.length = 5 + ctx.kinds.length := by
  let head : Line :=
    ⟨d, openLine ((i.property ctx).name ++ ": " ++ Script.functionHead (i.property ctx).params)⟩
  refine ⟨head :: Code.bodyLines (d + 1) (declareArrayBuilder ctx.kinds).code,
    Code.bodyLines (d + 1) (Stmt.bodyCode (construction ctx)) ++ [⟨d, closeLine ","⟩], ?_, ?_⟩
  · rw [Script.Property.code, Code.lines, lines_body]
    simp only [List.cons_append, List.append_assoc, head]
  · rw [List.length_cons, Code.length_bodyLines, size_declareArrayBuilder]
    omega

/-- The lines of the trampolines stand one below the other, behind the head and the builder of views. -/
theorem getElem?_lines_property {i : Initializer} {j : Nat} {t : Trampoline}
    (ht : i.trampolines[j]? = some t) (d : Nat) :
    ((i.property ctx).code.lines d)[5 + ctx.kinds.length + j]? = some (t.line ctx (d + 1)) := by
  obtain ⟨front, back, hlines, hfront⟩ := lines_property ctx i d
  have hline : (i.trampolines.map (Trampoline.line ctx (d + 1)))[j]? = some (t.line ctx (d + 1)) := by
    rw [List.getElem?_map, ht]
    rfl
  rw [hlines, ← hfront, List.getElem?_append_right (Nat.le_add_right _ _), Nat.add_sub_cancel_left,
    List.getElem?_append_left (List.getElem?_eq_some_iff.mp hline).1, hline]

/-- The parameter that a trampoline is made for stands at the same place. -/
theorem Shape.wraps_at {i : Initializer} (h : Shape ctx i) {j : Nat} (hj : j < 3) :
    ∃ x p t, trampolineNames[j]? = some x ∧ i.source.params[j]? = some p ∧
      i.trampolines[j]? = some t ∧ Trampoline.Wraps ctx i.source x p t := by
  obtain ⟨p, q, r, rest, t, u, v, hparams, hts, hp, hq, hr⟩ := h.three
  rw [hparams, hts]
  match j with
  | 0 => exact ⟨"ch", p, t, rfl, rfl, rfl, hp⟩
  | 1 => exact ⟨"oac", q, u, rfl, rfl, rfl, hq⟩
  | 2 => exact ⟨"orc", r, v, rfl, rfl, rfl, hr⟩

/-- **The three calls of an initializer fit the callbacks they are made for.** Whatever the writer holds,
    the lines of the trampolines stand behind the head and the builder of views. Each calls the parameter
    at its place, with a signature that has a class for the result and one for every argument. A `v`
    stands for an argument exactly if that argument is `void`, so all of them carry a value exactly if
    none is. -/
theorem emission_calls (ctx : Context) (e : Extern) (w : Writer)
    (h : (emission ctx .initializer e w).failure = none) :
    ∃ added, (emission ctx .initializer e w).writer.lines = w.lines ++ added ∧
      ∀ j < 3, ∃ p params result, ∃ call : IndirectCall,
        e.params[j]? = some p ∧ p.ty = .callback params result ∧
        added[5 + ctx.kinds.length + j]? = some ⟨w.depth + 1, call.text ctx.protocol.dynCall⟩ ∧
        trampolineNames[j]? = some call.binding ∧ call.Fits p.name params result ∧
        (∀ k a, params[k]? = some a → (call.signature.toList[k + 1]? = some 'v' ↔ a.IsVoid)) ∧
        (call.Valued ↔ ∀ a ∈ params, ¬a.IsVoid) := by
  cases hof : ofKind ctx .initializer e with
  | error err =>
    rw [emission_of_error hof] at h
    cases h
  | ok entry =>
    rcases ofKind_eq_ok hof with ⟨hk, -⟩ | ⟨-, i, rfl, hi, rfl⟩
    · cases hk
    rw [emission_of_ok hof]
    refine ⟨(i.property ctx).code.lines w.depth, rfl, fun j hj => ?_⟩
    obtain ⟨x, p, t, hx, hp, ht, hwraps⟩ := hi.wraps_at hj
    have hline : ((i.property ctx).code.lines w.depth)[5 + ctx.kinds.length + j]? =
        some ⟨w.depth + 1, t.indirectCall.text ctx.protocol.dynCall⟩ := by
      rw [getElem?_lines_property ht, Trampoline.line_eq hwraps]
    cases hwraps with
    | @of params result signature callback _ _ signed =>
      let call : IndirectCall := Trampoline.indirectCall ⟨x, p.name, params.map (·.name), signature⟩
      have hfits : call.Fits p.name params result :=
        IndirectCall.fits_of_callSignature rfl rfl rfl signed
      exact ⟨p, params, result, call, hp, callback, hline, hx, hfits, fun k a ha => hfits.v_iff ha,
        IndirectCall.valued_iff signed⟩

/-- An initializer with arguments of every class: numbers, references, an address of something `void`,
    and a function pointer again. -/
def callingExtern : Extern :=
  let pointer : Ty := .callback [⟨"nothing", .plain .void, .input⟩] (.plain .void)
  ⟨"InitializeInternal", "Native.Text",
    [⟨"handler", .callback [⟨"key", .plain .string, .input⟩, ⟨"size", .plain .i64, .input⟩,
        ⟨"ratio", .plain .f64, .input⟩, ⟨"slot", .plain .void, .output⟩] (.plain .u64), .input⟩,
      ⟨"acquire", .callback [] (.plain .void), .input⟩,
      ⟨"release", .callback [⟨"then", pointer, .input⟩] (.plain .f32), .input⟩], .plain .void⟩

theorem emission_calls_sample :
    (emission .standard .initializer callingExtern .empty).failure = none ∧
    ∀ j < 3, ∃ call : IndirectCall, call.Valued ∧
      (emission .standard .initializer callingExtern .empty).writer.lines[13 + j]? =
        some ⟨1, call.text "Runtime.dynCall"⟩ := by
  have hnone : (emission .standard .initializer callingExtern .empty).failure = none := by
    decide +kernel
  obtain ⟨added, hlines, hcalls⟩ := emission_calls .standard callingExtern .empty hnone
  refine ⟨hnone, fun j hj => ?_⟩
  obtain ⟨p, params, result, call, hp, hty, hline, -, -, -, hvalued⟩ := hcalls j hj
  refine ⟨call, hvalued.mpr ?_, by rw [hlines]; exact hline⟩
  match j, hj with
  | 0, _ | 1, _ | 2, _ =>
    cases hp
    cases hty
    decide

/-- An initializer whose first callback takes an argument of type `void`. -/
def voidExtern : Extern :=
  let callback := fun (name : String) (ty : Plain) =>
    Ty.callback [⟨name, .plain ty, .input⟩] (.plain .void)
  ⟨"InitializeInternal", "Native.Text", [⟨"handler", callback "nothing" .void, .input⟩,
    ⟨"acquire", callback "handle" .i32, .input⟩, ⟨"release", callback "handle" .i32, .input⟩],
    .plain .void⟩

/-- **A `v` can stand for an argument**: the call of the first callback has two of them, and passes on
    one argument. -/
theorem void_argument_called : ∃ call : IndirectCall,
    (emission .standard .initializer voidExtern .empty).failure = none ∧
    (emission .standard .initializer voidExtern .empty).writer.lines[13]? =
      some ⟨1, call.text "Runtime.dynCall"⟩ ∧
    call.signature = "vv" ∧ call.passed = ["nothing"] ∧ ¬call.Valued := by
  refine ⟨⟨"ch", ["nothing"], "vv", "handler", ["nothing"]⟩, ?_, ?_, rfl, rfl, ?_⟩
  · decide +kernel
  · decide +kernel
  · exact fun h => absurd (h 'v' (by decide)) (by decide)

end Initializer

end Entry

end HostGlue
