import HostGlue.Proofs.Entry.Face
import HostGlue.Proofs.Script.Scope

/-!
# What the functions of a document call, and what is bound there

An entry calls three kinds of host functions that are named by its input: the decoder of texts, the
function behind trampolines, and the constructors of views. For each this file says at which call sites
of the entry it is called, which names are bound there, and on which line of the text the call stands:

* `Ordinary.sites_decode`: the decoder, in the lines that decode a parameter (`decoding`);
* `Initializer.sites_dispatch`: the function behind trampolines, inside each trampoline, which stands in
  a row of the constructor (`row`);
* `Initializer.sites_view`: a constructor for every kind of view, inside the builder (`caseLine`).
-/

namespace HostGlue.Entry

open Script (Expr Stmt CallSite)

/-! ## 1. Ordinary entries -/

namespace Ordinary

variable {ctx : Context}

/-- The variables of an ordinary entry, by the type of its result. -/
def locals (result : Ty) : List String :=
  ["context", "ret"] ++ (if result.isString then ["returnStr", "bufferSize", "strBuffer"] else []) ++
    ["errString", "strRet"]

theorem declared_decodes : ∀ ps : List Param, Stmt.declaredAll (ps.map (decodeParam ctx)) = []
  | [] => rfl
  | _ :: ps => declared_decodes ps

theorem declared_returnAnswer (result : Ty) :
    Stmt.declaredAll (returnAnswer result) =
      if result.isString then ["returnStr", "bufferSize", "strBuffer"] else [] := by
  unfold returnAnswer
  split <;> rfl

/-- The names bound in all of an ordinary entry are its parameters and its variables. -/
theorem scope_property (o : Ordinary ctx) :
    o.property.scope = o.source.params.map (·.name) ++ locals o.source.result := by
  have htry : Stmt.declaredAll o.tryBody =
      ["context", "ret"] ++ Stmt.declaredAll (returnAnswer o.source.result) := by
    rw [tryBody, Stmt.declaredAll_append, Stmt.declaredAll_append, declared_decodes]
    rfl
  show _ ++ (Stmt.declaredAll o.tryBody ++ ["errString", "strRet"] ++ []) = _
  rw [htry, declared_returnAnswer, List.append_nil]
  rfl

/-- The text that decodes a parameter of a name. -/
def decoding (decoder name : String) : String := name ++ " = " ++ decoder ++ "(" ++ name ++ ");"

/-- The call that decodes a parameter, with the names that are bound there. -/
def decodeSite (ctx : Context) (bound : List String) (p : Param) : CallSite :=
  ⟨decodeParam ctx p, decoding ctx.protocol.stringDecoder p.name,
    .ofPath ctx.protocol.stringDecoder, bound⟩

/-- A parameter is decoded by a call of the decoder. -/
theorem sites_decodeParam (bound : List String) (p : Param) :
    (decodeParam ctx p).sites bound = [decodeSite ctx bound p] := by
  have hline : p.name ++ " = " ++
      (Expr.call (.ofPath ctx.protocol.stringDecoder) [.name p.name]).spell ++ ";" =
      decoding ctx.protocol.stringDecoder p.name := by
    have hclose : ");" = ")" ++ ";" := rfl
    have harg : Script.commaList (Expr.spellings [.name p.name]) = p.name :=
      String.intercalate_singleton
    have hcall : (Expr.call (.ofPath ctx.protocol.stringDecoder) [.name p.name]).spell =
        ctx.protocol.stringDecoder ++ "(" ++ p.name ++ ")" := by
      rw [Expr.spell, Expr.spell_ofPath, harg]
    rw [hcall, decoding, hclose]
    simp only [String.append_assoc]
  show [] ++ (List.map _ (_ :: ((Expr.ofPath ctx.protocol.stringDecoder).called bound ++ [])) ++ []) = _
  rw [Expr.called_ofPath]
  exact congrArg (fun line => [CallSite.mk (decodeParam ctx p) line _ bound]) hline

theorem sites_decodes (bound : List String) : ∀ ps : List Param,
    Stmt.sitesAll bound (ps.map (decodeParam ctx)) = ps.map (decodeSite ctx bound)
  | [] => rfl
  | p :: ps => by
      rw [List.map_cons, Stmt.sitesAll, sites_decodeParam, sites_decodes bound ps]
      rfl

/-- What an ordinary entry does behind its decodings. -/
def behindDecoding (o : Ordinary ctx) : List Stmt :=
  .declare "context" (instanceSlot ctx.protocol) :: o.behindContext

theorem tryBody_decodes (o : Ordinary ctx) :
    o.tryBody =
      (o.source.params.filter (·.ty.isString)).map (decodeParam ctx) ++ o.behindDecoding := by
  rw [tryBody, List.append_assoc]
  rfl

/-- **The decoder is called where a text parameter is decoded**, and there all parameters and variables
    of the entry are bound, but nothing that is caught. -/
theorem sites_decode (o : Ordinary ctx) :
    o.property.sitesIn Stmt.setsVariable =
      (o.source.params.filter (·.ty.isString)).map (decodeSite ctx o.property.scope) := by
  have hbehind : Stmt.lacksAll Stmt.setsVariable o.behindDecoding = true := by
    unfold behindDecoding behindContext returnAnswer
    split <;> rfl
  have hcatch : Stmt.lacksAll Stmt.setsVariable o.catchBody = true := rfl
  show Stmt.formed _ (Stmt.sitesAll _ o.tryBody ++ Stmt.sitesAll _ o.catchBody ++ []) = _
  rw [List.append_nil, Stmt.formed_append, Stmt.formed_sitesAll_of_lacks _ _ _ hcatch,
    List.append_nil, tryBody_decodes, Stmt.sitesAll_append, Stmt.formed_append,
    Stmt.formed_sitesAll_of_lacks _ _ _ hbehind, List.append_nil, sites_decodes, Stmt.formed,
    List.filter_eq_self]
  intro s hs
  obtain ⟨p, -, rfl⟩ := List.mem_map.mp hs
  rfl

/-- An ordinary entry lacks a form of statements if its decodings do, and the lines behind them, and
    those of the handler. -/
theorem lacks_property (o : Ordinary ctx) {form : Stmt → Bool}
    (hdecode : ∀ p ∈ o.source.params, form (decodeParam ctx p) = false)
    (hbehind : Stmt.lacksAll form o.behindDecoding = true)
    (hcatch : Stmt.lacksAll form o.catchBody = true) :
    Stmt.lacksAll form o.property.body = true := by
  have hdecodes : ∀ ps : List Param, (∀ p ∈ ps, p ∈ o.source.params) →
      Stmt.lacksAll form (ps.map (decodeParam ctx)) = true := by
    intro ps hps
    induction ps with
    | nil => rfl
    | cons p ps ih =>
      have hp : (decodeParam ctx p).lacks form = true := by
        have h := hdecode p (hps p List.mem_cons_self)
        rw [decodeParam] at h ⊢
        rw [Stmt.lacks, h]
        rfl
      rw [List.map_cons, Stmt.lacksAll, hp, ih fun q hq => hps q (List.mem_cons_of_mem p hq)]
      rfl
  have htry : Stmt.lacksAll form o.tryBody = true := by
    rw [tryBody_decodes]
    exact Stmt.lacksAll_append _ (hdecodes _ fun p hp => (List.mem_filter.mp hp).1) hbehind
  show (Stmt.lacksAll form o.tryBody && Stmt.lacksAll form o.catchBody && true) = true
  rw [htry, hcatch]
  rfl

/-- An ordinary entry has neither trampolines nor cases. -/
theorem sites_other (o : Ordinary ctx) :
    o.property.sitesIn Stmt.declaresLambda = [] ∧ o.property.sitesIn Stmt.chooses = [] := by
  have hbehind : Stmt.lacksAll Stmt.declaresLambda o.behindDecoding = true ∧
      Stmt.lacksAll Stmt.chooses o.behindDecoding = true := by
    unfold behindDecoding behindContext returnAnswer
    split <;> exact ⟨rfl, rfl⟩
  exact ⟨Stmt.formed_sitesAll_of_lacks _ _ _ (o.lacks_property (fun _ _ => rfl) hbehind.1 rfl),
    Stmt.formed_sitesAll_of_lacks _ _ _ (o.lacks_property (fun _ _ => rfl) hbehind.2 rfl)⟩

/-- **The decoder is one of the host** wherever it is called exactly if, given a text to decode, its root
    can be bound and is none of the variables. It is never a parameter. -/
theorem decodes_free_iff (o : Ordinary ctx) :
    (∀ s ∈ o.property.sitesIn Stmt.setsVariable, s.Free) ↔
      ((∃ p ∈ o.source.params, p.ty.isString = true) →
        Ident.rootSegment ctx.protocol.stringDecoder ∉ Ident.reservedWords ∧
          Ident.rootSegment ctx.protocol.stringDecoder ∉ locals o.source.result) := by
  obtain ⟨status, others, h⟩ := o.shape
  have hparam : Ident.rootSegment ctx.protocol.stringDecoder ∉ o.source.params.map (·.name) :=
    fun hm => (h.bound.params _ hm).notRoot List.mem_cons_self
  have hfree : ∀ p : Param, (decodeSite ctx o.property.scope p).Free ↔
        Ident.rootSegment ctx.protocol.stringDecoder ∉ Ident.reservedWords ∧
          Ident.rootSegment ctx.protocol.stringDecoder ∉ locals o.source.result := by
    intro p
    rw [decodeSite, CallSite.free_ofPath ctx.sound.stringDecoder, scope_property, List.mem_append, not_or]
    exact and_congr_right fun _ => and_iff_right hparam
  rw [sites_decode]
  constructor
  · rintro hall ⟨p, hp, hstring⟩
    exact (hfree p).mp (hall _ (List.mem_map_of_mem (List.mem_filter.mpr ⟨hp, hstring⟩)))
  · intro himp s hs
    obtain ⟨p, hp, rfl⟩ := List.mem_map.mp hs
    obtain ⟨hp, hstring⟩ := List.mem_filter.mp hp
    exact (hfree p).mpr (himp ⟨p, hp, hstring⟩)

end Ordinary

/-! ## 2. Initializers -/

theorem Trampoline.spell_function (ctx : Context) (t : Trampoline) :
    (t.function ctx).spell = "function (" ++ ", ".intercalate t.args ++ ") \x7b return " ++
      ctx.protocol.dynCall ++ "(" ++ Text.Quoted.encode t.signature ++ ", " ++ t.pointer ++ ", [" ++
      ", ".intercalate t.args ++ "]); \x7d" := by
  -- The spelling is put together from shorter pieces than the text.
  have hreturn : ") \x7b return " = ")" ++ " \x7b return " := rfl
  have hlist : ", [" = ", " ++ "[" := rfl
  have hend : "]); \x7d" = "]" ++ (")" ++ "; \x7d") := rfl
  rw [function, Expr.spell, Expr.spell, Expr.spell_ofPath, hreturn, hlist, hend]
  simp only [Expr.spellings, Expr.spellings_names, Expr.spell, Script.functionHead, Script.commaList,
    String.intercalate_cons_cons, String.intercalate_singleton, String.append_assoc]

namespace Initializer

variable {ctx : Context} {i : Initializer}

/-- The parameters of the builder of views. -/
def builderParams : List String := ["pointer", "typeCode", "length"]

/-- The names bound in all of an initializer are its parameters and the variables of every
    initializer. -/
theorem scope_property (h : Shape ctx i) :
    (i.property ctx).scope = i.source.params.map (·.name) ++ Ident.initializerLocals := by
  obtain ⟨p, q, r, rest, t, u, v, -, hts, ht, hu, hv⟩ := h.three
  cases ht
  cases hu
  cases hv
  rw [Script.Property.scope, property, hts]
  rfl

/-- The call of a trampoline, with the names that are bound in it. -/
def dispatchSite (ctx : Context) (bound : List String) (t : Trampoline) : CallSite :=
  ⟨.declare t.binding (t.function ctx), "var " ++ t.binding ++ " = " ++ (t.function ctx).spell ++ ";",
    .ofPath ctx.protocol.dynCall, t.args ++ bound⟩

/-- What a trampoline calls is the function behind trampolines. -/
theorem sites_trampoline (bound : List String) (t : Trampoline) :
    (Stmt.declare t.binding (t.function ctx)).sites bound = [dispatchSite ctx bound t] := by
  have hcalled : (t.function ctx).called bound =
      [(.ofPath ctx.protocol.dynCall, t.args ++ bound)] := by
    show (_, _) :: ((Expr.ofPath ctx.protocol.dynCall).called (t.args ++ bound) ++
      ([] ++ ([] ++ (Expr.calledAll (t.args ++ bound) (Expr.names t.args) ++ [])))) = _
    rw [Expr.called_ofPath, Expr.calledAll_names]
    rfl
  show List.map _ ((t.function ctx).called bound) ++ [] = _
  rw [hcalled]
  rfl

theorem sites_trampolines (bound : List String) : ∀ ts : List Trampoline,
    Stmt.sitesAll bound (ts.map fun t => .declare t.binding (t.function ctx)) =
      ts.map (dispatchSite ctx bound)
  | [] => rfl
  | t :: ts => by
      rw [List.map_cons, Stmt.sitesAll, sites_trampoline, sites_trampolines bound ts]
      rfl

/-- A kind of view as a row of the builder: its code in decimal, and its name. -/
def row (k : BufferKind) : String × String := (Digits.ofInt k.code.toInt, k.name)

/-- The case of a label, which constructs a view of a name. -/
def caseLine (label name : String) : String :=
  "case " ++ label ++ ": return new " ++ name ++ "(buffer, pointer, length);"

theorem caseText_viewCase (k : BufferKind) :
    Script.caseText (viewCase k) = caseLine (row k).1 (row k).2 := by
  have hreturn : ": return new " = ": return " ++ "new " := rfl
  have hargs : "(buffer, pointer, length);" = "(" ++ ("buffer, pointer, length" ++ (")" ++ ";")) := rfl
  have hlist : Script.commaList ["buffer", "pointer", "length"] = "buffer, pointer, length" := rfl
  unfold caseLine Script.caseText viewCase row
  rw [Expr.spell, Expr.spell, Expr.spellings_names, hlist, hreturn, hargs]
  simp only [String.append_assoc]

/-- The call that builds a view of a kind, with the names that are bound in the builder. -/
def viewSite (kinds : List BufferKind) (bound : List String) (k : BufferKind) : CallSite :=
  ⟨.choose (.name "typeCode") (kinds.map viewCase), caseLine (row k).1 (row k).2, .name k.name,
    builderParams ++ bound⟩

theorem sites_declareArrayBuilder (bound : List String) (kinds : List BufferKind) :
    (declareArrayBuilder kinds).sites bound = kinds.map (viewSite kinds bound) := by
  have hcases : ∀ ks : List BufferKind,
      ((ks.map viewCase).map fun c => (c.2, Script.caseText c)).flatMap (fun part =>
        (part.1.called (builderParams ++ bound)).map fun c =>
          CallSite.mk (.choose (.name "typeCode") (kinds.map viewCase)) part.2 c.1 c.2) =
        ks.map (viewSite kinds bound) := by
    intro ks
    induction ks with
    | nil => rfl
    | cons k ks ih =>
      rw [List.map_cons, List.map_cons, List.flatMap_cons, ih, caseText_viewCase]
      rfl
  show [] ++ List.flatMap _ _ ++ [] = _
  rw [List.append_nil, List.nil_append]
  exact hcases kinds

/-- The call sites of an initializer: those of the builder, of the trampolines, and of the
    construction. -/
theorem formed_sites (form : Stmt → Bool) (h : Stmt.lacksAll form (construction ctx) = true) :
    (i.property ctx).sitesIn form =
      Stmt.formed form ((declareArrayBuilder ctx.kinds).sites (i.property ctx).scope) ++
        Stmt.formed form (Stmt.sitesAll (i.property ctx).scope
          (i.trampolines.map fun t => .declare t.binding (t.function ctx))) := by
  show Stmt.formed form (Stmt.sitesAll _
    (declareArrayBuilder ctx.kinds :: (i.trampolines.map _ ++ construction ctx))) = _
  rw [Stmt.sitesAll, Stmt.sitesAll_append, Stmt.formed_append, Stmt.formed_append,
    Stmt.formed_sitesAll_of_lacks form _ _ h, List.append_nil]

theorem lacks_trampolines (ctx : Context) (form : Stmt → Bool)
    (h : ∀ x params e, form (.declare x (.lambda params e)) = false) : ∀ ts : List Trampoline,
    Stmt.lacksAll form (ts.map fun t => .declare t.binding (t.function ctx)) = true
  | [] => rfl
  | t :: ts => by
      have ht : (Stmt.declare t.binding (t.function ctx)).lacks form = true := by
        rw [Stmt.lacks, Trampoline.function, h]
        rfl
      rw [List.map_cons, Stmt.lacksAll, ht, lacks_trampolines ctx form h ts]
      rfl

/-- **The function behind trampolines is called in every trampoline**, and there the arguments of the
    trampoline are bound as well. -/
theorem sites_dispatch (i : Initializer) :
    (i.property ctx).sitesIn Stmt.declaresLambda =
      i.trampolines.map (dispatchSite ctx (i.property ctx).scope) := by
  have hbuilder : (declareArrayBuilder ctx.kinds).lacks Stmt.declaresLambda = true := rfl
  rw [formed_sites _ rfl, Stmt.formed_sites_of_lacks _ _ _ hbuilder, List.nil_append,
    sites_trampolines, Stmt.formed, List.filter_eq_self]
  intro s hs
  obtain ⟨t, -, rfl⟩ := List.mem_map.mp hs
  rfl

/-- **The constructor of every kind of view is called in the builder**, and there the parameters of the
    builder are bound as well. -/
theorem sites_view (i : Initializer) :
    (i.property ctx).sitesIn Stmt.chooses =
      ctx.kinds.map (viewSite ctx.kinds (i.property ctx).scope) := by
  have htramps := lacks_trampolines ctx Stmt.chooses (fun _ _ _ => rfl) i.trampolines
  rw [formed_sites _ rfl, Stmt.formed_sitesAll_of_lacks _ _ _ htramps, List.append_nil,
    sites_declareArrayBuilder, Stmt.formed, List.filter_eq_self]
  intro s hs
  obtain ⟨k, -, rfl⟩ := List.mem_map.mp hs
  rfl

/-- An initializer decodes nothing. -/
theorem sites_other (i : Initializer) : (i.property ctx).sitesIn Stmt.setsVariable = [] := by
  have hbuilder : (declareArrayBuilder ctx.kinds).lacks Stmt.setsVariable = true := rfl
  have htramps := lacks_trampolines ctx Stmt.setsVariable (fun _ _ _ => rfl) i.trampolines
  rw [formed_sites _ rfl, Stmt.formed_sites_of_lacks _ _ _ hbuilder,
    Stmt.formed_sitesAll_of_lacks _ _ _ htramps]
  rfl

/-- **The function behind trampolines is one of the host** in all of them exactly if its root can be
    bound and is none of the variables. It is neither a parameter nor an argument of a trampoline. -/
theorem dispatches_free_iff (h : Shape ctx i) :
    (∀ s ∈ (i.property ctx).sitesIn Stmt.declaresLambda, s.Free) ↔
      Ident.rootSegment ctx.protocol.dynCall ∉ Ident.reservedWords ∧
        Ident.rootSegment ctx.protocol.dynCall ∉ Ident.initializerLocals := by
  have hroot : Ident.rootSegment ctx.protocol.dynCall ∈ ctx.protocol.roots :=
    List.mem_cons_of_mem _ List.mem_cons_self
  have hparam : Ident.rootSegment ctx.protocol.dynCall ∉ i.source.params.map (·.name) :=
    fun hm => (h.bound.params _ hm).notRoot hroot
  have hargs : ∀ t ∈ i.trampolines, Ident.rootSegment ctx.protocol.dynCall ∉ t.args := by
    intro t ht hm
    obtain ⟨x, p, hw⟩ := h.wraps_of_mem ht
    exact (hw.args.2 _ hm).notRoot hroot
  have hfree : ∀ t ∈ i.trampolines, (dispatchSite ctx (i.property ctx).scope t).Free ↔
        Ident.rootSegment ctx.protocol.dynCall ∉ Ident.reservedWords ∧
          Ident.rootSegment ctx.protocol.dynCall ∉ Ident.initializerLocals := by
    intro t ht
    rw [dispatchSite, CallSite.free_ofPath ctx.sound.dynCall, scope_property h, List.mem_append,
      List.mem_append, not_or, not_or]
    exact and_congr_right fun _ => (and_iff_right (hargs t ht)).trans (and_iff_right hparam)
  obtain ⟨p, q, r, rest, t, u, v, -, hts, -⟩ := h.three
  have ht : t ∈ i.trampolines := by rw [hts]; exact List.mem_cons_self
  rw [sites_dispatch]
  constructor
  · exact fun hall => (hfree t ht).mp (hall _ (List.mem_map_of_mem ht))
  · intro hroot s hs
    obtain ⟨t, ht, rfl⟩ := List.mem_map.mp hs
    exact (hfree t ht).mpr hroot

/-- **The constructors of views are those of the host** exactly if no kind of view has the name of a
    parameter, a variable, or a parameter of the builder. -/
theorem views_free_iff (h : Shape ctx i) :
    (∀ s ∈ (i.property ctx).sitesIn Stmt.chooses, s.Free) ↔
      ∀ k ∈ ctx.kinds, k.name ∉ i.source.params.map (·.name) ∧ k.name ∉ Ident.initializerLocals ∧
        k.name ∉ builderParams := by
  have hfree : ∀ k ∈ ctx.kinds, (viewSite ctx.kinds (i.property ctx).scope k).Free ↔
        k.name ∉ i.source.params.map (·.name) ∧ k.name ∉ Ident.initializerLocals ∧
          k.name ∉ builderParams := by
    intro k hk
    have hnamed := (Ident.objection?_eq_none_iff k.name).mp (ctx.kinds_named k hk)
    have hreserved := Ident.not_mem_reservedWords hnamed.2.1
    rw [viewSite, scope_property h]
    constructor
    · intro hf
      have hb := (hf k.name rfl).2
      rw [List.mem_append, List.mem_append, not_or, not_or] at hb
      exact ⟨hb.2.1, hb.2.2, hb.1⟩
    · rintro ⟨hp, hl, hb⟩ x hx
      rw [← Option.some.inj hx]
      refine ⟨hreserved, ?_⟩
      rw [List.mem_append, List.mem_append, not_or, not_or]
      exact ⟨hb, hp, hl⟩
  rw [sites_view]
  constructor
  · exact fun hall k hk => (hfree k hk).mp (hall _ (List.mem_map_of_mem hk))
  · intro hnames s hs
    obtain ⟨k, hk, rfl⟩ := List.mem_map.mp hs
    exact (hfree k hk).mpr (hnames k hk)

end Initializer

/-! ## 3. Entries of either kind -/

variable {ctx : Context} {e : Extern} {entry : Entry ctx}

theorem kindOf_eq_initializer_iff (ctx : Context) (name : String) :
    kindOf ctx name = .initializer ↔ name = ctx.protocol.initializeEntry := by
  unfold kindOf Context.isInitializer
  split
  · rename_i h
    exact ⟨fun _ => by simpa using h, fun _ => rfl⟩
  · rename_i h
    exact ⟨(nomatch ·), fun he => absurd (by simpa using he) h⟩

/-- An entry of an extern is the one its name asks for. -/
theorem of_eq_ok (h : Entry.of ctx e = .ok entry) :
    (e.name ≠ ctx.protocol.initializeEntry ∧
        ∃ o : Ordinary ctx, o.source = e ∧ entry = .ordinary o) ∨
      (e.name = ctx.protocol.initializeEntry ∧
        ∃ i : Initializer, i.source = e ∧ Initializer.Shape ctx i ∧ entry = .initializer i) := by
  rcases ofKind_eq_ok h with ⟨hkind, ho⟩ | ⟨hkind, hi⟩
  · refine Or.inl ⟨fun he => ?_, ho⟩
    rw [(kindOf_eq_initializer_iff ctx e.name).mpr he] at hkind
    cases hkind
  · exact Or.inr ⟨(kindOf_eq_initializer_iff ctx e.name).mp hkind, hi⟩

/-- What an entry calls in decodings and trampolines are the functions the protocol names, and so it is
    written. -/
theorem host_callees (h : Entry.of ctx e = .ok entry) :
    (∀ s ∈ entry.property.sitesIn Stmt.setsVariable,
      s.callee = .ofPath ctx.protocol.stringDecoder ∧
        ∃ x, s.line = x ++ " = " ++ ctx.protocol.stringDecoder ++ "(" ++ x ++ ");") ∧
    ∀ s ∈ entry.property.sitesIn Stmt.declaresLambda, s.callee = .ofPath ctx.protocol.dynCall ∧
      ∃ x args rest, s.line = "var " ++ x ++ " = function (" ++ ", ".intercalate args ++
        ") \x7b return " ++ ctx.protocol.dynCall ++ "(" ++ rest := by
  rcases of_eq_ok h with ⟨-, o, -, rfl⟩ | ⟨-, i, -, -, rfl⟩
  · refine ⟨fun s hs => ?_, fun s hs => ?_⟩
    · rw [property, o.sites_decode] at hs
      obtain ⟨p, -, rfl⟩ := List.mem_map.mp hs
      exact ⟨rfl, p.name, rfl⟩
    · rw [property, o.sites_other.1] at hs
      exact absurd hs List.not_mem_nil
  · refine ⟨fun s hs => ?_, fun s hs => ?_⟩
    · rw [property, i.sites_other] at hs
      exact absurd hs List.not_mem_nil
    · rw [property, i.sites_dispatch] at hs
      obtain ⟨t, -, rfl⟩ := List.mem_map.mp hs
      refine ⟨rfl, t.binding, t.args, Text.Quoted.encode t.signature ++ ", " ++ t.pointer ++ ", [" ++
        ", ".intercalate t.args ++ "]); \x7d" ++ ";", ?_⟩
      have hhead : " = function (" = " = " ++ "function (" := rfl
      rw [Initializer.dispatchSite, Trampoline.spell_function, hhead]
      simp only [String.append_assoc]

/-- When an entry calls the host functions of the protocol as such. -/
theorem host_calls_free_iff (h : Entry.of ctx e = .ok entry) :
    (∀ s ∈ entry.property.sitesIn Stmt.setsVariable ++ entry.property.sitesIn Stmt.declaresLambda,
      s.Free) ↔
      (e.name ≠ ctx.protocol.initializeEntry → (∃ q ∈ e.params, q.ty.isString = true) →
        Ident.rootSegment ctx.protocol.stringDecoder ∉ Ident.reservedWords ∧
          Ident.rootSegment ctx.protocol.stringDecoder ∉ Ordinary.locals e.result) ∧
      (e.name = ctx.protocol.initializeEntry →
        Ident.rootSegment ctx.protocol.dynCall ∉ Ident.reservedWords ∧
          Ident.rootSegment ctx.protocol.dynCall ∉ Ident.initializerLocals) := by
  rcases of_eq_ok h with ⟨hname, o, rfl, rfl⟩ | ⟨hname, i, rfl, hi, rfl⟩
  · rw [property, o.sites_other.1, List.append_nil, o.decodes_free_iff, forall_prop_of_true hname,
      forall_prop_of_false hname]
    exact (and_iff_left trivial).symm
  · rw [property, i.sites_other, List.nil_append, Initializer.dispatches_free_iff hi,
      forall_prop_of_true hname, forall_prop_of_false (not_not_intro hname)]
    exact (and_iff_right trivial).symm

/-- The initializer calls the constructor of every kind of view, each on the line of its case, and other
    entries call none. -/
theorem view_callees (h : Entry.of ctx e = .ok entry) :
    (entry.property.sitesIn Stmt.chooses).map (fun s => (s.callee, s.line)) =
      if e.name = ctx.protocol.initializeEntry then
        ctx.kinds.map fun k => (.name k.name, Initializer.caseLine (Digits.ofInt k.code.toInt) k.name)
      else [] := by
  rcases of_eq_ok h with ⟨hname, o, -, rfl⟩ | ⟨hname, i, -, -, rfl⟩
  · rw [property, o.sites_other.2, if_neg hname]
    rfl
  · rw [property, i.sites_view, if_pos hname, List.map_map]
    rfl

/-- When an entry calls the constructors of views as such. -/
theorem views_free_iff (h : Entry.of ctx e = .ok entry) :
    (∀ s ∈ entry.property.sitesIn Stmt.chooses, s.Free) ↔
      (e.name = ctx.protocol.initializeEntry → ∀ k ∈ ctx.kinds,
        k.name ∉ e.params.map (·.name) ∧ k.name ∉ Ident.initializerLocals ∧
          k.name ∉ Initializer.builderParams) := by
  rcases of_eq_ok h with ⟨hname, o, rfl, rfl⟩ | ⟨hname, i, rfl, hi, rfl⟩
  · rw [property, o.sites_other.2, forall_prop_of_false hname]
    exact ⟨fun _ => trivial, fun _ s hs => absurd hs List.not_mem_nil⟩
  · rw [property, Initializer.views_free_iff hi, forall_prop_of_true hname]

end HostGlue.Entry
