import HostGlue.Proofs.Entry.Acceptance
import HostGlue.Proofs.Script.Reading

/-!
# What of an extern reaches the document

Of two externs with different owners, or with different types that are no texts, the entries may be
the same. This file fixes

* `Extern.face`, the part of an extern that its entry depends on;
* **that the face decides the entry** (`property_congr`);
* **that the face is read back from the lines of the entry**, whatever follows them (`read`). The
  hard part are the text parameters: their names stand in the lines that decode them, and these end
  where a variable is declared, since `var` is no name of a parameter.
-/

namespace HostGlue

/-! ## 1. Faces -/

/-- What of a callback reaches the document: the names of its arguments, and its signature. -/
def Ty.callbackFace : Ty → Option (List String × Option String)
  | .plain _ => none
  | .callback params result => some (params.map (·.name), (callSignature result params).toOption)

/-- What of an extern reaches the document. Of an ordinary one these are its name, which parameters
    it has and which of them are texts, and whether the result is one; of the initializer its name,
    the names of its parameters, and the callbacks it makes trampolines of. -/
inductive Face where
  | ordinary (name : String) (params : List (String × Bool)) (textual : Bool)
  | initializer (name : String) (params : List String)
      (callbacks : List (Option (List String × Option String)))
  deriving DecidableEq

/-- The face of an extern, as the entry its name asks for. -/
def Extern.face (ctx : Context) (e : Extern) : Face :=
  match Entry.kindOf ctx e.name with
  | .ordinary =>
    .ordinary e.name (e.params.map fun p => (p.name, p.ty.isString)) e.result.isString
  | .initializer =>
    .initializer e.name (e.params.map (·.name))
      ((e.params.take Entry.trampolineNames.length).map (·.ty.callbackFace))

namespace Entry

open Script (Expr Stmt Property)

/-! ## 2. Which parameters are texts -/

/-- The names of the text parameters. -/
def textNames (params : List Param) : List String :=
  (params.filter (·.ty.isString)).map (·.name)

theorem textNames_cons (p : Param) (ps : List Param) :
    textNames (p :: ps) = if p.ty.isString then p.name :: textNames ps else textNames ps := by
  unfold textNames
  rw [List.filter_cons]
  split
  · rw [List.map_cons]
  · rfl

theorem not_mem_textNames {x : String} {ps : List Param} (h : x ∉ ps.map (·.name)) :
    x ∉ textNames ps := by
  intro hm
  obtain ⟨p, hp, rfl⟩ := List.mem_map.mp hm
  exact h (List.mem_map_of_mem (List.mem_of_mem_filter hp))

/-- **Where names come once, the names of the texts tell which positions are texts**: positions with
    the same names are texts together if and only if the names of the texts are the same. -/
theorem textNames_eq_iff : ∀ {ps qs : List Param}, ps.map (·.name) = qs.map (·.name) →
    (ps.map (·.name)).Nodup →
    (textNames ps = textNames qs ↔
      ps.map (fun p => (p.name, p.ty.isString)) = qs.map fun p => (p.name, p.ty.isString))
  | [], [], _, _ => ⟨fun _ => rfl, fun _ => rfl⟩
  | [], q :: qs, h, _ => by cases h
  | p :: ps, [], h, _ => by cases h
  | p :: ps, q :: qs, h, hn => by
      rw [List.map_cons, List.map_cons] at h
      obtain ⟨hpq, hrest⟩ := List.cons.inj h
      rw [List.map_cons, List.nodup_cons] at hn
      have ih := textNames_eq_iff hrest hn.2
      have hp : p.name ∉ textNames ps := not_mem_textNames hn.1
      have hq : q.name ∉ textNames qs := not_mem_textNames (by rw [← hpq, ← hrest]; exact hn.1)
      rw [textNames_cons, textNames_cons, List.map_cons, List.map_cons, List.cons.injEq,
        Prod.mk.injEq, ← ih]
      cases htp : p.ty.isString <;> cases htq : q.ty.isString
      · simp [hpq]
      · simp only [Bool.false_eq_true, if_false, if_true, and_false, false_and, iff_false]
        intro e
        exact hp (by rw [e, hpq]; exact List.mem_cons_self)
      · simp only [Bool.false_eq_true, if_false, if_true, reduceCtorEq, and_false, false_and,
          iff_false]
        intro e
        exact hq (by rw [← e, hpq]; exact List.mem_cons_self)
      · simp [hpq]

/-! ## 3. Ordinary entries -/

namespace Ordinary

variable {ctx : Context}

/-- Decodes a variable in place. -/
def decodeName (ctx : Context) (x : String) : Stmt :=
  .assign (.name x) (.call (.ofPath ctx.protocol.stringDecoder) [.name x])

theorem map_decodeParam (ps : List Param) :
    (ps.filter (·.ty.isString)).map (decodeParam ctx) = (textNames ps).map (decodeName ctx) := by
  rw [textNames, List.map_map]
  rfl

/-- All but the first parameter are forwarded by name. -/
theorem forwarded_names (o : Ordinary ctx) :
    o.source.forwarded.map (·.name) = (o.source.params.map (·.name)).tail := by
  obtain ⟨status, others, h⟩ := o.shape
  rw [h.forwarded, h.params, List.map_cons, List.tail_cons]

theorem statusName_eq_head (o : Ordinary ctx) :
    o.statusName = ((o.source.params.map (·.name)).head?).getD "" := by
  rw [statusName, List.head?_map]

theorem returnAnswer_congr {r s : Ty} (h : r.isString = s.isString) :
    returnAnswer r = returnAnswer s := by
  unfold returnAnswer
  rw [h]

/-- **Names and texts decide an ordinary entry.** -/
theorem property_congr {o u : Ordinary ctx} (hname : o.source.name = u.source.name)
    (hparams : o.source.params.map (·.name) = u.source.params.map (·.name))
    (htexts : textNames o.source.params = textNames u.source.params)
    (hresult : o.source.result.isString = u.source.result.isString) : o.property = u.property := by
  have hstatus : o.statusName = u.statusName := by
    rw [statusName_eq_head, statusName_eq_head, hparams]
  have hstore : o.storeStatus = u.storeStatus := by
    funext value
    rw [storeStatus, storeStatus, hstatus, o.statusTag_eq, u.statusTag_eq]
  have htry : o.tryBody = u.tryBody := by
    rw [tryBody, tryBody, map_decodeParam, map_decodeParam, forwarded_names, forwarded_names,
      hparams, htexts, hname, hstore, returnAnswer_congr hresult]
  have hcatch : o.catchBody = u.catchBody := by
    rw [catchBody, catchBody, hstore]
  rw [property, property, hname, hparams, htry, hcatch]

/-- A line that assigns to a variable of the entry's own, as a decoding does. -/
def Assigns (l : Line) : Prop :=
  ∃ x e, Ident.isIdentifier x = true ∧ Ident.isReserved x = false ∧ l.content = x ++ " = " ++ e

/-- The line that decodes a variable. -/
def decodeLine (ctx : Context) (d : Nat) (x : String) : Line :=
  ⟨d, x ++ " = " ++
    ((Expr.call (.ofPath ctx.protocol.stringDecoder) [.name x]).spell ++ ";")⟩

theorem lines_map_decodeName (d : Nat) (xs : List String) :
    Code.bodyLines d (Stmt.bodyCode (xs.map (decodeName ctx))) = xs.map (decodeLine ctx d) := by
  have hline : ∀ x, (decodeName ctx x).code = [.line (x ++ " = " ++
      ((Expr.call (.ofPath ctx.protocol.stringDecoder) [.name x]).spell ++ ";"))] := by
    intro x
    rw [← String.append_assoc]
    rfl
  rw [Script.Stmt.bodyCode_map hline, Code.bodyLines_lines]
  rfl

/-- A name before an equals sign is read back from the line. -/
theorem assignment_read {x y e f : String} (hx : Ident.isIdentifier x = true)
    (hy : Ident.isIdentifier y = true) (h : x ++ " = " ++ e = y ++ " = " ++ f) : x = y := by
  have hl : x.toList ++ ' ' :: ("= " ++ e).toList = y.toList ++ ' ' :: ("= " ++ f).toList := by
    have ht := congrArg String.toList h
    simpa [String.toList_append] using ht
  exact (Ident.read hx hy (by decide) (by decide) hl).1

theorem decodeLines_read {d : Nat} : ∀ {xs ys : List String},
    (∀ x ∈ xs, Ident.isIdentifier x = true) → (∀ y ∈ ys, Ident.isIdentifier y = true) →
    xs.map (decodeLine ctx d) = ys.map (decodeLine ctx d) → xs = ys
  | [], [], _, _, _ => rfl
  | [], _ :: _, _, _, h => by cases h
  | _ :: _, [], _, _, h => by cases h
  | x :: xs, y :: ys, hx, hy, h => by
      rw [List.map_cons, List.map_cons] at h
      obtain ⟨hline, hrest⟩ := List.cons.inj h
      have hxy := assignment_read (hx x List.mem_cons_self) (hy y List.mem_cons_self)
        (Line.mk.inj hline).2
      have hxs := decodeLines_read (fun z hz => hx z (List.mem_cons_of_mem x hz))
        (fun z hz => hy z (List.mem_cons_of_mem y hz)) hrest
      rw [hxy, hxs]

/-- A declaration assigns to no variable of the entry's own: it begins with a reserved word. -/
theorem not_assigns_declare (d : Nat) (x : String) (e : Expr) :
    ¬ Assigns ⟨d, "var " ++ x ++ " = " ++ e.spell ++ ";"⟩ := by
  rintro ⟨y, f, hy, hres, h⟩
  have hl : "var".toList ++ ' ' :: (x ++ " = " ++ e.spell ++ ";").toList =
      y.toList ++ ' ' :: ("= " ++ f).toList := by
    have ht := congrArg String.toList h
    simpa [String.toList_append] using ht
  have hvar := (Ident.read (by decide) hy (by decide) (by decide) hl).1
  rw [← hvar] at hres
  exact absurd hres (by decide)

/-- What stands in the `try` region behind the declaration of the instance. -/
def behindContext (o : Ordinary ctx) : List Stmt :=
  [.declare "ret"
     (.call (.member (.name "context") o.source.name)
       (Expr.names (o.source.forwarded.map (·.name)))),
   o.storeStatus (.member (.name "ret") "type")] ++
  returnAnswer o.source.result

/-- The lines of the `try` region: those that decode, the declaration of the instance, and more. -/
theorem lines_tryBody (o : Ordinary ctx) (d : Nat) :
    Code.bodyLines d (Stmt.bodyCode o.tryBody) =
      (textNames o.source.params).map (decodeLine ctx d) ++
        ⟨d, "var " ++ "context" ++ " = " ++ (instanceSlot ctx.protocol).spell ++ ";"⟩ ::
          Code.bodyLines d (Stmt.bodyCode o.behindContext) := by
  have hbody : o.tryBody = (textNames o.source.params).map (decodeName ctx) ++
      .declare "context" (instanceSlot ctx.protocol) :: o.behindContext := by
    rw [tryBody, map_decodeParam, List.append_assoc]
    rfl
  rw [hbody, Stmt.bodyCode_append, Code.bodyLines_append, lines_map_decodeName]
  rfl

/-- The number of lines behind the declaration of the instance tells whether the result is a text. -/
theorem length_behindContext (o : Ordinary ctx) (d : Nat) :
    (Code.bodyLines d (Stmt.bodyCode o.behindContext)).length =
      if o.source.result.isString then 7 else 3 := by
  unfold behindContext returnAnswer
  split <;> rfl

theorem textNames_named (o : Ordinary ctx) :
    ∀ x ∈ textNames o.source.params,
      Ident.isIdentifier x = true ∧ Ident.isReserved x = false := by
  intro x hx
  obtain ⟨p, hp, rfl⟩ := List.mem_map.mp hx
  obtain ⟨status, others, h⟩ := o.shape
  have hb := h.bound.params p.name (List.mem_map_of_mem (List.mem_of_mem_filter hp))
  exact ⟨hb.identifier, hb.notReserved⟩

/-- **Which parameters and results are texts is read back** from the body of an ordinary entry. -/
theorem read {o u : Ordinary ctx} {d : Nat}
    (h : Code.bodyLines d (Stmt.bodyCode o.property.body) =
      Code.bodyLines d (Stmt.bodyCode u.property.body)) :
    textNames o.source.params = textNames u.source.params ∧
      o.source.result.isString = u.source.result.isString := by
  obtain ⟨-, htry, -⟩ := Code.block_read h
  rw [lines_tryBody, lines_tryBody] at htry
  have hassigns : ∀ v : Ordinary ctx,
      ∀ l ∈ (textNames v.source.params).map (decodeLine ctx (d + 1)), Assigns l := by
    intro v l hl
    obtain ⟨x, hx, rfl⟩ := List.mem_map.mp hl
    obtain ⟨hid, hres⟩ := v.textNames_named x hx
    exact ⟨x, _, hid, hres, rfl⟩
  obtain ⟨hdecode, -, hbehind⟩ := Text.append_cons_inj (not_assigns_declare _ _ _)
    (not_assigns_declare _ _ _) (hassigns o) (hassigns u) htry
  refine ⟨decodeLines_read (fun x hx => (o.textNames_named x hx).1)
    (fun x hx => (u.textNames_named x hx).1) hdecode, ?_⟩
  have hlength := congrArg List.length hbehind
  rw [length_behindContext, length_behindContext] at hlength
  cases ho : o.source.result.isString <;> cases hu : u.source.result.isString
  · rfl
  · simp [ho, hu] at hlength
  · simp [ho, hu] at hlength
  · rfl

end Ordinary

/-! ## 4. Initializers -/

/-- The face of a wrapped callback. -/
theorem Trampoline.callbackFace_of_wraps {ctx : Context} {e : Extern} {x : String} {p : Param}
    {t : Trampoline} (h : Wraps ctx e x p t) :
    p.ty.callbackFace = some (t.args, some t.signature) := by
  cases h with
  | of callback _ _ signed =>
    rw [callback, Ty.callbackFace, signed]
    rfl

theorem Trampoline.args_named {ctx : Context} {e : Extern} {x : String} {p : Param}
    {t : Trampoline} (h : Wraps ctx e x p t) : ∀ a ∈ t.args, Ident.isIdentifier a = true := by
  cases h with
  | of _ bindable _ _ => exact fun a ha => (bindable a ha).identifier

/-- The line that declares a trampoline. -/
def Trampoline.line (ctx : Context) (d : Nat) (t : Trampoline) : Line :=
  ⟨d, "var " ++ t.binding ++ " = " ++ (t.function ctx).spell ++ ";"⟩

/-- **A trampoline is read back from its line**: its arguments and its signature. -/
theorem Trampoline.read {ctx : Context} {t u : Trampoline} {d : Nat} (hb : t.binding = u.binding)
    (ht : ∀ a ∈ t.args, Ident.isIdentifier a = true)
    (hu : ∀ a ∈ u.args, Ident.isIdentifier a = true) (h : t.line ctx d = u.line ctx d) :
    t.args = u.args ∧ t.signature = u.signature := by
  have hspell : (t.function ctx).spell = (u.function ctx).spell := by
    have e := (Line.mk.inj h).2
    rw [hb] at e
    exact (String.append_right_inj _).mp ((String.append_left_inj ";").mp e)
  simp only [function, Expr.spell, Expr.spellings, Script.commaList, String.intercalate_cons_cons,
    String.append_assoc] at hspell
  obtain ⟨hargs, hcall⟩ := Script.functionHead_read ht hu hspell
  simp only [String.append_right_inj] at hcall
  exact ⟨hargs, (Text.Quoted.encode_read hcall).1⟩

namespace Initializer

variable {ctx : Context}

/-- The construction of the instance from the builder and the trampolines. -/
def construction (ctx : Context) : List Stmt :=
  [.declare "ctr" (constructorSlot ctx.protocol),
   .assign (instanceSlot ctx.protocol)
     (.construct (.name "ctr") (Expr.names ("arrayBuilder" :: trampolineNames)))]

/-- The lines of the body: the builder of views, the trampolines, and the construction. -/
theorem lines_body (i : Initializer) (d : Nat) :
    Code.bodyLines d (Stmt.bodyCode (i.property ctx).body) =
      Code.bodyLines d (declareArrayBuilder ctx.kinds).code ++
        (i.trampolines.map (Trampoline.line ctx d) ++
          Code.bodyLines d (Stmt.bodyCode (construction ctx))) := by
  have hline : ∀ t : Trampoline, (Stmt.declare t.binding (t.function ctx)).code =
      [.line ("var " ++ t.binding ++ " = " ++ (t.function ctx).spell ++ ";")] := fun _ => rfl
  rw [property, List.cons_append, Stmt.bodyCode, Code.bodyLines_append, Stmt.bodyCode_append,
    Code.bodyLines_append, Script.Stmt.bodyCode_map hline, Code.bodyLines_lines]
  rfl

/-- The callbacks that reach the document are those the trampolines wrap. -/
theorem callbackFaces {i : Initializer} (h : Shape ctx i) :
    (i.source.params.take trampolineNames.length).map (·.ty.callbackFace) =
      i.trampolines.map fun t => some (t.args, some t.signature) := by
  obtain ⟨p, q, r, rest, t, u, v, hparams, hts, ht, hu, hv⟩ := h.three
  have hp := Trampoline.callbackFace_of_wraps ht
  have hq := Trampoline.callbackFace_of_wraps hu
  have hr := Trampoline.callbackFace_of_wraps hv
  rw [hparams, hts]
  show [p.ty.callbackFace, q.ty.callbackFace, r.ty.callbackFace] = _
  rw [hp, hq, hr]
  rfl

/-- **Names and callbacks decide an initializer.** -/
theorem property_congr {i j : Initializer} (hi : Shape ctx i) (hj : Shape ctx j)
    (hname : i.source.name = j.source.name)
    (hparams : i.source.params.map (·.name) = j.source.params.map (·.name))
    (hcallbacks : (i.source.params.take trampolineNames.length).map (·.ty.callbackFace) =
      (j.source.params.take trampolineNames.length).map (·.ty.callbackFace)) :
    i.property ctx = j.property ctx := by
  have hts : i.trampolines = j.trampolines := by
    rw [callbackFaces hi, callbackFaces hj] at hcallbacks
    obtain ⟨p, q, r, rest, t, u, v, hpi, hti, ht, hu, hv⟩ := hi.three
    obtain ⟨p', q', r', rest', t', u', v', hpj, htj, ht', hu', hv'⟩ := hj.three
    rw [hpi, hpj] at hparams
    rw [hti, htj] at hcallbacks ⊢
    cases ht; cases hu; cases hv; cases ht'; cases hu'; cases hv'
    simp only [List.map_cons, List.map_nil, List.cons.injEq, Option.some.injEq, Prod.mk.injEq]
      at hparams hcallbacks
    obtain ⟨hp, hq, hr, -⟩ := hparams
    obtain ⟨⟨hargs₁, hsig₁⟩, ⟨hargs₂, hsig₂⟩, ⟨hargs₃, hsig₃⟩, -⟩ := hcallbacks
    rw [hp, hq, hr, hargs₁, hsig₁, hargs₂, hsig₂, hargs₃, hsig₃]
  rw [property, property, hname, hparams, hts]

/-- **The callbacks are read back** from the body of an initializer. -/
theorem read {i j : Initializer} (hi : Shape ctx i) (hj : Shape ctx j) {d : Nat}
    (h : Code.bodyLines d (Stmt.bodyCode (i.property ctx).body) =
      Code.bodyLines d (Stmt.bodyCode (j.property ctx).body)) :
    (i.source.params.take trampolineNames.length).map (·.ty.callbackFace) =
      (j.source.params.take trampolineNames.length).map (·.ty.callbackFace) := by
  rw [lines_body, lines_body, List.append_cancel_left_eq] at h
  rw [callbackFaces hi, callbackFaces hj]
  obtain ⟨p, q, r, rest, t, u, v, hpi, hti, ht, hu, hv⟩ := hi.three
  obtain ⟨p', q', r', rest', t', u', v', hpj, htj, ht', hu', hv'⟩ := hj.three
  rw [hti, htj] at h ⊢
  obtain ⟨et, h⟩ := List.cons.inj h
  obtain ⟨eu, h⟩ := List.cons.inj h
  obtain ⟨ev, -⟩ := List.cons.inj h
  have hch := Trampoline.read (by cases ht; cases ht'; rfl) (Trampoline.args_named ht)
    (Trampoline.args_named ht') et
  have hoac := Trampoline.read (by cases hu; cases hu'; rfl) (Trampoline.args_named hu)
    (Trampoline.args_named hu') eu
  have horc := Trampoline.read (by cases hv; cases hv'; rfl) (Trampoline.args_named hv)
    (Trampoline.args_named hv') ev
  simp only [List.map_cons, List.map_nil, hch, hoac, horc]

end Initializer

/-! ## 5. Entries of either kind -/

variable {ctx : Context} {e f : Extern} {a b : Entry ctx}

theorem property_name (h : Entry.of ctx e = .ok a) : a.property.name = e.name := by
  rcases ofKind_eq_ok h with ⟨-, o, rfl, rfl⟩ | ⟨-, i, rfl, -, rfl⟩ <;> rfl

theorem property_params (h : Entry.of ctx e = .ok a) :
    a.property.params = e.params.map (·.name) := by
  rcases ofKind_eq_ok h with ⟨-, o, rfl, rfl⟩ | ⟨-, i, rfl, -, rfl⟩ <;> rfl

/-- **Externs with one face have one entry.** -/
theorem code_congr (ha : Entry.of ctx e = .ok a) (hb : Entry.of ctx f = .ok b)
    (h : e.face ctx = f.face ctx) : a.code = b.code := by
  have hproperty : a.property = b.property := by
    unfold Extern.face at h
    rcases ofKind_eq_ok ha with ⟨hka, o, rfl, rfl⟩ | ⟨hka, i, rfl, hi, rfl⟩ <;>
      rcases ofKind_eq_ok hb with ⟨hkb, u, rfl, rfl⟩ | ⟨hkb, j, rfl, hj, rfl⟩
    · rw [hka, hkb] at h
      obtain ⟨hname, hparams, hresult⟩ := Face.ordinary.inj h
      have hnames : o.source.params.map (·.name) = u.source.params.map (·.name) := by
        have e := congrArg (List.map Prod.fst) hparams
        rwa [List.map_map, List.map_map] at e
      obtain ⟨status, others, hs⟩ := o.shape
      exact Ordinary.property_congr hname hnames
        ((textNames_eq_iff hnames hs.bound.nodup).mpr hparams) hresult
    · rw [hka, hkb] at h
      cases h
    · rw [hka, hkb] at h
      cases h
    · rw [hka, hkb] at h
      obtain ⟨hname, hparams, hcallbacks⟩ := Face.initializer.inj h
      exact Initializer.property_congr hi hj hname hparams hcallbacks
  rw [code, code, hproperty]

/-- **The face of an extern is read back from the lines of its entry**, whatever follows them. -/
theorem read (ha : Entry.of ctx e = .ok a) (hb : Entry.of ctx f = .ok b) {d : Nat}
    {ls ms : List Line} (h : a.code.lines d ++ ls = b.code.lines d ++ ms) :
    e.face ctx = f.face ctx ∧ ls = ms := by
  obtain ⟨hname, hparams, hbody, hls⟩ := Script.Property.read (named_property ha) (named_property hb) h
  refine ⟨?_, hls⟩
  rw [property_name ha, property_name hb] at hname
  rw [property_params ha, property_params hb] at hparams
  have hkind : kindOf ctx e.name = kindOf ctx f.name := by rw [hname]
  unfold Extern.face
  rcases ofKind_eq_ok ha with ⟨hka, o, rfl, rfl⟩ | ⟨hka, i, rfl, hi, rfl⟩ <;>
    rcases ofKind_eq_ok hb with ⟨hkb, u, rfl, rfl⟩ | ⟨hkb, j, rfl, hj, rfl⟩
  · obtain ⟨htexts, hresult⟩ := Ordinary.read hbody
    obtain ⟨status, others, hs⟩ := o.shape
    rw [hka, hkb, hname, hresult, (textNames_eq_iff hparams hs.bound.nodup).mp htexts]
  · rw [hka, hkb] at hkind
    cases hkind
  · rw [hka, hkb] at hkind
    cases hkind
  · rw [hka, hkb, hname, hparams, Initializer.read hi hj hbody]

end Entry

end HostGlue
