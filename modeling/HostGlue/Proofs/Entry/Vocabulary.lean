import HostGlue.Proofs.Entry.Emission
import HostGlue.Proofs.Entry.Scope
import HostGlue.Proofs.Script.Notes

/-!
# The names an entry is written with

The lists of names that parameters must not take are kept apart from the programs that entries are. This
file shows that the lists and the programs agree, by reading the text of an entry token by token:

* `Ordinary.notes_property`, `Initializer.notes_property`: all places of an entry at which a name stands;
* `Vocabulary`, what the text of an entry has to keep to: which names it declares, that parameters and
  arguments are none of those the entry relies on, and where every other identifier comes from;
* `alone_vocabulary`: the text of every accepted entry keeps to it.
-/

namespace HostGlue.Entry

open Script (Expr Stmt Note Reader)
open Text (Token)

/-! ## 1. Ordinary entries -/

namespace Ordinary

variable {ctx : Context}

/-- The names in a line that decodes a parameter. -/
def decodeNotes (ctx : Context) (p : Param) : List Note :=
  [.used p.name, .used (Ident.rootSegment ctx.protocol.stringDecoder), .used p.name]

theorem notesAll_decodes : ∀ ps : List Param,
    Stmt.notesAll (ps.map (decodeParam ctx)) = ps.flatMap (decodeNotes ctx)
  | [] => rfl
  | p :: ps => by
      rw [List.map_cons, Stmt.notesAll, notesAll_decodes ps, List.flatMap_cons, decodeParam, Stmt.notes,
        Expr.notes, Expr.notes, Expr.notes_ofPath ctx.sound.stringDecoder]
      rfl

/-- The names in the lines that return the answer. -/
def answerNotes (result : Ty) : List Note :=
  if result.isString then
    [.declared "returnStr", .used "ret", .declared "bufferSize", .used "lengthBytesUTF8",
      .used "returnStr", .declared "strBuffer", .used "_malloc", .used "bufferSize",
      .used "stringToUTF8", .used "returnStr", .used "strBuffer", .used "bufferSize",
      .used "strBuffer"]
  else [.used "ret"]

theorem notesAll_returnAnswer (result : Ty) :
    Stmt.notesAll (returnAnswer result) = answerNotes result := by
  unfold returnAnswer answerNotes
  split <;> rfl

/-- The names in the lines between the decodings and the answer. -/
def callNotes (o : Ordinary ctx) : List Note :=
  [.declared "context", .used "Module", .declared "ret", .used "context"] ++
    (o.source.forwarded.map (·.name)).map .used ++ [.used "setValue", .used o.statusName, .used "ret"]

/-- The names in the lines of the handler. -/
def handlerNotes (o : Ordinary ctx) : List Note :=
  [.caught "error", .used "setValue", .used o.statusName, .used "console", .used "error",
    .declared "errString", .used "String", .used "error", .declared "strRet", .used "Module",
    .used "errString", .used "strRet", .caught "innerError"]

/-- **All places of an ordinary entry at which a name stands.** -/
theorem notes_property (o : Ordinary ctx) :
    o.property.notes = (o.source.params.map (·.name)).map .used ++
      (o.source.params.filter (·.ty.isString)).flatMap (decodeNotes ctx) ++ o.callNotes ++
      answerNotes o.source.result ++ o.handlerNotes := by
  have htry : Stmt.notesAll o.tryBody =
      (o.source.params.filter (·.ty.isString)).flatMap (decodeNotes ctx) ++ (o.callNotes ++
        answerNotes o.source.result) := by
    rw [tryBody, Stmt.notesAll_append, Stmt.notesAll_append, notesAll_decodes,
      notesAll_returnAnswer, List.append_assoc]
    congr 2
    rw [callNotes, ← Expr.flatten_notesEach_names]
    simp only [Stmt.notesAll, Stmt.notes, Expr.notes, List.append_assoc]
    rfl
  show _ ++ ((Stmt.notesAll o.tryBody ++ ([.caught "error"] ++ Stmt.notesAll o.catchBody)) ++ []) = _
  rw [htry, List.append_nil]
  simp only [List.append_assoc]
  rfl

theorem found_decodes (ps : List Param) :
    (ps.flatMap (decodeNotes ctx)).flatMap Reader.declaration.found = [] ∧
      (ps.flatMap (decodeNotes ctx)).flatMap Reader.handler.found = [] := by
  refine Script.found_used fun n hn => ?_
  obtain ⟨p, -, hn⟩ := List.mem_flatMap.mp hn
  simp only [decodeNotes, List.mem_cons, List.not_mem_nil, or_false] at hn
  rcases hn with rfl | rfl | rfl <;> exact ⟨_, rfl⟩

/-- The names an ordinary entry declares are its variables. -/
theorem declaredNames_tokens (o : Ordinary ctx) :
    Script.declaredNames o.property.tokens = locals o.source.result := by
  rw [Script.declaredNames_tokens o.named_property, o.notes_property]
  simp only [List.flatMap_append, (Script.found_map_used _).1, (found_decodes _).1, callNotes,
    List.nil_append]
  unfold answerNotes locals
  split <;> rfl

/-- An ordinary entry catches twice. -/
theorem caughtNames_tokens (o : Ordinary ctx) :
    Script.caughtNames o.property.tokens = ["error", "innerError"] := by
  rw [Script.caughtNames_tokens o.named_property, o.notes_property]
  simp only [List.flatMap_append, (Script.found_map_used _).2, (found_decodes _).2, callNotes,
    List.nil_append]
  unfold answerNotes
  split <;> rfl

/-- Every name of an ordinary entry is a parameter, a variable, caught, a global of the host, or the root
    of the decoder. -/
theorem known_notes (o : Ordinary ctx) : ∀ n ∈ o.property.notes,
    n.name ∈ o.source.params.map (·.name) ∨ n.name ∈ locals o.source.result ∨
      n.name ∈ ["error", "innerError"] ∨ n.name ∈ Ident.hostGlobals ∨
      n.name = Ident.rootSegment ctx.protocol.stringDecoder := by
  obtain ⟨status, others, hs⟩ := o.shape
  have hstatus : o.statusName ∈ o.source.params.map (·.name) := by
    rw [statusName_eq hs, hs.params]
    exact List.mem_cons_self
  rw [o.notes_property]
  simp only [List.mem_append]
  rintro n ((((h | h) | h) | h) | h)
  · obtain ⟨x, hx, rfl⟩ := List.mem_map.mp h
    exact Or.inl hx
  · obtain ⟨p, hp, h⟩ := List.mem_flatMap.mp h
    have hname : p.name ∈ o.source.params.map (·.name) :=
      List.mem_map_of_mem (List.mem_of_mem_filter hp)
    simp only [decodeNotes, List.mem_cons, List.not_mem_nil, or_false] at h
    rcases h with rfl | rfl | rfl
    · exact Or.inl hname
    · exact Or.inr (Or.inr (Or.inr (Or.inr rfl)))
    · exact Or.inl hname
  · simp only [callNotes, List.mem_append] at h
    rcases h with (h | h) | h
    · revert n
      simp [Note.name, locals, Ident.hostGlobals]
    · obtain ⟨x, hx, rfl⟩ := List.mem_map.mp h
      obtain ⟨p, hp, rfl⟩ := List.mem_map.mp hx
      exact Or.inl (List.mem_map_of_mem (List.mem_of_mem_filter hp))
    · generalize o.source.params.map (·.name) = params at hstatus ⊢
      revert n
      simp [Note.name, hstatus, locals, Ident.hostGlobals]
  · revert n
    unfold answerNotes locals
    split <;> simp [Note.name, Ident.hostGlobals]
  · generalize o.source.params.map (·.name) = params at hstatus ⊢
    revert n
    simp [handlerNotes, Note.name, hstatus, locals, Ident.hostGlobals]

end Ordinary

/-! ## 2. Initializers -/

/-- The names of the arguments of a callback. -/
def argumentNames : Ty → List String
  | .plain _ => []
  | .callback params _ => params.map (·.name)

/-- The arguments of the trampolines of an extern, if its entry is the initializer. -/
def trampolineArguments (e : Extern) : List (List String) :=
  (e.params.take trampolineNames.length).map fun p => argumentNames p.ty

namespace Initializer

variable {ctx : Context} {i : Initializer}

/-- The names in the case of a kind of view. -/
def viewNotes (k : BufferKind) : List Note :=
  [.used k.name, .used "buffer", .used "pointer", .used "length"]

/-- The names in the lines of the builder of views. -/
def builderNotes (kinds : List BufferKind) : List Note :=
  [.declared "arrayBuilder"] ++ builderParams.map .used ++ [.used "typeCode"] ++
    kinds.flatMap viewNotes

/-- The names in the line of a trampoline. -/
def trampolineNotes (ctx : Context) (t : Trampoline) : List Note :=
  [.declared t.binding] ++ t.args.map .used ++
    [.used (Ident.rootSegment ctx.protocol.dynCall), .used t.pointer] ++ t.args.map .used

/-- The names in the lines that make the instance. -/
def constructionNotes : List Note :=
  [.declared "ctr", .used "Module", .used "Module", .used "ctr", .used "arrayBuilder", .used "ch",
    .used "oac", .used "orc"]

theorem notes_cases : ∀ kinds : List BufferKind,
    (kinds.map viewCase).flatMap (fun c => c.2.notes) = kinds.flatMap viewNotes
  | [] => rfl
  | k :: kinds => by
      rw [List.map_cons, List.flatMap_cons, notes_cases kinds]
      rfl

theorem notes_declareArrayBuilder (kinds : List BufferKind) :
    (declareArrayBuilder kinds).notes = builderNotes kinds := by
  rw [builderNotes, ← notes_cases, declareArrayBuilder, Stmt.notes, Stmt.notesAll, Stmt.notes,
    Stmt.notesAll, List.append_nil, List.append_assoc, List.append_assoc, List.append_assoc]
  rfl

theorem notes_trampoline (t : Trampoline) :
    (Stmt.declare t.binding (t.function ctx)).notes = trampolineNotes ctx t := by
  have hargs := Expr.flatten_notesEach_names t.args
  simp only [Stmt.notes, Trampoline.function, Expr.notes, Expr.notesEach, List.flatten_cons,
    List.flatten_nil, hargs, Expr.notes_ofPath ctx.sound.dynCall, trampolineNotes]
  simp

theorem notes_trampolines : ∀ ts : List Trampoline,
    Stmt.notesAll (ts.map fun t => .declare t.binding (t.function ctx)) =
      ts.flatMap (trampolineNotes ctx)
  | [] => rfl
  | t :: ts => by
      rw [List.map_cons, Stmt.notesAll, notes_trampoline, notes_trampolines ts, List.flatMap_cons]

/-- **All places of an initializer at which a name stands.** -/
theorem notes_property (i : Initializer) :
    (i.property ctx).notes = (i.source.params.map (·.name)).map .used ++ builderNotes ctx.kinds ++
      i.trampolines.flatMap (trampolineNotes ctx) ++ constructionNotes := by
  show _ ++ Stmt.notesAll (declareArrayBuilder ctx.kinds :: (i.trampolines.map _ ++
    construction ctx)) = _
  rw [Stmt.notesAll, Stmt.notesAll_append, notes_declareArrayBuilder, notes_trampolines]
  simp only [List.append_assoc]
  rfl

theorem found_views (kinds : List BufferKind) :
    (kinds.flatMap viewNotes).flatMap Reader.declaration.found = [] ∧
      (kinds.flatMap viewNotes).flatMap Reader.handler.found = [] := by
  refine Script.found_used fun n hn => ?_
  obtain ⟨k, -, hn⟩ := List.mem_flatMap.mp hn
  simp only [viewNotes, List.mem_cons, List.not_mem_nil, or_false] at hn
  rcases hn with rfl | rfl | rfl | rfl <;> exact ⟨_, rfl⟩

theorem found_trampoline (t : Trampoline) :
    (trampolineNotes ctx t).flatMap Reader.declaration.found = [t.binding] ∧
      (trampolineNotes ctx t).flatMap Reader.handler.found = [] := by
  simp only [trampolineNotes, List.flatMap_append, Script.found_map_used]
  exact ⟨rfl, rfl⟩

/-- **The names an initializer declares are the variables of every initializer**, in their order. -/
theorem declaredNames_tokens (h : Shape ctx i) :
    Script.declaredNames (i.property ctx).tokens = Ident.initializerLocals := by
  obtain ⟨p, q, r, rest, t, u, v, -, hts, ht, hu, hv⟩ := h.three
  cases ht
  cases hu
  cases hv
  rw [Script.declaredNames_tokens (named_property h), notes_property, hts]
  simp only [builderNotes, List.flatMap_cons, List.flatMap_nil, List.flatMap_append,
    (Script.found_map_used _).1, (found_views _).1, (found_trampoline _).1, List.nil_append]
  rfl

/-- An initializer catches nothing. -/
theorem caughtNames_tokens (h : Shape ctx i) :
    Script.caughtNames (i.property ctx).tokens = [] := by
  obtain ⟨p, q, r, rest, t, u, v, -, hts, -⟩ := h.three
  rw [Script.caughtNames_tokens (named_property h), notes_property, hts]
  simp only [builderNotes, List.flatMap_cons, List.flatMap_nil, List.flatMap_append,
    (Script.found_map_used _).2, (found_views _).2, (found_trampoline _).2, List.nil_append]
  rfl

/-- The arguments of the trampolines are those of the first three callbacks. -/
theorem trampolineArguments_eq (h : Shape ctx i) :
    trampolineArguments i.source = i.trampolines.map (·.args) := by
  obtain ⟨p, q, r, rest, t, u, v, hparams, hts, ht, hu, hv⟩ := h.three
  have hwraps : ∀ {x p t}, Trampoline.Wraps ctx i.source x p t → argumentNames p.ty = t.args := by
    intro x p t hw
    cases hw with
    | of callback => rw [callback]; rfl
  rw [trampolineArguments, hparams, hts]
  show [argumentNames p.ty, argumentNames q.ty, argumentNames r.ty] = _
  rw [hwraps ht, hwraps hu, hwraps hv]
  rfl

/-- A trampoline calls a parameter. -/
theorem pointer_mem (h : Shape ctx i) : ∀ t ∈ i.trampolines,
    t.binding ∈ Ident.initializerLocals ∧ t.pointer ∈ i.source.params.map (·.name) := by
  obtain ⟨p, q, r, rest, t, u, v, hparams, hts, ht, hu, hv⟩ := h.three
  cases ht
  cases hu
  cases hv
  rw [hparams, hts]
  simp [Ident.initializerLocals]

/-- Every name of an initializer is a parameter, a variable, a parameter of the builder, an argument of
    a trampoline, a global of the host, the root of the function behind trampolines, or the name of a
    kind of view. -/
theorem known_notes (h : Shape ctx i) : ∀ n ∈ (i.property ctx).notes,
    n.name ∈ i.source.params.map (·.name) ∨ n.name ∈ Ident.initializerLocals ∨
      n.name ∈ builderParams ∨ (∃ t ∈ i.trampolines, n.name ∈ t.args) ∨
      n.name ∈ Ident.hostGlobals ∨ n.name = Ident.rootSegment ctx.protocol.dynCall ∨
      ∃ k ∈ ctx.kinds, n.name = k.name := by
  rw [notes_property]
  simp only [List.mem_append]
  rintro n (((hn | hn) | hn) | hn)
  · obtain ⟨x, hx, rfl⟩ := List.mem_map.mp hn
    exact Or.inl hx
  · simp only [builderNotes, List.mem_append] at hn
    rcases hn with ((hn | hn) | hn) | hn
    · rw [List.mem_singleton.mp hn]
      exact Or.inr (Or.inl List.mem_cons_self)
    · obtain ⟨x, hx, rfl⟩ := List.mem_map.mp hn
      exact Or.inr (Or.inr (Or.inl hx))
    · rw [List.mem_singleton.mp hn]
      exact Or.inr (Or.inr (Or.inl (by decide)))
    · obtain ⟨k, hk, hn⟩ := List.mem_flatMap.mp hn
      simp only [viewNotes, List.mem_cons, List.not_mem_nil, or_false] at hn
      rcases hn with rfl | rfl | rfl | rfl
      · exact Or.inr (Or.inr (Or.inr (Or.inr (Or.inr (Or.inr ⟨k, hk, rfl⟩)))))
      · exact Or.inr (Or.inr (Or.inr (Or.inr (Or.inl (by decide)))))
      · exact Or.inr (Or.inr (Or.inl (by decide)))
      · exact Or.inr (Or.inr (Or.inl (by decide)))
  · obtain ⟨t, ht, hn⟩ := List.mem_flatMap.mp hn
    obtain ⟨hbinding, hpointer⟩ := pointer_mem h t ht
    have hargs : n ∈ t.args.map Note.used → ∃ t ∈ i.trampolines, n.name ∈ t.args := by
      intro hn
      obtain ⟨x, hx, rfl⟩ := List.mem_map.mp hn
      exact ⟨t, ht, hx⟩
    simp only [trampolineNotes, List.mem_append, List.mem_cons, List.not_mem_nil, or_false] at hn
    rcases hn with ((rfl | hn) | rfl | rfl) | hn
    · exact Or.inr (Or.inl hbinding)
    · exact Or.inr (Or.inr (Or.inr (Or.inl (hargs hn))))
    · exact Or.inr (Or.inr (Or.inr (Or.inr (Or.inr (Or.inl rfl)))))
    · exact Or.inl hpointer
    · exact Or.inr (Or.inr (Or.inr (Or.inl (hargs hn))))
  · revert n
    simp [constructionNotes, Note.name, Ident.initializerLocals, Ident.hostGlobals]

end Initializer

/-! ## 3. Entries of either kind -/

/-- **What the tokens of an entry behind its name have to keep to.** -/
structure Vocabulary (ctx : Context) (kind : Kind) (e : Extern) (ts : List Token) : Prop where
  /-- An ordinary entry declares and catches names of its list, the initializer declares its own. -/
  declared : match kind with
    | .ordinary => ∀ x ∈ Script.declaredNames ts ++ Script.caughtNames ts, x ∈ Ident.ordinaryLocals
    | .initializer => Script.declaredNames ts = Ident.initializerLocals ∧ Script.caughtNames ts = []
  /-- Parameters come once. -/
  nodup : (e.params.map (·.name)).Nodup
  /-- A parameter takes the place of nothing the entry relies on. -/
  params : ∀ x ∈ e.params.map (·.name), x ∉ Script.declaredNames ts ++ Script.caughtNames ts ∧
    x ∉ Ident.reservedWords ∧ x ∉ Ident.hostGlobals ∧ x ∉ ctx.protocol.roots
  /-- Every identifier is bound by the entry, or is one of the host. -/
  identifiers : ∀ x ∈ Script.identifiers ts,
    x ∈ e.params.map (·.name) ∨ x ∈ Script.declaredNames ts ++ Script.caughtNames ts ∨
      x ∈ Ident.hostGlobals ∨ x ∈ ctx.protocol.roots ∨
      kind = .initializer ∧ (x ∈ Initializer.builderParams ∨ (∃ xs ∈ trampolineArguments e, x ∈ xs) ∨
        ∃ k ∈ ctx.kinds, x = k.name)
  /-- The arguments of a trampoline come once, and none takes the place of anything it relies on. -/
  arguments : kind = .initializer → ∀ xs ∈ trampolineArguments e, xs.Nodup ∧
    ∀ x ∈ xs, x ∉ e.params.map (·.name) ∧ x ∉ Ident.initializerLocals ∧ x ∉ Ident.hostGlobals ∧
      x ∉ ctx.protocol.roots

variable {ctx : Context} {kind : Kind} {e : Extern}

theorem Ordinary.vocabulary (o : Ordinary ctx) :
    Vocabulary ctx .ordinary o.source o.property.tokens := by
  obtain ⟨status, others, h⟩ := o.shape
  have hdeclared : ∀ x ∈ locals o.source.result ++ ["error", "innerError"], x ∈ Ident.ordinaryLocals := by
    unfold locals
    split <;> decide
  constructor
  case declared =>
    rw [o.declaredNames_tokens, o.caughtNames_tokens]
    exact hdeclared
  case nodup => exact h.bound.nodup
  case params =>
    intro x hx
    have hb := h.bound.params x hx
    rw [o.declaredNames_tokens, o.caughtNames_tokens]
    exact ⟨fun hm => hb.notLocal (hdeclared x hm), Ident.not_mem_reservedWords hb.notReserved,
      hb.notGlobal, hb.notRoot⟩
  case identifiers =>
    intro x hx
    obtain ⟨n, hn, rfl⟩ := Script.mem_identifiers_tokens o.named_property hx
    rw [o.declaredNames_tokens, o.caughtNames_tokens, List.mem_append]
    rcases o.known_notes n hn with hk | hk | hk | hk | hk
    · exact Or.inl hk
    · exact Or.inr (Or.inl (Or.inl hk))
    · exact Or.inr (Or.inl (Or.inr hk))
    · exact Or.inr (Or.inr (Or.inl hk))
    · exact Or.inr (Or.inr (Or.inr (Or.inl (hk ▸ List.mem_cons_self))))
  case arguments => exact fun hk => by cases hk

theorem Initializer.vocabulary {i : Initializer} (h : Shape ctx i) :
    Vocabulary ctx .initializer i.source (i.property ctx).tokens := by
  constructor
  case declared => exact ⟨declaredNames_tokens h, caughtNames_tokens h⟩
  case nodup => exact h.bound.nodup
  case params =>
    intro x hx
    have hb := h.bound.params x hx
    rw [declaredNames_tokens h, caughtNames_tokens h, List.append_nil]
    exact ⟨hb.notLocal, Ident.not_mem_reservedWords hb.notReserved, hb.notGlobal, hb.notRoot⟩
  case identifiers =>
    intro x hx
    obtain ⟨n, hn, rfl⟩ := Script.mem_identifiers_tokens (named_property h) hx
    rw [declaredNames_tokens h, caughtNames_tokens h, List.append_nil]
    rcases known_notes h n hn with hk | hk | hk | ⟨t, ht, hk⟩ | hk | hk | hk
    · exact Or.inl hk
    · exact Or.inr (Or.inl hk)
    · exact Or.inr (Or.inr (Or.inr (Or.inr ⟨rfl, Or.inl hk⟩)))
    · have hm : t.args ∈ trampolineArguments i.source := by
        rw [trampolineArguments_eq h]
        exact List.mem_map_of_mem ht
      exact Or.inr (Or.inr (Or.inr (Or.inr ⟨rfl, Or.inr (Or.inl ⟨t.args, hm, hk⟩)⟩)))
    · exact Or.inr (Or.inr (Or.inl hk))
    · exact Or.inr (Or.inr (Or.inr (Or.inl (hk ▸ List.mem_cons_of_mem _ List.mem_cons_self))))
    · exact Or.inr (Or.inr (Or.inr (Or.inr ⟨rfl, Or.inr (Or.inr hk)⟩)))
  case arguments =>
    intro _ xs hxs
    rw [trampolineArguments_eq h] at hxs
    obtain ⟨t, ht, rfl⟩ := List.mem_map.mp hxs
    obtain ⟨_, _, hw⟩ := h.wraps_of_mem ht
    obtain ⟨hnodup, hbindable⟩ := hw.args
    refine ⟨hnodup, fun x hx => ?_⟩
    have hb := hbindable x hx
    have hlocal := hb.notLocal
    rw [List.mem_append, not_or] at hlocal
    exact ⟨hlocal.1, hlocal.2, hb.notGlobal, hb.notRoot⟩

/-- **The lists of names and the entries agree**: the text of every accepted entry is its name, a colon,
    and tokens that keep to the vocabulary of its kind. -/
theorem alone_vocabulary (ctx : Context) (kind : Kind) (e : Extern) (text : String)
    (h : alone ctx kind e = .ok text) :
    ∃ ts, Text.tokens text.toList = .word e.name :: ts ∧ ts.head? = some (.mark ':') ∧
      Vocabulary ctx kind e ts := by
  cases hof : ofKind ctx kind e with
  | error err =>
    rw [alone_of_error hof] at h
    cases h
  | ok entry =>
    have htext : text = Line.join (entry.code.lines 0) := by
      rw [alone_of_ok hof] at h
      exact (Except.ok.inj h).symm
    have htokens := Script.Property.tokens_code entry.property (named_property hof) 0
    rw [htext]
    rcases ofKind_eq_ok hof with ⟨rfl, o, rfl, rfl⟩ | ⟨rfl, i, rfl, hi, rfl⟩
    · exact ⟨o.property.tokens, htokens, rfl, o.vocabulary⟩
    · exact ⟨(i.property ctx).tokens, htokens, rfl, Initializer.vocabulary hi⟩

/-- An initializer whose callbacks have arguments of the same names. -/
def sampleInitializer : Extern :=
  let number (x : String) : Param := ⟨x, .plain .i32, .input⟩
  let callback (xs : List String) : Ty := .callback (xs.map number) (.plain .void)
  ⟨"InitializeInternal", Extern.defaultOwner,
    [⟨"handler", callback ["length", "kind"], .input⟩, ⟨"acquire", callback ["length"], .input⟩,
     ⟨"release", callback [], .input⟩], .plain .void⟩

theorem vocabulary_sample : ∃ (text : String) (ts : List Token),
    alone .standard .initializer sampleInitializer = .ok text ∧
    Text.tokens text.toList = .word "InitializeInternal" :: ts ∧
    Vocabulary .standard .initializer sampleInitializer ts := by
  have hok : (alone .standard .initializer sampleInitializer).isOk = true := by decide +kernel
  cases h : alone .standard .initializer sampleInitializer with
  | error err =>
    rw [h] at hok
    cases hok
  | ok text =>
    obtain ⟨ts, htokens, -, hvocabulary⟩ := alone_vocabulary _ _ _ text h
    exact ⟨text, ts, rfl, htokens, hvocabulary⟩

end HostGlue.Entry
