import HostGlue.Proofs.Document.Slot
import HostGlue.Proofs.Entry.Complaints

/-!
# What an ordinary entry does with its parameters

An ordinary entry looks at its parameter list in four ways: all of them are listed, the texts are
decoded, those that carry a value in are handed on, and the first is where the status goes. This file
shows that these agree:

* `Ordinary.handling`, the lines of an entry written out, for a status and other parameters;
* `Ordinary.lines_property`, that these are the lines of an accepted entry;
* **`Ordinary.emission_handles`: the status is the first parameter and is only stored through, all
  others are handed on in their order, and of these exactly the texts are decoded before.** What else a
  name may look like, the lines that decode and those that store are told apart from all others.
-/

namespace HostGlue.Entry.Ordinary

open Script (Expr Stmt commaList)

variable {ctx : Context}

/-! ## 1. The lines -/

/-- What stores a status is written as. -/
def statusText (status value tag : String) : String :=
  "setValue(" ++ status ++ ", " ++ value ++ ", \x27" ++ tag ++ "\x27);"

/-- What hands on the other parameters is written as. -/
def forwardText (name : String) (others : List Param) : String :=
  "var ret = context." ++ name ++ "(" ++ commaList (others.map (·.name)) ++ ");"

/-- What returns the answer is written as. -/
def returnTexts (result : Ty) : List String :=
  if result = .plain .string then
    ["var returnStr = ret.value;", "var bufferSize = lengthBytesUTF8(returnStr) + 1;",
      "var strBuffer = _malloc(bufferSize);", "stringToUTF8(returnStr, strBuffer, bufferSize);",
      "return strBuffer;"]
  else ["return ret.value;"]

/-- The lines that decode the texts among some parameters, in their order. -/
def decodings (p : Protocol) (params : List Param) (d : Nat) : List Line :=
  (params.filter (·.ty = .plain .string)).map fun q => ⟨d, decodeText p q⟩

/-- The lines of the `try` region. -/
def tryLines (p : Protocol) (name tag : String) (status : Param) (others : List Param) (result : Ty)
    (d : Nat) : List Line :=
  decodings p others d ++
  [⟨d, "var context = " ++ hostText p.instanceKey ++ ";"⟩, ⟨d, forwardText name others⟩,
    ⟨d, statusText status.name "ret.type" tag⟩] ++
  (returnTexts result).map (⟨d, ·⟩)

/-- The lines of the `catch` region. -/
def catchLines (p : Protocol) (tag : String) (status : Param) (d : Nat) : List Line :=
  [⟨d, statusText status.name "-1" tag⟩,
    ⟨d, "try \x7b"⟩,
    ⟨d + 1, "console.log(error);"⟩,
    ⟨d + 1, "var errString = String(error);"⟩,
    ⟨d + 1, "var strRet = " ++ hostText p.instanceKey ++ ".CreateString(errString);"⟩,
    ⟨d + 1, "return strRet.value;"⟩,
    ⟨d, "\x7d"⟩,
    ⟨d, "catch (innerError) \x7b"⟩,
    ⟨d + 1, "return 0;"⟩,
    ⟨d, "\x7d"⟩]

/-- The lines of an entry with a status and other parameters. -/
def handling (p : Protocol) (name tag : String) (status : Param) (others : List Param) (result : Ty)
    (d : Nat) : List Line :=
  [⟨d, name ++ ": function (" ++ commaList (status.name :: others.map (·.name)) ++ ") \x7b"⟩,
    ⟨d + 1, "try \x7b"⟩] ++
  tryLines p name tag status others result (d + 2) ++
  [⟨d + 1, "\x7d"⟩, ⟨d + 1, "catch (error) \x7b"⟩] ++
  catchLines p tag status (d + 2) ++
  [⟨d + 1, "\x7d"⟩, ⟨d, "\x7d,"⟩]

/-! ## 2. An entry has these lines -/

theorem isString_iff (ty : Ty) : ty.isString = true ↔ ty = .plain .string := by
  cases ty with
  | callback => simp [Ty.isString]
  | plain p => cases p <;> simp [Ty.isString]

/-- Names handed to a function are listed behind it. -/
theorem spell_call_names (f : Expr) (xs : List String) :
    (Expr.call f (Expr.names xs)).spell = f.spell ++ "(" ++ commaList xs ++ ")" := by
  rw [Expr.spell, Expr.spellings_names]

theorem lines_decodings (ps : List Param) (d : Nat) :
    Code.bodyLines d (Stmt.bodyCode ((ps.filter (·.ty.isString)).map (decodeParam ctx))) =
      decodings ctx.protocol ps d := by
  have hfilter : ps.filter (·.ty.isString) = ps.filter (·.ty = .plain .string) :=
    List.filter_congr fun p _ => Bool.eq_iff_iff.mpr (by rw [isString_iff, decide_eq_true_iff])
  have hline : ∀ p, (decodeParam ctx p).code = [.line (decodeText ctx.protocol p)] := by
    intro p
    rw [← storeText_decode]
    rfl
  rw [decodings, hfilter, Script.Stmt.bodyCode_map hline, Code.bodyLines_lines]

theorem lines_returnAnswer (result : Ty) (d : Nat) :
    Code.bodyLines d (Stmt.bodyCode (returnAnswer result)) = (returnTexts result).map (⟨d, ·⟩) := by
  unfold returnAnswer returnTexts
  by_cases h : result = .plain .string
  · rw [if_pos h, if_pos ((isString_iff result).mpr h)]
    rfl
  · rw [if_neg h, if_neg (mt (isString_iff result).mp h)]
    rfl

theorem storeStatus_code (o : Ordinary ctx) {status : Param} {others : List Param}
    (h : Shape ctx o.source status others) (value : Expr) :
    (o.storeStatus value).code = [.line (statusText status.name value.spell o.statusTag.word)] := by
  have htag : Text.Quoted.encode o.statusTag.word = "\x27" ++ (o.statusTag.word ++ "\x27") := by
    rw [o.statusTag_eq]
    decide
  have hhead : "setValue(" = "setValue" ++ "(" := rfl
  have hquote : ", \x27" = ", " ++ "\x27" := rfl
  have hend : "\x27);" = "\x27" ++ (")" ++ ";") := rfl
  unfold storeStatus statusText
  rw [statusName_eq h, hhead, hquote, hend]
  simp only [Stmt.code, Expr.spell, Expr.spellings, commaList, String.intercalate_cons_cons,
    String.intercalate_singleton, htag, String.append_assoc]

/-- The line that hands on the other parameters. -/
theorem declare_forward (name : String) (others : List Param) :
    (Stmt.declare "ret" (.call (.member (.name "context") name)
      (Expr.names (others.map (·.name))))).code = [.line (forwardText name others)] := by
  have hhead : "var ret = context." = "var " ++ ("ret" ++ (" = " ++ ("context" ++ "."))) := rfl
  have hend : ");" = ")" ++ ";" := rfl
  unfold forwardText
  rw [Stmt.code, spell_call_names, hhead, hend]
  simp only [Expr.spell, String.append_assoc]

/-- The line that makes a text of the instance from the error. -/
theorem declare_createString (p : Protocol) :
    (Stmt.declare "strRet" (.call (.member (instanceSlot p) "CreateString")
      [.name "errString"])).code =
      [.line ("var strRet = " ++ hostText p.instanceKey ++ ".CreateString(errString);")] := by
  have hhead : "var strRet = " = "var " ++ ("strRet" ++ " = ") := rfl
  have hend : ".CreateString(errString);" =
      "." ++ ("CreateString" ++ ("(" ++ ("errString" ++ (")" ++ ";")))) := rfl
  unfold instanceSlot hostItem hostText
  rw [hhead, hend]
  simp only [Stmt.code, Expr.spell, Expr.spellings, commaList, String.intercalate_singleton,
    String.append_assoc]
  rfl

theorem lines_tryBody_eq (o : Ordinary ctx) {status : Param} {others : List Param}
    (h : Shape ctx o.source status others) (d : Nat) :
    Code.bodyLines d (Stmt.bodyCode o.tryBody) =
      tryLines ctx.protocol o.source.name o.statusTag.word status others o.source.result d := by
  have hmiddle : Stmt.bodyCode
      [.declare "context" (instanceSlot ctx.protocol),
        .declare "ret" (.call (.member (.name "context") o.source.name)
          (Expr.names (others.map (·.name)))),
        o.storeStatus (.member (.name "ret") "type")] =
      [.line ("var context = " ++ hostText ctx.protocol.instanceKey ++ ";"),
        .line (forwardText o.source.name others),
        .line (statusText status.name "ret.type" o.statusTag.word)] := by
    rw [Stmt.bodyCode, Stmt.bodyCode, Stmt.bodyCode, storeStatus_code o h, declare_forward]
    rfl
  unfold tryBody tryLines
  rw [h.strings, h.forwarded, Script.Stmt.bodyCode_append, Script.Stmt.bodyCode_append, hmiddle,
    Code.bodyLines_append, Code.bodyLines_append, lines_decodings, lines_returnAnswer]
  rfl

theorem lines_catchBody (o : Ordinary ctx) {status : Param} {others : List Param}
    (h : Shape ctx o.source status others) (d : Nat) :
    Code.bodyLines d (Stmt.bodyCode o.catchBody) =
      catchLines ctx.protocol o.statusTag.word status d := by
  have hthrown : (Expr.number CallStatus.threw.code).spell = "-1" := by decide
  unfold catchBody catchLines
  rw [Stmt.bodyCode, storeStatus_code o h, hthrown, Stmt.bodyCode, Stmt.bodyCode, Stmt.code,
    Stmt.bodyCode, Stmt.bodyCode, Stmt.bodyCode, declare_createString]
  rfl

/-- The line that opens an entry lists its parameters. -/
theorem openLine_property (name : String) (params : List String) :
    openLine (name ++ ": " ++ Script.functionHead params) =
      name ++ ": function (" ++ commaList params ++ ") \x7b" := by
  have hne : name ++ ": " ++ Script.functionHead params ≠ "" := fun h => by
    simpa [Script.functionHead] using congrArg String.toList h
  have hhead : ": function (" = ": " ++ "function (" := rfl
  have hend : ") \x7b" = ")" ++ " \x7b" := rfl
  unfold openLine
  rw [if_neg hne, Script.functionHead, hhead, hend]
  simp only [String.append_assoc]

/-- **The lines of an accepted entry**, at any depth. -/
theorem lines_handling (o : Ordinary ctx) {status : Param} {others : List Param}
    (h : Shape ctx o.source status others) (d : Nat) :
    o.property.code.lines d =
      handling ctx.protocol o.source.name o.statusTag.word status others o.source.result d := by
  have htry := o.lines_tryBody_eq h (d + 2)
  have hcatch := o.lines_catchBody h (d + 2)
  have hblocks : Code.bodyLines (d + 1) (Stmt.bodyCode o.property.body) =
      ⟨d + 1, "try \x7b"⟩ :: Code.bodyLines (d + 2) (Stmt.bodyCode o.tryBody) ++
        ([⟨d + 1, "\x7d"⟩, ⟨d + 1, "catch (error) \x7b"⟩] ++
          Code.bodyLines (d + 2) (Stmt.bodyCode o.catchBody) ++ [⟨d + 1, "\x7d"⟩]) := by
    simp only [property, Stmt.bodyCode, Stmt.code, Code.bodyLines, Code.lines, List.append_nil,
      List.cons_append, List.append_assoc]
    rfl
  unfold handling
  rw [Script.Property.code, Code.lines, hblocks, htry, hcatch, openLine_property]
  simp only [property, h.params, List.map_cons, List.cons_append, List.append_assoc, List.nil_append]
  rfl

/-! ## 3. Lines told apart -/

/-- Whether a line begins with a text, behind its blanks. -/
def begins (text : String) (l : Line) : Bool := text.toList.isPrefixOf l.content.toList

/-- The lines between the first that opens something and the first behind it that closes it. -/
def between (opens closes : Line → Bool) (ls : List Line) : List Line :=
  ((ls.dropWhile fun l => !opens l).drop 1).takeWhile fun l => !closes l

theorem between_eq {opens closes : Line → Bool} {front inner back : List Line} {l k : Line}
    (hfront : ∀ x ∈ front, opens x = false) (hl : opens l = true)
    (hinner : ∀ x ∈ inner, closes x = false) (hk : closes k = true) :
    between opens closes (front ++ l :: (inner ++ k :: back)) = inner := by
  have hdrop : (front ++ l :: (inner ++ k :: back)).dropWhile (fun x => !opens x) =
      l :: (inner ++ k :: back) := by
    rw [List.dropWhile_append_of_pos fun x hx => by rw [hfront x hx]; rfl,
      List.dropWhile_cons_of_neg (by rw [hl]; exact Bool.false_ne_true)]
  have htake : (inner ++ k :: back).takeWhile (fun x => !closes x) = inner := by
    rw [List.takeWhile_append_of_pos fun x hx => by rw [hinner x hx]; rfl,
      List.takeWhile_cons_of_neg (by rw [hk]; exact Bool.false_ne_true), List.append_nil]
  rw [between, hdrop, List.drop_one, List.tail_cons, htake]

/-- A line that begins with an identifier begins with no other word of that kind. -/
theorem not_begins {x word : String} {c d : Char} {rest more : List Char} {l : Line} {text : String}
    (hx : Ident.isIdentifier x = true) (hword : Ident.isIdentifier word = true)
    (hc : Ident.isPart c = false) (hd : Ident.isPart d = false) (hcd : x ≠ word ∨ c ≠ d)
    (hl : l.content.toList = x.toList ++ c :: rest) (htext : text.toList = word.toList ++ d :: more) :
    begins text l = false := by
  rw [begins, Bool.eq_false_iff]
  intro hprefix
  obtain ⟨tail, htail⟩ := List.isPrefixOf_iff_prefix.mp hprefix
  rw [hl, htext, List.append_assoc, List.cons_append] at htail
  obtain ⟨hname, hrest⟩ := Ident.read hword hx hd hc htail
  rcases hcd with h | h
  · exact h hname.symm
  · exact h (List.cons.inj hrest).1.symm

theorem toList_decodeText (p : Protocol) (q : Param) : (decodeText p q).toList =
    q.name.toList ++ ' ' :: ("= " ++ p.stringDecoder ++ "(" ++ q.name ++ ");").toList := by
  simp [decodeText, String.toList_append]

section Parts

variable {o : Ordinary ctx} {status : Param} {others : List Param}

theorem decodings_begin (h : Shape ctx o.source status others) {d : Nat} {l : Line}
    (hl : l ∈ decodings ctx.protocol others d) : ∃ q ∈ others, l = ⟨d, decodeText ctx.protocol q⟩ ∧
      Ident.isIdentifier q.name = true ∧ Ident.isReserved q.name = false := by
  obtain ⟨q, hq, rfl⟩ := List.mem_map.mp hl
  have hmem := List.mem_of_mem_filter hq
  have hbound := h.bound.params q.name
    (List.mem_map_of_mem (by rw [h.params]; exact List.mem_cons_of_mem _ hmem))
  exact ⟨q, hmem, rfl, hbound.identifier, hbound.notReserved⟩

/-- No decoding declares the instance: its parameter is not named by a reserved word. -/
theorem decodings_declare (h : Shape ctx o.source status others) {d : Nat} :
    ∀ l ∈ decodings ctx.protocol others d, begins "var context" l = false := by
  intro l hl
  obtain ⟨q, -, rfl, hname, hreserved⟩ := decodings_begin h hl
  refine not_begins hname (by decide) (by decide) (by decide) (.inl fun hvar => ?_)
    (toList_decodeText ctx.protocol q) (show "var context".toList = "var".toList ++ ' ' :: _ from rfl)
  rw [hvar] at hreserved
  exact absurd hreserved (by decide)

/-- No decoding stores a status: a blank follows its parameter. -/
theorem decodings_store (h : Shape ctx o.source status others) {d : Nat} :
    ∀ l ∈ decodings ctx.protocol others d, begins "setValue(" l = false := by
  intro l hl
  obtain ⟨q, -, rfl, hname, -⟩ := decodings_begin h hl
  exact not_begins hname (by decide) (by decide) (by decide) (.inr (by decide))
    (toList_decodeText ctx.protocol q) (show "setValue(".toList = "setValue".toList ++ '(' :: _ from rfl)

/-- The status is not decoded: all names are different. -/
theorem decodings_status (h : Shape ctx o.source status others) {d : Nat} :
    ∀ l ∈ decodings ctx.protocol others d, l.content ≠ decodeText ctx.protocol status := by
  intro l hl hcontent
  obtain ⟨q, hq, rfl, hname, -⟩ := decodings_begin h hl
  have hnodup := h.bound.nodup
  rw [h.params, List.map_cons, List.nodup_cons] at hnodup
  have hstatus := h.bound.params status.name (by rw [h.params]; exact List.mem_cons_self)
  have hread := congrArg String.toList hcontent
  rw [toList_decodeText, toList_decodeText] at hread
  obtain ⟨hsame, -⟩ := Ident.read hname hstatus.identifier (by decide) (by decide) hread
  exact hnodup.1 (hsame ▸ List.mem_map_of_mem hq)

/-- The head of an entry begins with its name, and a colon follows. -/
theorem head_not_begins (h : Shape ctx o.source status others) (depth : Nat) (word : String) (d : Char)
    {text : String} {more : List Char} (hword : Ident.isIdentifier word = true)
    (hd : Ident.isPart d = false) (hcolon : ':' ≠ d) (htext : text.toList = word.toList ++ d :: more) :
    begins text ⟨depth, o.source.name ++ ": function (" ++
      commaList (status.name :: others.map (·.name)) ++ ") \x7b"⟩ = false := by
  have hhead : (o.source.name ++ ": function (" ++ commaList (status.name :: others.map (·.name)) ++
      ") \x7b").toList = o.source.name.toList ++ ':' ::
        (" function (" ++ commaList (status.name :: others.map (·.name)) ++ ") \x7b").toList := by
    simp [String.toList_append]
  exact not_begins h.bound.name hword (by decide) hd (.inr hcolon) hhead htext

/-- The lines between the start of the entry and the instance are those that decode. -/
theorem between_handling (h : Shape ctx o.source status others) (tag : String) (d : Nat) :
    between (fun l => l.content == "try \x7b") (begins "var context")
      (handling ctx.protocol o.source.name tag status others o.source.result d) =
    decodings ctx.protocol others (d + 2) := by
  have hhead := head_not_begins h d "try" ' ' (by decide) (by decide) (by decide)
    (show "try ".toList = _ from rfl)
  have hcontext : begins "var context"
      ⟨d + 2, "var context = " ++ hostText ctx.protocol.instanceKey ++ ";"⟩ = true := by
    simp [begins, String.toList_append]
  unfold handling tryLines
  simp only [List.append_assoc, List.cons_append, List.nil_append]
  refine @between_eq _ _ [_] _ _ _ _ (fun x hx => ?_) rfl (decodings_declare h) hcontext
  obtain rfl := List.mem_singleton.mp hx
  rw [beq_eq_false_iff_ne]
  intro hcontent
  rw [begins, hcontent] at hhead
  exact absurd hhead (by decide)

/-- Two lines begin as a store does, whatever the names are. -/
theorem filter_handling (h : Shape ctx o.source status others) (tag : String) (d : Nat) :
    (handling ctx.protocol o.source.name tag status others o.source.result d).filter
      (begins "setValue(") =
    [⟨d + 2, statusText status.name "ret.type" tag⟩, ⟨d + 2, statusText status.name "-1" tag⟩] := by
  have hhead := head_not_begins h d "setValue" '(' (by decide) (by decide) (by decide)
    (show "setValue(".toList = _ from rfl)
  have hdecodings : (decodings ctx.protocol others (d + 2)).filter (begins "setValue(") = [] :=
    List.filter_eq_nil_iff.mpr fun l hl => by rw [decodings_store h l hl]; exact Bool.false_ne_true
  have hreturn : ((returnTexts o.source.result).map fun t => (⟨d + 2, t⟩ : Line)).filter
      (begins "setValue(") = [] := by
    unfold returnTexts
    split <;> simp [begins, List.isPrefixOf]
  unfold handling tryLines catchLines statusText forwardText
  simp only [List.filter_append, hdecodings, hreturn, List.filter_cons, hhead]
  simp [begins, List.isPrefixOf, String.toList_append]

end Parts

/-! ## 4. Emissions -/

/-- **An ordinary entry handles exactly its parameters.** The first of them is the status, an integer of
    32 bits, and the others are what is handed on. Whatever the writer holds, it gets the lines of
    `handling`, each a line of the text: all parameters in the head; the call with all others in their
    order; the store of the kind of the answer behind it, and that of the failure at the start of the
    `catch` region, both through the status and as `i32`; and behind the first store the copy of the
    answer if it is a text, its value otherwise. Between the start of the `try` region and the instance
    stand the decodings of the texts among the others, in their order, and none of the status. And no
    other line begins as a store does. -/
theorem emission_handles (ctx : Context) (e : Extern) (w : Writer)
    (h : (emission ctx .ordinary e w).failure = none) :
    ∃ status others tag, e.params = status :: others ∧ e.status? = some status ∧
      e.forwarded = others ∧ (status.ty = .plain .i32 ∨ status.ty = .plain .u32) ∧
      status.ty.storageTag = .ok tag ∧ tag.word = "i32" ∧
      let added := handling ctx.protocol e.name tag.word status others e.result w.depth
      let decoding := decodings ctx.protocol others (w.depth + 2)
      (emission ctx .ordinary e w).writer.lines = w.lines ++ added ∧
      Text.lines (Line.join added).toList =
        added.map (fun l => List.replicate (4 * l.depth) ' ' ++ l.content.toList) ∧
      between (fun l => l.content == "try \x7b") (begins "var context") added = decoding ∧
      (∀ l ∈ decoding, l.content ≠ decodeText ctx.protocol status) ∧
      added.filter (begins "setValue(") =
        [⟨w.depth + 2, statusText status.name "ret.type" tag.word⟩,
          ⟨w.depth + 2, statusText status.name "-1" tag.word⟩] := by
  cases hof : ofKind ctx .ordinary e with
  | error err =>
    rw [emission_of_error hof] at h
    cases h
  | ok entry =>
    rcases ofKind_eq_ok hof with ⟨-, o, rfl, rfl⟩ | ⟨hk, -⟩
    · obtain ⟨status, others, hs⟩ := o.shape
      have hstatus : o.source.status? = some status := by
        rw [Extern.status?, hs.params, List.head?_cons, Option.filter_some, hs.statusOutput]
        rfl
      have hty := (isIntegral32_iff status.ty).mp hs.statusIntegral
      obtain ⟨htag, hword⟩ := storageTag_status hs
      have hlines := o.lines_handling hs w.depth
      have hsolid := solid_code hof w.depth
      rw [code, Entry.property, hlines] at hsolid
      rw [emission_of_ok hof]
      exact ⟨status, others, o.statusTag, hs.params, hstatus, hs.forwarded, hty, htag,
        congrArg StorageTag.word hword,
        congrArg (w.lines ++ ·) hlines, Line.lines_join hsolid, between_handling hs _ _,
        decodings_status hs, filter_handling hs _ _⟩
    · cases hk

/-- A function whose name and parameters look like other lines of its entry. -/
def likeOthersExtern : Extern :=
  ⟨"setValue", "Native.Text", [⟨"status", .plain .u32, .output⟩, ⟨"varcontext", .plain .string, .input⟩,
    ⟨"value", .plain .i64, .input⟩, ⟨"setValue_", .plain .string, .input⟩], .plain .string⟩

theorem emission_handles_alike :
    (emission .standard .ordinary likeOthersExtern .empty).failure = none ∧
    let lines := (emission .standard .ordinary likeOthersExtern .empty).writer.lines
    between (fun l => l.content == "try \x7b") (begins "var context") lines =
      [⟨2, "varcontext = Pointer_stringify(varcontext);"⟩,
        ⟨2, "setValue_ = Pointer_stringify(setValue_);"⟩] ∧
    lines.filter (begins "setValue(") =
      [⟨2, "setValue(status, ret.type, \x27i32\x27);"⟩, ⟨2, "setValue(status, -1, \x27i32\x27);"⟩] := by
  have hnone : (emission .standard .ordinary likeOthersExtern .empty).failure = none := by
    decide +kernel
  obtain ⟨status, others, tag, hparams, -, -, -, -, hword, hlines, -, hbetween, -, hstores⟩ :=
    emission_handles .standard likeOthersExtern .empty hnone
  obtain ⟨rfl, rfl⟩ := List.cons.inj hparams
  refine ⟨hnone, ?_, ?_⟩
  · rw [hlines]
    exact hbetween.trans (by decide +kernel)
  · rw [hlines]
    refine hstores.trans ?_
    rw [hword]
    decide +kernel

end HostGlue.Entry.Ordinary
