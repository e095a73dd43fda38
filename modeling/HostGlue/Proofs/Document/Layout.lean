import HostGlue.Proofs.Document.Reading
import HostGlue.Proofs.Entry.Scope
import HostGlue.Proofs.Script.Nesting

/-!
# How documents are laid out

Names, paths and keys of the input are written into the lines of a document. This file shows that they
never break its layout:

* `Entry.size_code`, the number of lines of an entry, by the extern it is made from;
* `Entry.nested_code`, that every line of an entry fits behind the brackets that are open in front of it;
* `generate_laid_out`, all of it for documents: their lines and how many there are, that the brackets
  outside of literals are nested, and that every line begins with four blanks for every open brace.
-/

namespace HostGlue

open Script (Stmt)

/-! ## 1. Numbers of lines -/

/-- The number of lines trees of code are written as. It is the same at any depth. -/
def Code.size (cs : List Code) : Nat := (Code.bodyLines 0 cs).length

namespace Code

theorem length_bodyLines (d : Nat) (cs : List Code) : (bodyLines d cs).length = size cs := by
  have h := bodyLines_add 0 d cs
  rw [Nat.zero_add] at h
  rw [h, List.length_map, size]

theorem size_append (as bs : List Code) : size (as ++ bs) = size as + size bs := by
  rw [size, bodyLines_append, List.length_append, size, size]

theorem size_lines {α : Type} (f : α → String) (xs : List α) :
    size (xs.map fun x => .line (f x)) = xs.length := by
  rw [size, bodyLines_lines, List.length_map]

theorem size_block (header suffix : String) (body : List Code) :
    size [.block header suffix body] = size body + 2 := by
  rw [size, bodyLines, lines, bodyLines, List.append_nil, List.cons_append, List.length_cons,
    List.length_append, length_bodyLines]
  rfl

end Code

namespace Entry

variable {ctx : Context} {e : Extern} {entry : Entry ctx}

theorem Ordinary.size_decodes (ps : List Param) :
    Code.size (Stmt.bodyCode (ps.map (decodeParam ctx))) = ps.length := by
  have hline : ∀ p, (decodeParam ctx p).code = [.line (p.name ++ " = " ++
      (Script.Expr.call (.ofPath ctx.protocol.stringDecoder) [.name p.name]).spell ++ ";")] :=
    fun _ => rfl
  rw [Stmt.bodyCode_map hline, Code.size_lines]

theorem Ordinary.size_behindDecoding (o : Ordinary ctx) :
    Code.size (Stmt.bodyCode o.behindDecoding) = 4 + if o.source.result.isString then 4 else 0 := by
  unfold behindDecoding behindContext returnAnswer
  split <;> rfl

/-- The number of lines of an ordinary entry. -/
theorem Ordinary.size_code (o : Ordinary ctx) :
    Code.size [o.property.code] =
      20 + (o.source.params.filter (·.ty.isString)).length +
        if o.source.result.isString then 4 else 0 := by
  have hcatch : Code.size (Stmt.bodyCode o.catchBody) = 10 := rfl
  have htry : Code.size (Stmt.bodyCode o.tryBody) =
      (o.source.params.filter (·.ty.isString)).length +
        (4 + if o.source.result.isString then 4 else 0) := by
    rw [tryBody_decodes, Stmt.bodyCode_append, Code.size_append, size_decodes, size_behindDecoding]
  have hbody : Code.size (Stmt.bodyCode o.property.body) =
      (Code.size (Stmt.bodyCode o.tryBody) + 2) + (Code.size (Stmt.bodyCode o.catchBody) + 2) := by
    rw [← Code.size_block "try" "", ← Code.size_block "catch (error)" "", ← Code.size_append]
    rfl
  rw [Script.Property.code, Code.size_block, hbody, htry, hcatch]
  omega

/-- The builder of views has one line for every kind. -/
theorem Initializer.size_declareArrayBuilder (kinds : List BufferKind) :
    Code.size (declareArrayBuilder kinds).code = kinds.length + 4 := by
  have hcases : Code.size ((kinds.map viewCase).map fun c => .line (Script.caseText c)) =
      kinds.length := by
    rw [Code.size_lines, List.length_map]
  rw [declareArrayBuilder, Stmt.code, Code.size_block, Stmt.bodyCode, Stmt.code, Stmt.bodyCode,
    List.append_nil, Code.size_block, hcases]

/-- The number of lines of an initializer. -/
theorem Initializer.size_code {i : Initializer} (h : Shape ctx i) :
    Code.size [(i.property ctx).code] = 11 + ctx.kinds.length := by
  obtain ⟨p, q, r, rest, t, u, v, -, hts, -⟩ := h.three
  have hrest : Code.size (Stmt.bodyCode ((i.trampolines.map fun t =>
      Stmt.declare t.binding (t.function ctx)) ++ construction ctx)) = 5 := by
    rw [hts]
    rfl
  have hbody : (i.property ctx).body = declareArrayBuilder ctx.kinds ::
      ((i.trampolines.map fun t => Stmt.declare t.binding (t.function ctx)) ++ construction ctx) := rfl
  rw [Script.Property.code, Code.size_block, hbody, Stmt.bodyCode, Code.size_append,
    size_declareArrayBuilder, hrest]
  omega

/-- The number of lines of the entry of an extern: in an ordinary one a text is decoded on a line of its
    own and a text as the answer takes four more, in the initializer there is a line for every kind of
    view. -/
def height (p : Protocol) (kinds : List BufferKind) (e : Extern) : Nat :=
  if e.name = p.initializeEntry then 11 + kinds.length
  else 20 + (e.params.filter (·.ty.isString)).length + if e.result.isString then 4 else 0

theorem size_code (h : Entry.of ctx e = .ok entry) :
    Code.size [entry.code] = height ctx.protocol ctx.kinds e := by
  rcases of_eq_ok h with ⟨hname, o, rfl, rfl⟩ | ⟨hname, i, rfl, hi, rfl⟩
  · rw [height, if_neg hname]
    exact o.size_code
  · rw [height, if_pos hname]
    exact Initializer.size_code hi

/-! ## 2. Entries -/

/-- No line of an entry begins with a text. -/
theorem lacks_startsWithText (h : Entry.of ctx e = .ok entry) :
    Stmt.lacksAll Stmt.startsWithText entry.property.body = true := by
  rcases of_eq_ok h with ⟨-, o, -, rfl⟩ | ⟨-, i, -, -, rfl⟩
  · have hbehind : Stmt.lacksAll Stmt.startsWithText o.behindDecoding = true := by
      unfold Ordinary.behindDecoding Ordinary.behindContext Ordinary.returnAnswer
      split <;> rfl
    exact o.lacks_property (fun _ _ => rfl) hbehind rfl
  · have htramps := Initializer.lacks_trampolines ctx Stmt.startsWithText (fun _ _ _ => rfl)
      i.trampolines
    have hrest := Stmt.lacksAll_append Stmt.startsWithText htramps
      (rfl : Stmt.lacksAll _ (Initializer.construction ctx) = true)
    show (Stmt.lacks Stmt.startsWithText (Initializer.declareArrayBuilder ctx.kinds) &&
      Stmt.lacksAll Stmt.startsWithText _) = true
    exact hrest

theorem nested_code (h : Entry.of ctx e = .ok entry) : Code.Nested [entry.code] :=
  Script.Property.nested_code _ (named_property h) (lacks_startsWithText h)

end Entry

/-! ## 3. Documents -/

namespace Document

variable {ctx : Context} {es : List Extern} {entries : List (Entry ctx)}

/-- The number of lines of the entries of externs. -/
def height (p : Protocol) (kinds : List BufferKind) : List Extern → Nat
  | [] => 0
  | e :: es => Entry.height p kinds e + height p kinds es

theorem size_entries (h : Entries ctx es entries) :
    Code.size (entries.map Entry.code) = height ctx.protocol ctx.kinds es := by
  induction h with
  | nil => rfl
  | cons hof _ ih =>
    rw [List.map_cons, height, ← Entry.size_code hof, ← ih, ← Code.size_append]
    rfl

theorem nested_entries (h : Entries ctx es entries) : Code.Nested (entries.map Entry.code) := by
  induction h with
  | nil => exact Code.nested_nil
  | cons hof _ ih => exact Code.nested_append (Entry.nested_code hof) ih

/-- The registration opens a bracket around its entries, and closes it behind them. -/
theorem nested_code (h : Entries ctx es entries) : Code.Nested (code entries) := by
  have hbanner : Code.Nested [.line banner] :=
    Code.nested_line ⟨'/', _, rfl, by decide⟩ (Text.Turns.of_plain (by decide))
  have hregistration : Code.Nested [.block registration registrationEnd (entries.map Entry.code)] :=
    Code.nested_block ['('] (by decide) ⟨'m', _, rfl, by decide⟩ (fun _ => ⟨fun _ => rfl, rfl⟩)
      (fun _ => ⟨fun _ => rfl, rfl⟩) (nested_entries h)
  exact Code.nested_append hbanner hregistration

theorem size_document (h : Entries ctx es entries) :
    Code.size (code entries) = 3 + height ctx.protocol ctx.kinds es := by
  have hcode : code entries =
    [.line banner] ++ [.block registration registrationEnd (entries.map Entry.code)] := rfl
  have hline : Code.size [.line banner] = 1 := rfl
  rw [hcode, Code.size_append, Code.size_block, size_entries h, hline]
  omega

/-- **How a document is laid out**, whatever the names of a catalog and the keys of a protocol are:

    * it is made of lines that end with a line feed, three and those of its entries;
    * no literal goes beyond its line, and the brackets outside of literals are nested;
    * every line begins with four blanks for every brace that is open in front of it, one less if it
      begins with a closing brace. -/
theorem generate_laid_out (c : Catalog) (p : Protocol) (document : String)
    (h : (c.generate p).2 = .ok document) :
    document.toList = (Text.lines document.toList).flatMap (· ++ ['\n']) ∧
    (Text.lines document.toList).length = 3 + height p c.bufferKinds c.externs ∧
    Text.lines (Text.bare document.toList) = (Text.lines document.toList).map Text.bare ∧
    Text.nest [] (Text.bare document.toList) = some [] ∧
    ∀ before line after, Text.lines (Text.bare document.toList) = before ++ line :: after →
      ∃ stack, Text.nest [] (before.flatMap (· ++ ['\n'])) = some stack ∧ Text.Fits stack line := by
  obtain ⟨ctx, entries, rfl, hkinds, hentries, rfl⟩ := Catalog.entries_of_generate h
  have hsolid := solid_code hentries 0
  have hlines := Line.lines_join hsolid
  have hlaid : Text.Laid [] (Text.lines (text entries).toList) [] := by
    rw [text, hlines]
    exact nested_code hentries []
  have htext : (Text.lines (text entries).toList).flatMap (· ++ ['\n']) = (text entries).toList :=
    Line.flatMap_lines_join hsolid
  have hbare : Text.lines (Text.bare (text entries).toList) =
      (Text.lines (text entries).toList).map Text.bare := by
    have hb := hlaid.lines_bare (Text.newline_not_mem_lines _)
    rwa [htext] at hb
  refine ⟨htext.symm, ?_, hbare, ?_, fun before line after e => ?_⟩
  · rw [text, hlines, List.length_map, ← hkinds]
    exact size_document hentries
  · rw [← htext, hlaid.bare_flatMap]
    exact hlaid.nest_bare
  · rw [hbare] at e
    exact hlaid.fits e

/-- A protocol whose keys hold quotes, brackets, a backslash and a line feed. -/
def sampleProtocol : Protocol :=
  { instanceKey := "it\x27s \x7b[(\\", constructorKey := "\x7d)\x27\n    \x7d" }

theorem laid_out_sample : ∃ document : String,
    (Catalog.generate ⟨sampleExterns "Native.Text" .i64 .void, BufferKind.standard⟩
      sampleProtocol).2 = .ok document ∧
    (Text.lines document.toList).length = 43 ∧
    Text.nest [] (Text.bare document.toList) = some [] := by
  obtain ⟨document, h⟩ := exists_of_isOk (by decide +kernel :
    (Catalog.generate ⟨sampleExterns "Native.Text" .i64 .void, BufferKind.standard⟩
      sampleProtocol).2.isOk = true)
  obtain ⟨-, hlength, -, hnest, -⟩ := generate_laid_out _ _ document h
  exact ⟨document, h, hlength.trans (by decide), hnest⟩

end Document

end HostGlue
