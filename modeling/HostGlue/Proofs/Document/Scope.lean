import HostGlue.Proofs.Document.Reading
import HostGlue.Proofs.Entry.Scope
import HostGlue.Proofs.Text.Brackets

/-!
# Whether a document calls the host functions it means

A protocol names the host functions that decode texts and make indirect calls, and a catalog names the
constructors of views. All of these names are written into functions that bind names of their own. This
file says exactly when none of them is taken:

* `generate_host_calls_free_iff`: the root of the decoder and that of the function behind trampolines
  have to be names that can be bound, and none of the variables of the entries that call them. No check
  asks for that, and a decoder named `context` is called before the variable of that name has a value
  (`decoder_captured`);
* `generate_views_free_iff`: no kind of view may have the name of a parameter or a variable of the
  initializer, or of a parameter of the builder. No check asks for that either, and a kind named
  `pointer` is built with a number (`view_captured`).
-/

namespace HostGlue

open Script (Stmt Expr)
open Entry.Ordinary (decoding)
open Entry.Initializer (caseLine)

namespace Document

/-! ## 1. Lines of call sites -/

/-- **The line of a call site is a line of the document.** -/
theorem line_of_site {ctx : Context} {es : List Extern} {entries : List (Entry ctx)}
    (h : Entries ctx es entries) {entry : Entry ctx} (hentry : entry ∈ entries) {s : Script.CallSite}
    (hs : s ∈ entry.property.sites) :
    ∃ d, Text.indented d s.line.toList ∈ Text.lines (text entries).toList := by
  obtain ⟨front, back, rfl⟩ := List.append_of_mem hentry
  obtain ⟨d, hline⟩ := Script.Property.line_of_site hs 1
  refine ⟨d, ?_⟩
  have hlines : ⟨d, s.line⟩ ∈ entryLines (front ++ entry :: back) 1 := by
    rw [entryLines, List.map_append, Code.bodyLines_append, List.map_cons]
    have hfirst := Code.bodyLines_append 1 [entry.code] (back.map Entry.code)
    rw [List.singleton_append] at hfirst
    rw [hfirst]
    exact List.mem_append_right _ (List.mem_append_left _ hline)
  have hdocument : ⟨d, s.line⟩ ∈ Code.bodyLines 0 (code (front ++ entry :: back)) := by
    rw [bodyLines_code]
    exact List.mem_cons_of_mem _ (List.mem_append_left _ (List.mem_cons_of_mem _ hlines))
  rw [text, Line.lines_join (solid_code h 0)]
  exact List.mem_map_of_mem hdocument

/-! ## 2. Host functions of the protocol -/

/-- **When the host functions of a protocol are called as such.** In every document, the decoder is what
    is called in the lines that decode a parameter, and the function behind trampolines is what is called
    in trampolines; every call stands on a line of the document, where it is written so. All these calls
    go to the host exactly if

    * in every ordinary entry with a text parameter, the root of the decoder is neither a reserved word
      nor a variable of the entry;
    * in the initializer, the root of the function behind trampolines is neither a reserved word nor a
      variable.

    Parameters, what is caught, and the arguments of trampolines never stand in the way. -/
theorem generate_host_calls_free_iff (c : Catalog) (p : Protocol) (document : String)
    (h : (c.generate p).2 = .ok document) :
    ∃ (ctx : Context) (entries : List (Entry ctx)), ctx.protocol = p ∧
      Entries ctx c.externs entries ∧ document = text entries ∧
      (∀ entry ∈ entries, ∀ s ∈ entry.property.sites,
        ∃ d, Text.indented d s.line.toList ∈ Text.lines document.toList) ∧
      (∀ entry ∈ entries,
        (∀ s ∈ entry.property.sitesIn Stmt.setsVariable, s.callee = .ofPath p.stringDecoder ∧
          ∃ x, s.line = x ++ " = " ++ p.stringDecoder ++ "(" ++ x ++ ");") ∧
        ∀ s ∈ entry.property.sitesIn Stmt.declaresLambda, s.callee = .ofPath p.dynCall ∧
          ∃ x args rest, s.line = "var " ++ x ++ " = function (" ++ ", ".intercalate args ++
            ") \x7b return " ++ p.dynCall ++ "(" ++ rest) ∧
      ((∀ entry ∈ entries, ∀ s ∈ entry.property.sitesIn Stmt.setsVariable ++
          entry.property.sitesIn Stmt.declaresLambda, s.Free) ↔
        ∀ e ∈ c.externs,
          (e.name ≠ p.initializeEntry → (∃ q ∈ e.params, q.ty.isString = true) →
            Ident.rootSegment p.stringDecoder ∉ Ident.reservedWords ∧
              Ident.rootSegment p.stringDecoder ∉ Entry.Ordinary.locals e.result) ∧
          (e.name = p.initializeEntry →
            Ident.rootSegment p.dynCall ∉ Ident.reservedWords ∧
              Ident.rootSegment p.dynCall ∉ Ident.initializerLocals)) := by
  obtain ⟨ctx, entries, rfl, -, hentries, rfl⟩ := Catalog.entries_of_generate h
  refine ⟨ctx, entries, rfl, hentries, rfl, fun entry hentry s => line_of_site hentries hentry,
    fun entry hentry => ?_, ?_⟩
  · obtain ⟨e, -, hof⟩ := Entries.exists_extern hentries hentry
    exact Entry.host_callees hof
  · exact Entries.forall_iff hentries fun e entry => Entry.host_calls_free_iff

/-- A catalog with an initializer and a setter, whose last view is of some name. -/
def sampleCatalog (view : String) : Catalog :=
  ⟨sampleExterns "Native.Text" .i64 .void, BufferKind.standard ++ [⟨8, view⟩]⟩

/-- A protocol whose host functions are members of two modules keeps them out of reach. -/
theorem host_calls_free_sample : ∃ (document : String) (ctx : Context) (entries : List (Entry ctx)),
    ((sampleCatalog "BigInt64Array").generate
      { stringDecoder := "Texts.decode", dynCall := "Calls.indirect" }).2 = .ok document ∧
    document = text entries ∧
    ∀ entry ∈ entries, ∀ s ∈ entry.property.sitesIn Stmt.setsVariable ++
      entry.property.sitesIn Stmt.declaresLambda, s.Free := by
  obtain ⟨document, h⟩ := exists_of_isOk (by decide +kernel :
    ((sampleCatalog "BigInt64Array").generate
      { stringDecoder := "Texts.decode", dynCall := "Calls.indirect" }).2.isOk = true)
  obtain ⟨ctx, entries, -, -, htext, -, -, hfree⟩ := generate_host_calls_free_iff _ _ document h
  exact ⟨document, ctx, entries, h, htext, hfree.mpr (by decide)⟩

/-- **A decoder named like a variable is taken**: with `context` as the decoder, a document is
    generated for a setter of a text, and in the line `key = context(key);` of the document the decoder
    is the variable of the entry, which has no value yet. -/
theorem decoder_captured : ∃ (document : String) (ctx : Context) (entries : List (Entry ctx)),
    ((sampleCatalog "BigInt64Array").generate { stringDecoder := "context" }).2 = .ok document ∧
    document = text entries ∧
    ∃ entry ∈ entries, ∃ s ∈ entry.property.sitesIn Stmt.setsVariable,
      s.callee = .name "context" ∧ "context" ∈ s.bound ∧ s.line = "key = context(key);" ∧
      ∃ d, Text.indented d s.line.toList ∈ Text.lines document.toList := by
  obtain ⟨document, h⟩ := exists_of_isOk (by decide +kernel :
    ((sampleCatalog "BigInt64Array").generate { stringDecoder := "context" }).2.isOk = true)
  obtain ⟨ctx, entries, hp, -, hentries, htext⟩ := Catalog.entries_of_generate h
  obtain ⟨entry, hentry, hof⟩ := Entries.exists_entry hentries
    (List.mem_cons_of_mem _ List.mem_cons_self)
  refine ⟨document, ctx, entries, h, htext, entry, hentry, ?_⟩
  rcases Entry.of_eq_ok hof with ⟨-, o, hsource, rfl⟩ | ⟨hname, -⟩
  · have hsite : Entry.Ordinary.decodeSite ctx o.property.scope ⟨"key", .plain .string, .input⟩ ∈
        o.property.sitesIn Stmt.setsVariable := by
      rw [o.sites_decode, hsource]
      exact List.mem_cons_self
    have hline : decoding ctx.protocol.stringDecoder "key" = "key = context(key);" := by
      rw [hp]
      decide
    have hbound : "context" ∈ o.property.scope := by
      rw [o.scope_property]
      exact List.mem_append_right _ List.mem_cons_self
    have hcallee : Expr.ofPath ctx.protocol.stringDecoder = .name "context" := by
      rw [hp]
      rfl
    rw [htext]
    exact ⟨_, hsite, hcallee, hbound, hline,
      line_of_site hentries hentry (Script.Property.mem_sites hsite)⟩
  · rw [hp] at hname
    exact absurd hname (by decide)

/-! ## 3. Constructors of views -/

/-- **When views are built with the constructors of the host.** In every document, what the initializer
    calls in its cases are the names of the kinds of views, one for each kind and on a line of its own,
    which is one of the document. All these calls go to the host exactly if no kind has the name of a
    parameter of the initializer, of one of its variables, or of a parameter of the builder. -/
theorem generate_views_free_iff (c : Catalog) (p : Protocol) (document : String)
    (h : (c.generate p).2 = .ok document) :
    ∃ (ctx : Context) (entries : List (Entry ctx)), ctx.protocol = p ∧
      document = text entries ∧
      List.Forall₂ (fun e entry => Entry.of ctx e = .ok entry ∧
        (entry.property.sitesIn Stmt.chooses).map (fun s => (s.callee, s.line)) =
          if e.name = p.initializeEntry then
            c.bufferKinds.map fun k => (.name k.name, "case " ++ Digits.ofInt k.code.toInt ++
              ": return new " ++ k.name ++ "(buffer, pointer, length);")
          else [])
        c.externs entries ∧
      (∀ entry ∈ entries, ∀ s ∈ entry.property.sites,
        ∃ d, Text.indented d s.line.toList ∈ Text.lines document.toList) ∧
      ((∀ entry ∈ entries, ∀ s ∈ entry.property.sitesIn Stmt.chooses, s.Free) ↔
        ∀ e ∈ c.externs, e.name = p.initializeEntry → ∀ k ∈ c.bufferKinds,
          k.name ∉ e.params.map (·.name) ∧ k.name ∉ Ident.initializerLocals ∧
            k.name ∉ Entry.Initializer.builderParams) := by
  obtain ⟨ctx, entries, rfl, hkinds, hentries, rfl⟩ := Catalog.entries_of_generate h
  refine ⟨ctx, entries, rfl, rfl, ?_, fun entry hentry s => line_of_site hentries hentry, ?_⟩
  · rw [← hkinds]
    exact List.Forall₂.imp (fun _ _ hof => ⟨hof, Entry.view_callees hof⟩) hentries
  · rw [← hkinds]
    exact Entries.forall_iff hentries fun e entry => Entry.views_free_iff

theorem views_free_sample : ∃ (document : String) (ctx : Context) (entries : List (Entry ctx)),
    ((sampleCatalog "BigInt64Array").generate {}).2 = .ok document ∧
    document = text entries ∧
    ∀ entry ∈ entries, ∀ s ∈ entry.property.sitesIn Stmt.chooses, s.Free := by
  obtain ⟨document, h⟩ := exists_of_isOk (by decide +kernel :
    ((sampleCatalog "BigInt64Array").generate {}).2.isOk = true)
  obtain ⟨ctx, entries, -, htext, -, -, hfree⟩ := generate_views_free_iff _ _ document h
  exact ⟨document, ctx, entries, h, htext, hfree.mpr (by decide)⟩

/-- **A kind of view named like a parameter of the builder is taken**: with a kind named `pointer`, a
    document is generated, and in the line of that kind the constructor is the address of the view. -/
theorem view_captured : ∃ (document : String) (ctx : Context) (entries : List (Entry ctx)),
    ((sampleCatalog "pointer").generate {}).2 = .ok document ∧
    document = text entries ∧
    ∃ entry ∈ entries, ∃ s ∈ entry.property.sitesIn Stmt.chooses,
      s.callee = .name "pointer" ∧ "pointer" ∈ s.bound ∧
      s.line = "case 8: return new pointer(buffer, pointer, length);" ∧
      ∃ d, Text.indented d s.line.toList ∈ Text.lines document.toList := by
  obtain ⟨document, h⟩ := exists_of_isOk (by decide +kernel :
    ((sampleCatalog "pointer").generate {}).2.isOk = true)
  obtain ⟨ctx, entries, hp, hkinds, hentries, htext⟩ := Catalog.entries_of_generate h
  obtain ⟨entry, hentry, hof⟩ := Entries.exists_entry hentries List.mem_cons_self
  refine ⟨document, ctx, entries, h, htext, entry, hentry, ?_⟩
  rcases Entry.of_eq_ok hof with ⟨hname, -⟩ | ⟨-, i, -, -, rfl⟩
  · rw [hp] at hname
    exact absurd rfl hname
  · have hkind : ⟨8, "pointer"⟩ ∈ ctx.kinds := by
      rw [hkinds]
      exact List.mem_append_right _ List.mem_cons_self
    have hsite : Entry.Initializer.viewSite ctx.kinds (i.property ctx).scope ⟨8, "pointer"⟩ ∈
        (i.property ctx).sitesIn Stmt.chooses := by
      rw [i.sites_view]
      exact List.mem_map_of_mem hkind
    have hline : caseLine (Digits.ofInt (8 : Int32).toInt) "pointer" =
        "case 8: return new pointer(buffer, pointer, length);" := by decide +kernel
    rw [htext]
    exact ⟨_, hsite, rfl, List.mem_append_left _ List.mem_cons_self, hline,
      line_of_site hentries hentry (Script.Property.mem_sites hsite)⟩

end Document

end HostGlue
