import HostGlue.Proofs.Document.Layout
import HostGlue.Proofs.Script.Literal

/-!
# What a document registers

A document registers the object that its literal evaluates to. This file reads the literal back from the
text of the document:

* `registered?`, the properties of the literal of a document, and `registered_text`, that they are the
  entries of its externs, in order;
* **`generate_registered`: the object has one own property per extern, with its name and its function,
  exactly if no extern is named `__proto__`.** An extern of that name is accepted, and its function
  becomes the prototype of the object (`proto_swallowed`).
-/

namespace HostGlue

open Script (Object readProperties)

/-- A text is the function of an extern: the extern is written, in a document, as its name, a colon, that
    text and a comma. -/
def Entry.IsFunction (ctx : Context) (e : Extern) (function : String) : Prop :=
  ∃ t, Document.entryText ctx e = .ok t ∧
    Text.indent 4 t = "    " ++ e.name ++ ":" ++ function ++ ",\n"

namespace Document

variable {ctx : Context} {es : List Extern} {entries : List (Entry ctx)}

/-! ## 1. The literal of a document -/

/-- What stands in front of the first property. -/
def opening : List Char := (openLine registration).toList

/-- The properties of the object literal a document registers. The first line is a comment. -/
def registered? (document : List Char) : Option (List (String × String)) :=
  let call := (document.dropWhile (· != '\n')).drop 1
  if opening.isPrefixOf call then
    match readProperties .between (call.drop opening.length) with
    | some (properties, rest) => if rest = (registrationEnd ++ "\n").toList then some properties else none
    | none => none
  else none

/-- An entry as a property of the literal. -/
def definition (entry : Entry ctx) : String × String :=
  (entry.property.name, entry.property.functionText 1)

/-- **The entries of externs are read back one after another.** -/
theorem read_entries (h : Entries ctx es entries) (rest : List Char) :
    readProperties .between ((Line.join (entryLines entries 1)).toList ++ '\x7d' :: rest) =
      some (entries.map definition, rest) := by
  induction h with
  | nil =>
    have hempty : (Line.join (entryLines ([] : List (Entry ctx)) 1)).toList = [] := rfl
    rw [hempty, List.nil_append, readProperties, if_neg (by decide), if_pos rfl]
    rfl
  | @cons e entry es entries hof _ ih =>
    have hjoin : Line.join (entryLines (entry :: entries) 1) =
        Line.join (entry.code.lines 1) ++ Line.join (entryLines entries 1) :=
      Line.join_append _ _
    have hread := entry.property.read_code 1 (Entry.named_property hof) (Entry.lacks_startsWithText hof)
      ((Line.join (entryLines entries 1)).toList ++ '\x7d' :: rest)
    rw [ih] at hread
    rw [hjoin, String.toList_append, List.append_assoc]
    exact hread

/-- **A document registers the entries of its externs.** -/
theorem registered_text (h : Entries ctx es entries) :
    registered? (text entries).toList = some (entries.map definition) := by
  have htext : (text entries).toList = banner.toList ++ '\n' :: (opening ++ ('\n' ::
      ((Line.join (entryLines entries 1)).toList ++ '\x7d' :: (registrationEnd ++ "\n").toList))) := by
    rw [text_eq]
    simp only [String.toList_append, List.append_assoc]
    rfl
  have hbanner : ∀ c ∈ banner.toList, (c != '\n') = true :=
    List.all_eq_true.mp (by decide)
  have hcall : ((text entries).toList.dropWhile (· != '\n')).drop 1 = opening ++ ('\n' ::
      ((Line.join (entryLines entries 1)).toList ++ '\x7d' :: (registrationEnd ++ "\n").toList)) := by
    rw [htext, List.dropWhile_append_of_pos hbanner]
    rfl
  have hfeed := Script.read_blanks ['\n'] (List.forall_mem_singleton.mpr (Or.inr rfl))
    ((Line.join (entryLines entries 1)).toList ++ '\x7d' :: (registrationEnd ++ "\n").toList)
  have hprefix : opening.isPrefixOf (opening ++ ('\n' ::
      ((Line.join (entryLines entries 1)).toList ++ '\x7d' :: (registrationEnd ++ "\n").toList))) =
      true := List.isPrefixOf_iff_prefix.mpr (List.prefix_append _ _)
  rw [registered?, hcall, if_pos hprefix, List.drop_left, ← List.singleton_append, hfeed, read_entries h]
  exact if_pos rfl

/-! ## 2. The functions of externs -/

theorem name_property {e : Extern} {entry : Entry ctx} (h : Entry.of ctx e = .ok entry) :
    entry.property.name = e.name := by
  rcases Entry.of_eq_ok h with ⟨-, o, rfl, rfl⟩ | ⟨-, i, rfl, -, rfl⟩ <;> rfl

theorem isFunction_functionText {e : Extern} {entry : Entry ctx} (h : Entry.of ctx e = .ok entry) :
    Entry.IsFunction ctx e (entry.property.functionText 1) := by
  refine ⟨_, entryText_of_ok h, ?_⟩
  have hindent : Line.join (entry.code.lines 1) = Text.indent 4 (Line.join (entry.code.lines 0)) :=
    Entry.join_lines_code h 1
  have hcode := entry.property.join_code 1
  rw [name_property h] at hcode
  exact hindent.symm.trans hcode

/-- A property as the definition of an extern: its name with its function. -/
structure Defines (ctx : Context) (e : Extern) (d : String × String) : Prop where
  name : d.1 = e.name
  function : Entry.IsFunction ctx e d.2

theorem defines (h : Entries ctx es entries) :
    List.Forall₂ (Defines ctx) es (entries.map definition) := by
  induction h with
  | nil => exact .nil
  | cons hof _ ih => exact .cons ⟨name_property hof, isFunction_functionText hof⟩ ih

theorem names_of_defines {ds : List (String × String)} (h : List.Forall₂ (Defines ctx) es ds) :
    ds.map (·.1) = es.map (·.name) := by
  induction h with
  | nil => rfl
  | cons hd _ ih => rw [List.map_cons, List.map_cons, hd.name, ih]

/-! ## 3. Documents -/

/-- **What a document registers.** The names of the literal are those of the externs, in order, and their
    values are the functions of the externs. No name repeats, so nothing is replaced. What the literal
    evaluates to has an own property for each of them but `__proto__`, whose function becomes the
    prototype. So it has one own property per extern exactly if none is named `__proto__`. -/
theorem generate_registered (c : Catalog) (p : Protocol) (document : String)
    (h : (c.generate p).2 = .ok document) :
    ∃ (ctx : Context) (definitions : List (String × String)), ctx.protocol = p ∧
      ctx.kinds = c.bufferKinds ∧
      List.Forall₂ (Defines ctx) c.externs definitions ∧ (c.externs.map (·.name)).Nodup ∧
      registered? document.toList = some definitions ∧
      (Object.evaluate definitions).own = definitions.filter (·.1 ≠ "__proto__") ∧
      (Object.evaluate definitions).proto =
        (definitions.find? (·.1 = "__proto__")).map (·.2) ∧
      ((Object.evaluate definitions).own = definitions ↔ "__proto__" ∉ c.externs.map (·.name)) := by
  have hnodup := Catalog.nodup_of_generate h
  obtain ⟨ctx, entries, rfl, hkinds, hentries, rfl⟩ := Catalog.entries_of_generate h
  have hdefines := defines hentries
  have hnames := names_of_defines hdefines
  rw [← hnames] at hnodup ⊢
  have hevaluate := Object.evaluate_of_nodup hnodup
  refine ⟨ctx, _, rfl, hkinds, hdefines, hnodup, registered_text hentries, ?_, ?_, ?_⟩
  · rw [hevaluate]
    rfl
  · rw [hevaluate]
    rfl
  · rw [hevaluate, List.filter_eq_self, List.mem_map]
    constructor
    · rintro hall ⟨d, hd, hproto⟩
      exact of_decide_eq_true (hall d hd) hproto
    · intro hproto d hd
      exact decide_eq_true fun hkey => hproto ⟨d, hd, hkey⟩

theorem registered_sample : ∃ document : String, ∃ definitions : List (String × String),
    (Catalog.generate ⟨sampleExterns "Native.Text" .i64 .void, BufferKind.standard⟩
      sampleProtocol).2 = .ok document ∧ registered? document.toList = some definitions ∧
    (Object.evaluate definitions).own.map (·.1) = ["InitializeInternal", "setText"] := by
  obtain ⟨document, h⟩ := exists_of_isOk (by decide +kernel :
    (Catalog.generate ⟨sampleExterns "Native.Text" .i64 .void, BufferKind.standard⟩
      sampleProtocol).2.isOk = true)
  obtain ⟨ctx, definitions, -, -, hdefines, -, hregistered, -, -, hiff⟩ := generate_registered _ _ document h
  refine ⟨document, definitions, h, hregistered, ?_⟩
  rw [hiff.mpr (by decide), names_of_defines hdefines]
  rfl

/-- An extern may be named `__proto__`. The document registers no property for it. -/
theorem proto_swallowed : ∃ document : String, ∃ definitions : List (String × String),
    (Catalog.generate ⟨[⟨"__proto__", "Native.Text", [⟨"status", .plain .i32, .output⟩], .plain .i32⟩],
      BufferKind.standard⟩ {}).2 = .ok document ∧ registered? document.toList = some definitions ∧
    definitions.map (·.1) = ["__proto__"] ∧ (Object.evaluate definitions).own = [] := by
  obtain ⟨document, h⟩ := exists_of_isOk (by decide +kernel :
    (Catalog.generate ⟨[⟨"__proto__", "Native.Text", [⟨"status", .plain .i32, .output⟩], .plain .i32⟩],
      BufferKind.standard⟩ {}).2.isOk = true)
  obtain ⟨ctx, entries, -, -, hentries, rfl⟩ := Catalog.entries_of_generate h
  have hnames := names_of_defines (defines hentries)
  have hnodup : ((entries.map definition).map (·.1)).Nodup := by
    rw [hnames]
    decide
  refine ⟨_, _, h, registered_text hentries, hnames, ?_⟩
  rw [Object.evaluate_of_nodup hnodup, List.filter_eq_nil_iff]
  intro d hd
  have hmem : d.1 ∈ (entries.map definition).map (·.1) := List.mem_map_of_mem hd
  rw [hnames] at hmem
  simp [Object.protoKey, List.mem_singleton.mp hmem]

end Document

end HostGlue
