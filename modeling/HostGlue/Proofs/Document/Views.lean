import HostGlue.Proofs.Catalog.Codes
import HostGlue.Proofs.Context
import HostGlue.Proofs.Document.Scope
import HostGlue.Proofs.Entry.Parameters
import HostGlue.Proofs.Entry.Recovery

/-!
# The builder of views

The initializer declares a function that builds typed views, with a case for every kind of view of the
catalog. This file follows the codes of the kinds from the text of a catalog to the labels of the cases:

* `Stmt.chosen?`, the first case that fits, and `Stmt.choice_eq`, that it is the one that is returned;
* `Initializer.builderLines`, the lines of a builder, and `Initializer.exec_builder`, what it builds on
  any host that tells integers apart;
* **`Catalog.builder_of_text`: the labels are the literals of the text, no two are the same, and a view
  is built for the codes of the list and no others.**
-/

namespace HostGlue

open Script (Expr Stmt Host Machine Eval Completion)

namespace Script

/-! ## 1. Choices -/

variable {V : Type} {H : Host V}

/-- A host that tells integers apart: an integer fits a label of 32 bits exactly if it is the same. -/
def Host.Strict (H : Host V) : Prop :=
  ∀ (c : Int) (label : Int32), H.fits (H.number c) label.toInt = decide (c = label.toInt)

/-- The expression of the first case that fits. -/
def Stmt.chosen? (H : Host V) (v : V) (cases : List (Int × Expr)) : Option Expr :=
  (cases.find? fun c => H.fits v c.1).map (·.2)

/-- Returns the value of an expression, or goes on if there is none. -/
def Stmt.returnSome (H : Host V) : Option Expr → Eval V (Completion V)
  | some e => (e.eval H).andThen fun w => .just (.returned w.value)
  | none => .just .normal

/-- **A choice returns the first case that fits.** -/
theorem Stmt.choice_eq (v : V) : ∀ cases : List (Int × Expr),
    Stmt.choice H v cases = Stmt.returnSome H (Stmt.chosen? H v cases)
  | [] => rfl
  | (n, e) :: rest => by
      rw [Stmt.choice, Stmt.chosen?, List.find?_cons]
      cases hfits : H.fits v n with
      | true => rfl
      | false => exact Stmt.choice_eq v rest

/-- A body that is a choice on a variable returns the first case that fits its value. -/
theorem Stmt.execAll_choose {m : Machine V} {x : String} {v : V} (h : m.vars x = some v)
    (cases : List (Int × Expr)) :
    Stmt.execAll H [.choose (.name x) cases] m =
      Stmt.returnSome H (Stmt.chosen? H v cases) m := by
  have hchoice : Stmt.exec H (.choose (.name x) cases) m =
      Stmt.returnSome H (Stmt.chosen? H v cases) m := by
    rw [Stmt.exec, Eval.andThen, Expr.eval_name h, ← Stmt.choice_eq]
    rfl
  rw [Stmt.execAll, Eval.andThen, hchoice]
  -- What is returned ends the body, and so does the end of its only statement.
  cases hrun : Stmt.returnSome H (Stmt.chosen? H v cases) m with
  | mk after result =>
    cases result with
    | error thrown => rfl
    | ok c => cases c <;> rfl

end Script

/-! ## 2. The builder -/

namespace Entry.Initializer

/-- The lines of a builder with some rows. -/
def builderLines (d : Nat) (rows : List (String × String)) : List Line :=
  [⟨d, "var arrayBuilder = function (pointer, typeCode, length) \x7b"⟩,
    ⟨d + 1, "switch (typeCode) \x7b"⟩] ++
  rows.map (fun r => ⟨d + 2, caseLine r.1 r.2⟩) ++
  [⟨d + 1, "\x7d"⟩, ⟨d, "\x7d;"⟩]

/-- The construction of a view of a name. -/
def viewOf (name : String) : Expr :=
  .construct (.name name) (Expr.names ["buffer", "pointer", "length"])

/-- The body of a builder. -/
def builderBody (kinds : List BufferKind) : List Stmt :=
  [.choose (.name "typeCode") (kinds.map viewCase)]

/-- **The lines of the builder**, one for every kind in order. -/
theorem lines_builder (kinds : List BufferKind) (d : Nat) :
    Code.bodyLines d (declareArrayBuilder kinds).code = builderLines d (kinds.map row) := by
  have hcases : Code.bodyLines (d + 2) ((kinds.map viewCase).map fun c => .line (Script.caseText c)) =
      (kinds.map row).map fun r => ⟨d + 2, caseLine r.1 r.2⟩ := by
    rw [Code.bodyLines_lines, List.map_map, List.map_map]
    exact List.map_congr_left fun k _ => congrArg (Line.mk (d + 2)) (caseText_viewCase k)
  have hdeclare : openLine ("var " ++ "arrayBuilder" ++ " = " ++
      Script.functionHead ["pointer", "typeCode", "length"]) =
      "var arrayBuilder = function (pointer, typeCode, length) \x7b" := by decide
  have hswitch : openLine ("switch (" ++ (Expr.name "typeCode").spell ++ ")") =
      "switch (typeCode) \x7b" := by decide
  rw [builderLines, ← hcases]
  simp only [declareArrayBuilder, Stmt.code, Stmt.bodyCode, Code.bodyLines, Code.lines, hdeclare,
    hswitch, List.append_nil, List.cons_append, List.nil_append, List.append_assoc]
  rfl

/-- The entry of an initializer begins with its head and the builder. -/
theorem lines_head_builder {ctx : Context} (i : Initializer) (d : Nat) : ∃ rest,
    (i.property ctx).code.lines d =
      ⟨d, i.source.name ++ ": function (" ++ Script.commaList (i.source.params.map (·.name)) ++
        ") \x7b"⟩ :: builderLines (d + 1) (ctx.kinds.map row) ++ rest := by
  rw [Script.Property.code, Code.lines, lines_body, lines_builder, Ordinary.openLine_property,
    List.cons_append, List.append_assoc]
  exact ⟨_, rfl⟩

/-- The name of the first kind of view with a code. -/
def viewName? (kinds : List BufferKind) (code : Int) : Option String :=
  (kinds.find? fun k => code = k.code.toInt).map (·.name)

/-- **Where codes differ, a code and a name belong together exactly if they are of one kind.** -/
theorem viewName?_eq_some_iff (code : Int) (name : String) : ∀ {kinds : List BufferKind},
    (kinds.map (·.code)).Nodup →
    (viewName? kinds code = some name ↔ ∃ k ∈ kinds, k.code.toInt = code ∧ k.name = name)
  | [], _ => by simp [viewName?]
  | k :: ks, h => by
      obtain ⟨hk, hks⟩ := List.nodup_cons.mp h
      have ih := viewName?_eq_some_iff code name hks
      rw [viewName?] at ih
      rw [viewName?, List.find?_cons, List.exists_mem_cons_iff]
      by_cases hcode : code = k.code.toInt
      · -- No kind behind the first one has its code.
        have hothers : ¬∃ j ∈ ks, j.code.toInt = code ∧ j.name = name := by
          rintro ⟨j, hj, hsame, -⟩
          exact hk (List.mem_map.mpr ⟨j, hj, Int32.toInt_inj.mp (hsame.trans hcode)⟩)
        rw [decide_eq_true hcode, or_iff_left hothers, and_iff_right hcode.symm]
        exact Option.some_inj
      · rw [decide_eq_false hcode, or_iff_right fun hfirst => hcode hfirst.1.symm]
        exact ih

/-- **What a builder builds** for an integer: a view of the kind that has it as its code, and nothing if
    there is none. -/
theorem exec_builderBody {V : Type} {H : Host V} (hH : H.Strict) (kinds : List BufferKind)
    {m : Machine V} {code : Int} (hm : m.vars "typeCode" = some (H.number code)) :
    Stmt.execAll H (builderBody kinds) m =
      Stmt.returnSome H ((viewName? kinds code).map viewOf) m := by
  have hcase : (fun k : BufferKind => H.fits (H.number code) (viewCase k).1) =
      fun k => decide (code = k.code.toInt) := funext fun k => hH code k.code
  rw [builderBody, Stmt.execAll_choose hm, Stmt.chosen?, List.find?_map, Option.map_map, viewName?,
    Option.map_map, ← hcase]
  rfl

end Entry.Initializer

/-! ## 3. Documents -/

open Entry.Initializer (row builderLines builderBody builderParams viewName? viewOf)

namespace Catalog

variable {c : Catalog} {p : Protocol} {document : String}

theorem nodup_codes_of_generate (h : (c.generate p).2 = .ok document) :
    (c.bufferKinds.map (·.code)).Nodup := by
  obtain ⟨ctx, -, -, hkinds, -, -⟩ := entries_of_generate h
  rw [← hkinds]
  exact ctx.acceptable.distinct

/-- **A document with an initializer has a builder behind the head of that entry**, with a row for every
    kind of view. -/
theorem builder_of_generate (h : (c.generate p).2 = .ok document)
    (hentry : p.initializeEntry ∈ c.externs.map (·.name)) :
    ∃ e ∈ c.externs, e.name = p.initializeEntry ∧ ∃ before after,
      document = before ++ Line.join
        (⟨1, e.name ++ ": function (" ++ Script.commaList (e.params.map (·.name)) ++ ") \x7b"⟩ ::
          builderLines 2 (c.bufferKinds.map row)) ++ after := by
  obtain ⟨ctx, entries, rfl, hkinds, hentries, rfl⟩ := entries_of_generate h
  obtain ⟨e, he, hname⟩ := List.mem_map.mp hentry
  obtain ⟨entry, hmem, hof⟩ := Document.Entries.exists_entry hentries he
  refine ⟨e, he, hname, ?_⟩
  rcases Entry.of_eq_ok hof with ⟨hne, -⟩ | ⟨-, i, rfl, -, rfl⟩
  · exact absurd hname hne
  · obtain ⟨as, bs, rfl⟩ := List.append_of_mem hmem
    obtain ⟨rest, hlines⟩ := i.lines_head_builder 1
    have hentries : Document.entryLines (as ++ .initializer i :: bs) 1 = Document.entryLines as 1 ++
        ((i.property ctx).code.lines 1 ++ Document.entryLines bs 1) := by
      rw [Document.entryLines, List.map_append, Code.bodyLines_append, List.map_cons, Code.bodyLines]
      rfl
    refine ⟨Document.banner ++ "\n" ++ "mergeInto(LibraryManager.library, \x7b\n" ++
        Line.join (Document.entryLines as 1),
      Line.join rest ++ Line.join (Document.entryLines bs 1) ++ "\x7d);\n", ?_⟩
    rw [Document.text_eq, hentries, Line.join_append, Line.join_append, hlines, Line.join_append, hkinds]
    simp only [String.append_assoc]

/-- The labels of the rows are different, since the codes are. -/
theorem nodup_labels {kinds : List BufferKind} (h : (kinds.map (·.code)).Nodup) :
    ((kinds.map row).map (·.1)).Nodup := by
  have hlabels : (kinds.map row).map (·.1) =
      (kinds.map (·.code)).map fun code => Digits.ofInt code.toInt := by
    rw [List.map_map, List.map_map]
    rfl
  rw [hlabels]
  refine h.map fun code other hsame => ?_
  have hread := (Json.readInt32_eq_ok_iff (Json.spelled_toList_ofInt code.toInt)).mpr
    (congrArg String.toList hsame)
  rw [Json.readInt32_ofInt] at hread
  exact Except.ok.inj hread

/-- How the builder of views in a document belongs to the text of a catalog. -/
structure Builder (text : String) (c : Catalog) (p : Protocol) (document : String) : Prop where
  /-- The entry of the initializer begins with its head and the builder, which has one case for every
      kind of view, in order. -/
  written : ∃ e ∈ c.externs, e.name = p.initializeEntry ∧ ∃ before after,
    document = before ++ Line.join
      (⟨1, e.name ++ ": function (" ++ Script.commaList (e.params.map (·.name)) ++ ") \x7b"⟩ ::
        builderLines 2 (c.bufferKinds.map row)) ++ after
  /-- No two labels are the same. -/
  distinct : ((c.bufferKinds.map row).map (·.1)).Nodup
  /-- These lines are those of a function with a body. -/
  function : Code.bodyLines 2
      (Stmt.declareFunction "arrayBuilder" builderParams (builderBody c.bufferKinds)).code =
    builderLines 2 (c.bufferKinds.map row)
  /-- On every host that tells integers apart, the body constructs and returns a view of the name that
      belongs to a code, whatever the host has under that name, and does nothing if no name does. -/
  runs : ∀ (V : Type) (H : Host V) (m : Machine V) (code : Int), H.Strict →
    m.vars "typeCode" = some (H.number code) →
    Stmt.execAll H (builderBody c.bufferKinds) m =
      Stmt.returnSome H ((viewName? c.bufferKinds code).map viewOf) m
  /-- A code and a name belong together exactly if they are those of one kind. -/
  table : ∀ code name, viewName? c.bufferKinds code = some name ↔
    ∃ k ∈ c.bufferKinds, k.code.toInt = code ∧ k.name = name
  /-- The text has no list of kinds and the rows are the standard ones, or it has one for every kind of
      view and each label is written there, where the code of that kind stands. -/
  labels :
    (c.bufferKinds.map row =
        [("0", "Int8Array"), ("1", "Uint8Array"), ("2", "Int16Array"), ("3", "Uint16Array"),
          ("4", "Int32Array"), ("5", "Uint32Array"), ("6", "Float32Array"), ("7", "Float64Array")] ∧
      ∀ C, Json.Place .catalog C .kinds → ∀ v : Json.Tree, ¬(C v).Spelled text) ∨
    (∃ C items, Json.Place .catalog C .kinds ∧ (C (.array items none)).Spelled text ∧
      items.length = c.bufferKinds.length) ∧
    ∀ i label name, (c.bufferKinds.map row)[i]? = some (label, name) → ∃ before after,
      text = before ++ label ++ after ∧ CodeHole i c.bufferKinds.length before after

/-- **From the literals of a catalog text to the labels of a document.** Where a catalog is read and a
    document with an initializer is made from it, the builder of views constructs a view of a name for a
    code exactly if they belong to one kind, and its labels are the literals of the text, byte for byte.
    In any text of a catalog, another literal may stand for a code exactly if it is one of an integer of
    32 bits. -/
theorem generate_builder :
    (∀ (text : String) (p : Protocol) (c : Catalog) (document : String),
      ofJson text = .ok c → (c.generate p).2 = .ok document →
      p.initializeEntry ∈ c.externs.map (·.name) → Builder text c p document) ∧
    ∀ (i n : Nat) (before given after literal : String) (v v' : Json.Tree) (c : Catalog),
      CodeHole i n before after → v.Spelled given → ofJson (before ++ given ++ after) = .ok c →
      (Json.Token.value v').Spelled literal.toList →
      ((∃ c', ofJson (before ++ literal ++ after) = .ok c') ↔ Json.Int32Literal literal.toList) := by
  refine ⟨fun text p c document hread hgenerate hentry => ?_,
    fun i n before given after literal v v' c hole hv haccepted hliteral =>
      ofJson_code_iff hole hv haccepted hliteral⟩
  have hcodes := nodup_codes_of_generate hgenerate
  refine {
    written := builder_of_generate hgenerate hentry
    distinct := nodup_labels hcodes
    function := Entry.Initializer.lines_builder c.bufferKinds 2
    runs := fun V H m code hH hm => Entry.Initializer.exec_builderBody hH c.bufferKinds hm
    table := fun code name => Entry.Initializer.viewName?_eq_some_iff code name hcodes
    labels := ?_ }
  rcases ofJson_codes hread with ⟨hstandard, hnowhere⟩ | ⟨hlist, hliterals⟩
  · refine .inl ⟨?_, hnowhere⟩
    rw [hstandard]
    decide +kernel
  · refine .inr ⟨hlist, fun i label name hrow => ?_⟩
    rw [List.getElem?_map, Option.map_eq_some_iff] at hrow
    obtain ⟨k, hk, hpair⟩ := hrow
    obtain ⟨rfl, -⟩ := Prod.mk.inj hpair
    exact hliterals i k hk

/-- The text of a catalog with an initializer and two kinds of views. -/
def twoViewsText : String :=
  let callback := "\x7b\"callback\":[[],\"void\"]\x7d"
  "[[[\"InitializeInternal\",\"Raw\",[[\"a\"," ++ callback ++ "],[\"b\"," ++ callback ++ "],[\"c\"," ++
    callback ++ "]],\"void\"]]," ++
    "[\x7b\"name\":\"Int8Array\",\"code\": -2147483648\x7d,[7,\"Uint8Array\"]]]"

/-- The catalog of that text. -/
def twoViews : Catalog :=
  let callback := Ty.callback [] (.plain .void)
  ⟨[⟨"InitializeInternal", "Raw", [⟨"a", callback, .input⟩, ⟨"b", callback, .input⟩,
      ⟨"c", callback, .input⟩], .plain .void⟩],
    [⟨-2147483648, "Int8Array"⟩, ⟨7, "Uint8Array"⟩]⟩

/-- A host whose values are integers tells them apart. -/
theorem strict_sampleHost : Entry.Ordinary.sampleHost.Strict := fun _ _ => rfl

/-- Two views are built for their codes. The least code may be replaced by the greatest one in the text,
    but not by a negative zero. -/
theorem generate_builder_sample : ∃ document before after : String,
    (twoViews.generate {}).2 = .ok document ∧ Builder twoViewsText twoViews {} document ∧
    (∀ m : Machine Int, m.vars "typeCode" = some 7 →
      Stmt.execAll Entry.Ordinary.sampleHost (builderBody twoViews.bufferKinds) m =
        Stmt.returnSome Entry.Ordinary.sampleHost (some (viewOf "Uint8Array")) m) ∧
    twoViewsText = before ++ "-2147483648" ++ after ∧
    (∃ c, ofJson (before ++ "2147483647" ++ after) = .ok c) ∧
    ¬∃ c, ofJson (before ++ "-0" ++ after) = .ok c := by
  have hread : ofJson twoViewsText = .ok twoViews := by decide +kernel
  obtain ⟨document, hgenerate⟩ := Document.exists_of_isOk (by decide +kernel :
    (twoViews.generate {}).2.isOk = true)
  have hbuilder := generate_builder.1 twoViewsText {} twoViews document hread hgenerate (by decide)
  obtain ⟨hstandard, -⟩ | ⟨-, hlabels⟩ := hbuilder.labels
  · exact absurd hstandard (by decide +kernel)
  obtain ⟨before, after, htext, hhole⟩ := hlabels 0 "-2147483648" "Int8Array" (by decide +kernel)
  have hliteral : ∀ k : Int, (Json.Tree.numeral (.ofInt k)).Spelled (Digits.ofInt k) := fun k => by
    have hspelled := (Json.spelled_toList_ofInt k).tree
    rwa [String.ofList_toList] at hspelled
  rw [htext] at hread
  have hiff := fun (v' : Json.Tree) (literal : String) => generate_builder.2 0 2 before "-2147483648"
    after literal _ v' twoViews hhole (hliteral (-2147483648)) hread
  have hzero : (Json.Token.value (.numeral ⟨true, ['0'], none, none⟩)).Spelled "-0".toList :=
    .numeral (.mk (Json.whole_toDigits 0) .none .none)
  refine ⟨document, before, after, hgenerate, hbuilder, fun m hm => ?_, htext, ?_, ?_⟩
  · exact hbuilder.runs Int _ m 7 strict_sampleHost hm
  · exact (hiff _ _ (Json.spelled_toList_ofInt 2147483647)).mpr
      (Json.int32Literal_iff.mpr ⟨2147483647, rfl⟩)
  · rw [hiff _ _ hzero, ← Json.exists_readInt32_iff hzero]
    rintro ⟨k, hk⟩
    cases hk

end Catalog

end HostGlue
