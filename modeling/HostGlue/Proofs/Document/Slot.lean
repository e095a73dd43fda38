import HostGlue.Proofs.Document.Layout
import HostGlue.Proofs.Script.Assignments

/-!
# Who writes the slot of the instance

The live instance is held by the host object under a key. This file shows that a document writes there
at one place, behind the construction of the instance:

* `hostText`, how the value under a key is spelled, whatever the key is, and that different keys are
  spelled differently (`hostText_inj`);
* `Entry.stores`, the lines of the entry of an extern that store something without declaring it:
  decodings in an ordinary entry, the slot of the instance in the initializer;
* **`generate_slot`: these are all assignments of a document**, in order, apart from declarations. So
  the slot is written once if there is an initializer, and not at all otherwise.
-/

namespace HostGlue

open Script (Assigning LineStores Stmt declaring storing written)

/-! ## 1. The slot -/

/-- The value the host object holds under a key, as it is written. -/
def hostText (key : String) : String := "Module[" ++ Text.Quoted.encode key ++ "]"

/-- The line that stores the instance. -/
def slotText (p : Protocol) : String :=
  hostText p.instanceKey ++ " = new ctr(arrayBuilder, ch, oac, orc);"

/-- The line that reads the constructor. -/
def constructorText (p : Protocol) : String := "var ctr = " ++ hostText p.constructorKey ++ ";"

/-- The line that decodes a text parameter. -/
def decodeText (p : Protocol) (q : Param) : String :=
  q.name ++ " = " ++ p.stringDecoder ++ "(" ++ q.name ++ ");"

theorem slotText_leads (p : Protocol) : ∃ rest, (slotText p).toList = 'M' :: rest := by
  have hmodule : "Module[".toList = 'M' :: "odule[".toList := by decide
  simp only [slotText, hostText, String.toList_append, hmodule, List.cons_append]
  exact ⟨_, rfl⟩

theorem solid_slotText (p : Protocol) : Text.Solid (slotText p).toList :=
  Script.solid_append (Script.solid_append (Script.solid_append
    (Text.Solid.cons (by decide) (by decide) (by decide))
    (Script.newline_not_mem_encode p.instanceKey)) (by decide)) (by decide)

/-- The line that stores the instance is no declaration. -/
theorem storing_slotText (p : Protocol) : storing (written ⟨2, slotText p⟩) = true := by
  have hslot : slotText p = hostText p.instanceKey ++ " = " ++
      "new ctr(arrayBuilder, ch, oac, orc);" := by
    rw [slotText, String.append_assoc]
    rfl
  have hplace : Text.Silent (hostText p.instanceKey).toList :=
    Script.silent_append (Script.silent_append (Script.silent_plain (by decide))
      (Text.Silent.encode p.instanceKey)) (Script.silent_plain (by decide))
  have hundeclared : "var ".toList.isPrefixOf (slotText p).toList = false := by
    obtain ⟨rest, hrest⟩ := slotText_leads p
    rw [hrest]
    rfl
  have hsolid := solid_slotText p
  rw [hslot] at hundeclared hsolid ⊢
  have hstores := LineStores.stores (d := 2) hplace (Script.silent_plain (by decide)) hundeclared .nil
  have hstored := (hstores.assigning (List.forall_mem_singleton.mpr hsolid)).stored
  exact List.filter_eq_self.mp hstored _ (List.mem_singleton_self _)

/-- **Different keys stay different** when they are written. -/
theorem hostText_inj {a b : String} (h : hostText a = hostText b) : a = b := by
  rw [hostText, hostText, String.append_assoc, String.append_assoc] at h
  exact (Text.Quoted.encode_read ((String.append_right_inj "Module[").mp h)).1

namespace Entry

variable {ctx : Context} {e : Extern} {entry : Entry ctx}

/-- The lines of an entry that store something without declaring it, as they stand in a document. -/
def stores (p : Protocol) (e : Extern) : List Line :=
  if e.name = p.initializeEntry then [⟨2, slotText p⟩]
  else (e.params.filter (·.ty.isString)).map fun q => ⟨3, decodeText p q⟩

/-! ## 2. Ordinary entries -/

namespace Ordinary

theorem storeText_decode (ctx : Context) (q : Param) :
    Script.storeText (.name q.name) (.call (.ofPath ctx.protocol.stringDecoder) [.name q.name]) =
      decodeText ctx.protocol q := by
  have hargs : Script.commaList (Script.Expr.spellings [.name q.name]) = q.name :=
    String.intercalate_singleton
  rw [Script.storeText, Script.Expr.spell, Script.Expr.spell, hargs, Script.Expr.spell_ofPath,
    decodeText]
  simp only [String.append_assoc]
  rfl

/-- A parameter is no reserved word, so its decoding does not look like a declaration. -/
theorem decode_not_declared {o : Ordinary ctx} {q : Param} (hq : q ∈ o.source.params) :
    Stmt.looksDeclared (decodeParam ctx q) = false := by
  obtain ⟨status, others, h⟩ := o.shape
  have hbind := h.bound.params q.name (List.mem_map_of_mem hq)
  have hvar : q.name ≠ "var" := by
    intro e
    have hreserved := hbind.notReserved
    rw [e] at hreserved
    exact absurd hreserved (by decide)
  rw [decodeParam, Stmt.looksDeclared, storeText_decode, Bool.eq_false_iff]
  intro hprefix
  obtain ⟨rest, hrest⟩ := List.isPrefixOf_iff_prefix.mp hprefix
  have hspelled : (decodeText ctx.protocol q).toList = q.name.toList ++ ' ' :: ('=' :: ' ' ::
      (ctx.protocol.stringDecoder ++ "(" ++ q.name ++ ");").toList) := by
    simp only [decodeText, String.toList_append, List.append_assoc]
    rfl
  have hparts := ((Ident.spellsIdentifier_iff q.name.toList).mp hbind.identifier).2
  rw [hspelled] at hrest
  obtain ⟨hname, -, -⟩ := @Text.append_cons_inj Char (fun d => Ident.isPart d = true) ' ' ' '
    (by decide) (by decide) "var".toList _ _ _ (List.all_eq_true.mp (by decide)) hparts hrest
  exact hvar (String.toList_injective hname.symm)

/-- An ordinary entry stores the texts it decodes. -/
theorem stores_code (o : Ordinary ctx) :
    LineStores (o.property.code.lines 1)
      ((o.source.params.filter (·.ty.isString)).map fun q => ⟨3, decodeText ctx.protocol q⟩) := by
  have hlooks : Stmt.lacksAll Stmt.looksDeclared o.behindDecoding = true := by
    unfold behindDecoding behindContext returnAnswer
    split <;> rfl
  have hbehind : Stmt.allStores 3 o.behindDecoding = [] := by
    unfold behindDecoding behindContext returnAnswer
    split <;> rfl
  have hdecodes : ∀ ps : List Param, Stmt.allStores 3 (ps.map (decodeParam ctx)) =
      ps.map fun q => ⟨3, decodeText ctx.protocol q⟩ := by
    intro ps
    induction ps with
    | nil => rfl
    | cons q ps ih =>
      rw [List.map_cons, Stmt.allStores, ih, decodeParam, Stmt.stores, storeText_decode]
      rfl
  have hbody : Stmt.allStores 2 o.property.body = Stmt.allStores 3 o.tryBody := by
    show (Stmt.allStores 3 o.tryBody ++ Stmt.allStores 3 o.catchBody) ++ [] = _
    rw [List.append_nil]
    exact List.append_nil _
  have h := o.property.stores_code o.named_property
    (o.lacks_property (fun q hq => decode_not_declared hq) hlooks rfl) 1
  rwa [hbody, tryBody_decodes, Stmt.allStores_append, hbehind, List.append_nil, hdecodes] at h

end Ordinary

/-! ## 3. The initializer -/

namespace Initializer

variable {i : Initializer}

theorem storeText_slot (ctx : Context) :
    Script.storeText (instanceSlot ctx.protocol) (.construct (.name "ctr")
      (Script.Expr.names ("arrayBuilder" :: trampolineNames))) = slotText ctx.protocol := by
  have hslot : (instanceSlot ctx.protocol).spell = hostText ctx.protocol.instanceKey := by
    rw [instanceSlot, hostItem, Script.Expr.spell, Script.Expr.spell, Script.Expr.spell, hostText]
    rfl
  rw [Script.storeText, hslot, slotText]
  simp only [String.append_assoc]
  rfl

/-- Behind the trampolines the constructor is read and the instance stored, and nothing follows. -/
theorem lines_code (i : Initializer) : ∃ before, (i.property ctx).code.lines 1 =
    before ++ [⟨2, constructorText ctx.protocol⟩, ⟨2, slotText ctx.protocol⟩, ⟨1, "\x7d,"⟩] := by
  have hconstructor : "var " ++ "ctr" ++ " = " ++ (constructorSlot ctx.protocol).spell ++ ";" =
      constructorText ctx.protocol := by
    rw [constructorSlot, hostItem, Script.Expr.spell, Script.Expr.spell, Script.Expr.spell,
      constructorText, hostText]
    rfl
  have hconstruction : Code.bodyLines 2 (Stmt.bodyCode (construction ctx)) =
      [⟨2, constructorText ctx.protocol⟩, ⟨2, slotText ctx.protocol⟩] := by
    rw [← hconstructor, ← storeText_slot]
    rfl
  rw [Script.Property.code, Code.lines, lines_body, hconstruction]
  refine ⟨⟨1, openLine ((i.property ctx).name ++ ": " ++ Script.functionHead (i.property ctx).params)⟩ ::
    (Code.bodyLines 2 (declareArrayBuilder ctx.kinds).code ++
      i.trampolines.map (Trampoline.line ctx 2)), ?_⟩
  simp only [List.append_assoc, List.cons_append, List.nil_append]
  rfl

/-- The initializer stores the instance. -/
theorem stores_code (h : Shape ctx i) :
    LineStores ((i.property ctx).code.lines 1) [⟨2, slotText ctx.protocol⟩] := by
  have hslot : Stmt.looksDeclared (.assign (instanceSlot ctx.protocol) (.construct (.name "ctr")
      (Script.Expr.names ("arrayBuilder" :: trampolineNames)))) = false := by
    obtain ⟨rest, hrest⟩ := slotText_leads ctx.protocol
    rw [Stmt.looksDeclared, storeText_slot, hrest]
    rfl
  have hlooks : Stmt.lacksAll Stmt.looksDeclared (construction ctx) = true := by
    have hread : Stmt.looksDeclared (.declare "ctr" (constructorSlot ctx.protocol)) = false := rfl
    rw [construction, Stmt.lacksAll, Stmt.lacksAll, Stmt.lacksAll, Stmt.lacks, Stmt.lacks, hread,
      hslot]
    rfl
  have htramps : ∀ ts : List Trampoline,
      Stmt.allStores 2 (ts.map fun t => .declare t.binding (t.function ctx)) = [] := by
    intro ts
    induction ts with
    | nil => rfl
    | cons t ts ih =>
      rw [List.map_cons, Stmt.allStores, ih]
      rfl
  have hbody : (i.property ctx).body = declareArrayBuilder ctx.kinds ::
      ((i.trampolines.map fun t => Stmt.declare t.binding (t.function ctx)) ++ construction ctx) := rfl
  have hstores : Stmt.allStores 2 (i.property ctx).body = [⟨2, slotText ctx.protocol⟩] := by
    rw [hbody, Stmt.allStores, Stmt.allStores_append, htramps, ← storeText_slot]
    rfl
  have hlacks : Stmt.lacksAll Stmt.looksDeclared (i.property ctx).body = true :=
    Stmt.lacksAll_append _ (lacks_trampolines ctx _ (fun _ _ _ => rfl) i.trampolines) hlooks
  have h := (i.property ctx).stores_code (named_property h) hlacks 1
  rwa [hstores] at h

end Initializer

/-- **What an entry stores**, of whatever kind it is. -/
theorem stores_code (h : Entry.of ctx e = .ok entry) :
    LineStores (entry.code.lines 1) (stores ctx.protocol e) := by
  rcases of_eq_ok h with ⟨hname, o, rfl, rfl⟩ | ⟨hname, i, rfl, hi, rfl⟩
  · rw [stores, if_neg hname]
    exact o.stores_code
  · rw [stores, if_pos hname]
    exact Initializer.stores_code hi

/-- The slot of the instance is stored by the initializer and by no other entry. -/
theorem count_stores (h : Entry.of ctx e = .ok entry) :
    ((stores ctx.protocol e).map written).count (written ⟨2, slotText ctx.protocol⟩) =
      if e.name = ctx.protocol.initializeEntry then 1 else 0 := by
  by_cases hname : e.name = ctx.protocol.initializeEntry
  · rw [stores, if_pos hname, if_pos hname, List.map_singleton, List.count_singleton_self]
  · rw [if_neg hname, List.count_eq_zero]
    intro hm
    obtain ⟨l, hl, hwritten⟩ := List.mem_map.mp hm
    have hsolid : Text.Solid l.content.toList :=
      (Script.Property.solid_code _ (named_property h)) 1 l (by
        rw [Code.bodyLines, Code.bodyLines, List.append_nil]
        exact (stores_code h).mem l hl)
    have hslot : Text.Solid (slotText ctx.protocol).toList := solid_slotText ctx.protocol
    obtain ⟨hdepth, -⟩ := Text.replicate_append_inj hsolid hslot hwritten
    rw [stores, if_neg hname] at hl
    obtain ⟨q, -, rfl⟩ := List.mem_map.mp hl
    cases hdepth

/-- What is known of the lines that an extern has in a document. -/
structure Group (ctx : Context) (e : Extern) (lines : List (List Char)) : Prop where
  own : ∃ t, Document.entryText ctx e = .ok t ∧ lines = Text.lines (Text.indent 4 t).toList
  assigns : Assigning lines ((stores ctx.protocol e).map written)
  constructs : e.name = ctx.protocol.initializeEntry → ∃ before, lines = before ++
    [⟨2, constructorText ctx.protocol⟩, ⟨2, slotText ctx.protocol⟩, ⟨1, "\x7d,"⟩].map written

theorem group (h : Entry.of ctx e = .ok entry) : Group ctx e ((entry.code.lines 1).map written) := by
  have hsolid : ∀ l ∈ entry.code.lines 1, Text.Solid l.content.toList := by
    intro l hl
    refine Script.Property.solid_code _ (named_property h) 1 l ?_
    rw [Code.bodyLines, Code.bodyLines, List.append_nil]
    exact hl
  refine ⟨⟨_, Document.entryText_of_ok h, ?_⟩, (stores_code h).assigning hsolid, fun hname => ?_⟩
  · have hindent : Line.join (entry.code.lines 1) =
        Text.indent 4 (Line.join (entry.code.lines 0)) := join_lines_code h 1
    rw [← hindent, Line.lines_join hsolid]
    rfl
  · rcases of_eq_ok h with ⟨hother, -⟩ | ⟨-, i, -, -, rfl⟩
    · exact absurd hname hother
    · obtain ⟨before, hlines⟩ := @Initializer.lines_code ctx i
      rw [code, property, hlines, List.map_append]
      exact ⟨_, rfl⟩

end Entry

/-! ## 4. Documents -/

namespace Document

variable {ctx : Context} {es : List Extern} {entries : List (Entry ctx)}

theorem groups (h : Entries ctx es entries) :
    List.Forall₂ (Entry.Group ctx) es (entries.map fun entry => (entry.code.lines 1).map written) := by
  induction h with
  | nil => exact .nil
  | cons hof _ ih => exact .cons (Entry.group hof) ih

theorem flatten_groups : ∀ entries : List (Entry ctx),
    (entries.map fun entry => (entry.code.lines 1).map written).flatten =
      (entryLines entries 1).map written
  | [] => rfl
  | entry :: entries => by
      have ih := flatten_groups entries
      rw [List.map_cons, List.flatten_cons, ih, ← List.map_append]
      rfl

/-- Groups of lines assign what each of them does. -/
theorem assigning_flatten {groups : List (List (List Char))}
    (h : List.Forall₂ (Entry.Group ctx) es groups) :
    Assigning groups.flatten (es.flatMap fun e => (Entry.stores ctx.protocol e).map written) := by
  induction h with
  | nil => exact ⟨List.forall_mem_nil _, List.forall_mem_nil _, rfl⟩
  | cons hgroup _ ih => exact hgroup.assigns.append ih

/-- Names that are pairwise different have at most one initializer among them. -/
theorem count_flatMap (h : Entries ctx es entries) (hn : (es.map (·.name)).Nodup) :
    (es.flatMap fun e => (Entry.stores ctx.protocol e).map written).count
        (written ⟨2, slotText ctx.protocol⟩) =
      if ctx.protocol.initializeEntry ∈ es.map (·.name) then 1 else 0 := by
  induction h with
  | nil => rfl
  | @cons e entry es entries hof _ ih =>
    rw [List.map_cons, List.nodup_cons] at hn
    rw [List.flatMap_cons, List.count_append, Entry.count_stores hof, ih hn.2, List.map_cons]
    by_cases hname : e.name = ctx.protocol.initializeEntry
    · have hothers : ctx.protocol.initializeEntry ∉ es.map (·.name) := hname ▸ hn.1
      rw [if_pos hname, if_neg hothers, if_pos (hname ▸ List.mem_cons_self)]
    · have hmem : ctx.protocol.initializeEntry ∈ e.name :: es.map (·.name) ↔
          ctx.protocol.initializeEntry ∈ es.map (·.name) := by
        rw [List.mem_cons]
        exact or_iff_right (Ne.symm hname)
      rw [if_neg hname, Nat.zero_add]
      exact (if_congr hmem rfl rfl).symm

/-- **The slot of the instance is written by the initializer only.** The lines of a document are its
    frame and those of its entries, in order, and no assignment goes beyond its line:

    * no line has two, and one that begins as a declaration gives its own variable a value;
    * all others decode a text parameter of their entry, in place, or store the instance;
    * the instance is stored on one line if there is an initializer, behind the line that reads the
      constructor, and on none otherwise. The slot is never spelled as that of the constructor. -/
theorem generate_slot (c : Catalog) (p : Protocol) (document : String)
    (h : (c.generate p).2 = .ok document) :
    ∃ (ctx : Context) (groups : List (List (List Char))), ctx.protocol = p ∧
      ctx.kinds = c.bufferKinds ∧ List.Forall₂ (Entry.Group ctx) c.externs groups ∧
      Text.lines document.toList = banner.toList :: (openLine registration).toList :: groups.flatten ++
        [(closeLine registrationEnd).toList] ∧
      Text.lines (Text.bare document.toList) = (Text.lines document.toList).map Text.bare ∧
      Assigning (Text.lines document.toList)
        (c.externs.flatMap fun e => (Entry.stores p e).map written) ∧
      (Text.lines document.toList).count (written ⟨2, slotText p⟩) =
        (if p.initializeEntry ∈ c.externs.map (·.name) then 1 else 0) ∧
      hostText p.instanceKey ≠ hostText p.constructorKey := by
  have hnodup := Catalog.nodup_of_generate h
  obtain ⟨-, -, hbare, -⟩ := generate_laid_out c p document h
  obtain ⟨ctx, entries, rfl, hkinds, hentries, rfl⟩ := Catalog.entries_of_generate h
  have hgroups := groups hentries
  have hlines : Text.lines (text entries).toList =
      banner.toList :: (openLine registration).toList ::
        (entries.map fun entry => (entry.code.lines 1).map written).flatten ++
          [(closeLine registrationEnd).toList] := by
    rw [text, Line.lines_join (solid_code hentries 0), bodyLines_code, flatten_groups]
    simp only [List.map_cons, List.map_append, List.map_nil, List.cons_append]
    rfl
  -- The frame of a document assigns nothing.
  have hframe : ∀ content : String, Text.Silent content.toList → Text.Solid content.toList →
      Assigning [content.toList] [] := fun content hsilent hsolid =>
    LineStores.assigning (.silent (l := ⟨0, content⟩) hsilent .nil) (List.forall_mem_singleton.mpr hsolid)
  have hassigning : Assigning (Text.lines (text entries).toList)
      (c.externs.flatMap fun e => (Entry.stores ctx.protocol e).map written) := by
    have hopen := (hframe banner
      (Script.silent_plain (by decide)) ⟨⟨'/', _, rfl, by decide⟩, by decide⟩).append
      (hframe (openLine registration) (Script.silent_plain (by decide))
        ⟨⟨'m', _, rfl, by decide⟩, by decide⟩)
    have hclose := hframe (closeLine registrationEnd) (Script.silent_plain (by decide))
      ⟨⟨'\x7d', _, rfl, by decide⟩, by decide⟩
    rw [hlines]
    have h := (hopen.append (assigning_flatten hgroups)).append hclose
    rwa [List.append_nil] at h
  refine ⟨ctx, _, rfl, hkinds, hgroups, hlines, hbare, hassigning, ?_, fun heq => ?_⟩
  · have hstoring := storing_slotText ctx.protocol
    rw [← count_flatMap hentries hnodup, ← hassigning.stored, List.count_filter hstoring]
  · exact ctx.sound.keys_ne (hostText_inj heq)

theorem slot_sample : ∃ document : String,
    (Catalog.generate ⟨sampleExterns "Native.Text" .i64 .void, BufferKind.standard⟩
      sampleProtocol).2 = .ok document ∧
    (Text.lines document.toList).filter storing =
      [written ⟨2, slotText sampleProtocol⟩, written ⟨3, "key = Pointer_stringify(key);"⟩] ∧
    (Text.lines document.toList).count (written ⟨2, slotText sampleProtocol⟩) = 1 := by
  obtain ⟨document, h⟩ := exists_of_isOk (by decide +kernel :
    (Catalog.generate ⟨sampleExterns "Native.Text" .i64 .void, BufferKind.standard⟩
      sampleProtocol).2.isOk = true)
  obtain ⟨ctx, groups, -, -, -, -, -, hassigning, hcount, -⟩ := generate_slot _ _ document h
  exact ⟨document, h, hassigning.stored.trans (by decide +kernel), hcount⟩

end Document

end HostGlue
