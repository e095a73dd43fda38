import HostGlue.Document
import HostGlue.Proofs.Entry.Emission

/-!
# Documents, extern by extern

A document is made on one writer, with the names that came before, and stops at the first extern that
is refused. This file says what that amounts to for each extern by itself:

* `Document.Accepts`, that the externs of a list are accepted one after another, and
  `Document.Refuses`, that the next one is not; `accepts_or_refuses`, that one of them holds;
* `Document.text`, the text of a document as a tree of code, and what is generated in either case
  (`generate_of_accepts`, `generate_of_refuses`);
* **that the first extern to blame decides** (`generate_first_offence`): the document is the texts
  the externs have by themselves, or there is the error of the first that has none or that repeats a
  name.
-/

namespace HostGlue.Document

variable {ctx : Context}

/-! ## 1. Acceptance in order -/

/-- The externs of a list are accepted in order behind the names `seen`, with these entries. -/
inductive Accepts (ctx : Context) : List String → List Extern → List (Entry ctx) → Prop where
  | nil (seen : List String) : Accepts ctx seen [] []
  | cons {seen : List String} {e : Extern} {es : List Extern} {entry : Entry ctx}
      {entries : List (Entry ctx)} (fresh : e.name ∉ seen) (accepted : Entry.of ctx e = .ok entry)
      (others : Accepts ctx (seen ++ [e.name]) es entries) :
      Accepts ctx seen (e :: es) (entry :: entries)

/-- An extern is refused behind the names `seen`. A name that came before counts first. -/
inductive Refuses (ctx : Context) (seen : List String) (e : Extern) : GlueError → Prop where
  | duplicate (before : e.name ∈ seen) : Refuses ctx seen e (.duplicateFunction e.name)
  | faulty {err : GlueError} (fresh : e.name ∉ seen) (refused : Entry.of ctx e = .error err) :
      Refuses ctx seen e err

/-- Acceptance in order is acceptance of each, of names that are pairwise different. -/
theorem accepts_iff : ∀ {seen : List String} {es : List Extern} {entries : List (Entry ctx)},
    Accepts ctx seen es entries ↔
      List.Forall₂ (fun e entry => Entry.of ctx e = .ok entry) es entries ∧
        (es.map (·.name)).Nodup ∧ ∀ e ∈ es, e.name ∉ seen
  | seen, [], entries => by
      constructor
      · intro h
        cases h
        exact ⟨.nil, List.nodup_nil, fun _ h => absurd h List.not_mem_nil⟩
      · rintro ⟨hall, -, -⟩
        cases hall
        exact .nil seen
  | seen, e :: es, entries => by
      constructor
      · intro h
        cases h with
        | cons fresh accepted others =>
          obtain ⟨hall, hn, hs⟩ := accepts_iff.mp others
          refine ⟨.cons accepted hall, ?_, ?_⟩
          · rw [List.map_cons, List.nodup_cons]
            refine ⟨fun hm => ?_, hn⟩
            obtain ⟨x, hx, he⟩ := List.mem_map.mp hm
            exact hs x hx (List.mem_append_right seen (List.mem_singleton.mpr he))
          · intro x hx
            rcases List.mem_cons.mp hx with rfl | hx
            · exact fresh
            · exact fun hm => hs x hx (List.mem_append_left [e.name] hm)
      · rintro ⟨hall, hn, hs⟩
        cases hall with
        | cons accepted hall =>
          rw [List.map_cons, List.nodup_cons] at hn
          refine .cons (hs e List.mem_cons_self) accepted (accepts_iff.mpr ⟨hall, hn.2, ?_⟩)
          intro x hx hm
          rcases List.mem_append.mp hm with hm | hm
          · exact hs x (List.mem_cons_of_mem e hx) hm
          · refine hn.1 ?_
            rw [← List.mem_singleton.mp hm]
            exact List.mem_map_of_mem hx

/-- Either all externs of a list are accepted, or there is a first that is refused. -/
theorem accepts_or_refuses : ∀ (seen : List String) (es : List Extern),
    (∃ entries, Accepts ctx seen es entries) ∨
      ∃ before e after entries err, es = before ++ e :: after ∧ Accepts ctx seen before entries ∧
        Refuses ctx (seen ++ before.map (·.name)) e err
  | seen, [] => Or.inl ⟨[], .nil seen⟩
  | seen, e :: es => by
      by_cases hfresh : e.name ∈ seen
      · exact Or.inr ⟨[], e, es, [], _, rfl, .nil seen, .duplicate (by simpa using hfresh)⟩
      · cases hof : Entry.of ctx e with
        | error err =>
          exact Or.inr ⟨[], e, es, [], err, rfl, .nil seen, .faulty (by simpa using hfresh) hof⟩
        | ok entry =>
          rcases accepts_or_refuses (seen ++ [e.name]) es with
            ⟨entries, h⟩ | ⟨before, x, after, entries, err, rfl, h, hr⟩
          · exact Or.inl ⟨entry :: entries, .cons hfresh hof h⟩
          · rw [List.append_assoc, List.singleton_append] at hr
            exact Or.inr ⟨e :: before, x, after, entry :: entries, err, rfl, .cons hfresh hof h, hr⟩

/-! ## 2. One writer for all entries -/

/-- The lines of entries at a depth. -/
def entryLines (entries : List (Entry ctx)) (d : Nat) : List Line :=
  Code.bodyLines d (entries.map Entry.code)

/-- **Accepted externs add their entries, and what follows them goes on from there.** -/
theorem emitAll_append {seen : List String} {before : List Extern} {entries : List (Entry ctx)}
    (h : Accepts ctx seen before entries) : ∀ (after : List Extern) (w : Writer),
    emitAll ctx seen (before ++ after) w =
      let others := emitAll ctx (seen ++ before.map (·.name)) after
        (w.extend (entryLines entries w.depth))
      ⟨others.writer, entries.map Entry.record ++ others.records, others.failure⟩ := by
  induction h with
  | nil seen =>
    intro after w
    simp [entryLines, Code.bodyLines]
  | @cons seen e es entry entries fresh accepted _ ih =>
    intro after w
    have hseen : seen.contains e.name = false := by simpa using fresh
    rw [List.cons_append, emitAll, hseen, Entry.emission_of_ok accepted]
    simp only [Bool.false_eq_true, if_false, ih, entryLines, List.map_cons, Code.bodyLines,
      Writer.extend_extend, Writer.extend_depth, List.append_assoc, List.cons_append,
      List.nil_append]

theorem emitAll_of_accepts {seen : List String} {es : List Extern} {entries : List (Entry ctx)}
    (h : Accepts ctx seen es entries) (w : Writer) :
    emitAll ctx seen es w =
      ⟨w.extend (entryLines entries w.depth), entries.map Entry.record, none⟩ := by
  have he := emitAll_append h [] w
  rw [List.append_nil] at he
  rw [he]
  simp only [emitAll, List.append_nil]

/-- A refused extern adds nothing, and nothing behind it is looked at. -/
theorem emitAll_of_refuses {seen : List String} {e : Extern} {err : GlueError}
    (h : Refuses ctx seen e err) (after : List Extern) (w : Writer) :
    emitAll ctx seen (e :: after) w = ⟨w, [], some err⟩ := by
  cases h with
  | duplicate before =>
    have hseen : seen.contains e.name = true := by simpa using before
    rw [emitAll, hseen]
    rfl
  | faulty fresh refused =>
    have hseen : seen.contains e.name = false := by simpa using fresh
    rw [emitAll, hseen, Entry.emission_of_error refused]
    rfl

/-! ## 3. Documents -/

/-- A document as a tree of code. -/
def code (entries : List (Entry ctx)) : List Code :=
  [.line banner, .block registration registrationEnd (entries.map Entry.code)]

/-- The text of a document. -/
def text (entries : List (Entry ctx)) : String := Line.join (Code.bodyLines 0 (code entries))

/-- The lines of a document: the banner, and the registration around the entries. -/
theorem bodyLines_code (entries : List (Entry ctx)) :
    Code.bodyLines 0 (code entries) =
      ⟨0, banner⟩ :: (⟨0, openLine registration⟩ :: entryLines entries 1 ++
        [⟨0, closeLine registrationEnd⟩]) := by
  simp only [code, Code.bodyLines, Code.lines, entryLines, List.cons_append, List.nil_append,
    List.append_nil, Nat.zero_add]

theorem text_eq (entries : List (Entry ctx)) :
    text entries =
      banner ++ "\n" ++ "mergeInto(LibraryManager.library, \x7b\n" ++
        Line.join (entryLines entries 1) ++ "\x7d);\n" := by
  rw [text, bodyLines_code, Line.join_cons, Line.join_append, Line.join_cons, ← String.append_assoc,
    ← String.append_assoc]
  rfl

/-- **If every extern is accepted, the document is made of their entries.** -/
theorem generate_of_accepts {es : List Extern} {entries : List (Entry ctx)}
    (h : Accepts ctx [] es entries) :
    generate ctx es = (.generating es.length :: entries.map Entry.record, .ok (text entries)) := by
  unfold generate
  simp only [emitAll_of_accepts h, Writer.leaveBlock_extend]
  have hdepth : (Writer.empty.line banner).depth = 0 := rfl
  have htext : (Writer.empty.line banner).text = Line.text ⟨0, banner⟩ := rfl
  rw [Writer.finish, Writer.extend_depth, if_pos hdepth, Writer.text_extend, htext, text,
    bodyLines_code, Line.join_cons]
  rfl

/-- **If an extern is refused, its error is the result**, whatever is wrong with those behind it. -/
theorem generate_of_refuses {before : List Extern} {entries : List (Entry ctx)} {e : Extern}
    {err : GlueError} (h : Accepts ctx [] before entries)
    (hr : Refuses ctx (before.map (·.name)) e err) (after : List Extern) :
    generate ctx (before ++ e :: after) =
      (.generating (before ++ e :: after).length :: entries.map Entry.record, .error err) := by
  unfold generate
  simp only [emitAll_append h, List.nil_append, emitAll_of_refuses hr, Writer.leaveBlock_extend,
    List.append_nil]

/-! ## 4. The first extern to blame -/

/-- What an extern is written as by itself, as the entry its name asks for. -/
def entryText (ctx : Context) (e : Extern) : Except GlueError String :=
  Entry.alone ctx (Entry.kindOf ctx e.name) e

theorem entryText_of_ok {e : Extern} {entry : Entry ctx} (h : Entry.of ctx e = .ok entry) :
    entryText ctx e = .ok (Line.join (entry.code.lines 0)) :=
  Entry.alone_of_ok h

theorem entryText_of_error {e : Extern} {err : GlueError} (h : Entry.of ctx e = .error err) :
    entryText ctx e = .error err :=
  Entry.alone_of_error h

/-- The error an extern of a list is to blame for: its name occurs at an earlier place, or, if it
    does not, it has no text of its own. -/
def offence? (ctx : Context) (externs : List Extern) (i : Nat) : Option GlueError :=
  match externs[i]? with
  | none => none
  | some e =>
    if e.name ∈ (externs.take i).map (·.name) then some (.duplicateFunction e.name)
    else
      match entryText ctx e with
      | .error err => some err
      | .ok _ => none

theorem offence?_append_cons (before : List Extern) (e : Extern) (after : List Extern) :
    offence? ctx (before ++ e :: after) before.length =
      if e.name ∈ before.map (·.name) then some (.duplicateFunction e.name)
      else
        match entryText ctx e with
        | .error err => some err
        | .ok _ => none := by
  unfold offence?
  rw [List.getElem?_append_right (Nat.le_refl _), Nat.sub_self, List.getElem?_cons_zero,
    List.take_left]

/-- Of accepted externs none is to blame. -/
theorem offence?_of_accepts {before after : List Extern} {entries : List (Entry ctx)}
    (h : Accepts ctx [] before entries) {j : Nat} (hj : j < before.length) :
    offence? ctx (before ++ after) j = none := by
  obtain ⟨hall, hn, -⟩ := accepts_iff.mp h
  have hsplit : before = before.take j ++ before[j] :: before.drop (j + 1) := by
    rw [← List.drop_eq_getElem_cons hj, List.take_append_drop]
  have hfresh : before[j].name ∉ (before.take j).map (·.name) := by
    rw [hsplit, List.map_append, List.map_cons] at hn
    intro hm
    exact (List.nodup_append.mp hn).2.2 _ hm _ List.mem_cons_self rfl
  have hlen : j < entries.length := hall.length_eq ▸ hj
  have hof : Entry.of ctx before[j] = .ok entries[j] := hall.get hj hlen
  have hj' : (before.take j).length = j := by rw [List.length_take, Nat.min_eq_left (Nat.le_of_lt hj)]
  have hoff := @offence?_append_cons ctx (before.take j) before[j] (before.drop (j + 1) ++ after)
  rw [hj', if_neg hfresh, entryText_of_ok hof, ← List.cons_append, ← List.append_assoc,
    ← hsplit] at hoff
  exact hoff

theorem offence?_of_refuses {before after : List Extern} {e : Extern} {err : GlueError}
    (h : Refuses ctx (before.map (·.name)) e err) :
    offence? ctx (before ++ e :: after) before.length = some err := by
  rw [offence?_append_cons]
  cases h with
  | duplicate hm => rw [if_pos hm]
  | faulty fresh refused => rw [if_neg fresh, entryText_of_error refused]

/-- If all externs of a list are accepted, none is to blame. -/
theorem offence?_eq_none {es : List Extern} {entries : List (Entry ctx)}
    (h : Accepts ctx [] es entries) (i : Nat) : offence? ctx es i = none := by
  by_cases hi : i < es.length
  · have hoff := @offence?_of_accepts ctx es [] entries h i hi
    rwa [List.append_nil] at hoff
  · rw [offence?, List.getElem?_eq_none (Nat.le_of_not_lt hi)]

/-- No two externs are the first that is to blame. -/
theorem first_offence_unique {externs : List Extern} {i k : Nat} {err err' : GlueError}
    (hi : offence? ctx externs i = some err) (hfirst : ∀ j < i, offence? ctx externs j = none)
    (hk : offence? ctx externs k = some err') (hfirst' : ∀ j < k, offence? ctx externs j = none) :
    i = k := by
  rcases Nat.lt_trichotomy i k with hlt | heq | hgt
  · rw [hfirst' i hlt] at hi
    cases hi
  · exact heq
  · rw [hfirst k hgt] at hk
    cases hk

/-- There is one error that is the first. -/
theorem first_offence_iff {externs : List Extern} {k : Nat} {err err' : GlueError}
    (hoff : offence? ctx externs k = some err) (hfirst : ∀ j < k, offence? ctx externs j = none) :
    (∃ i, offence? ctx externs i = some err' ∧ ∀ j < i, offence? ctx externs j = none) ↔
      err = err' := by
  constructor
  · rintro ⟨i, hi, hleast⟩
    obtain rfl := first_offence_unique hi hleast hoff hfirst
    exact Option.some.inj (hoff.symm.trans hi)
  · rintro rfl
    exact ⟨k, hoff, hfirst⟩

theorem blames_of_refuses {seen : List String} {e : Extern} {err : GlueError}
    (h : Refuses ctx seen e err) : Entry.Blames err := by
  cases h with
  | duplicate => exact fun d hd => by cases hd
  | faulty _ refused => exact Entry.ofKind_ne_unbalancedScope refused

/-- The lines of entries are their own texts with four blanks before every line. -/
theorem join_entryLines {es : List Extern} {entries : List (Entry ctx)}
    (h : List.Forall₂ (fun e entry => Entry.of ctx e = .ok entry) es entries) :
    ∃ texts, List.Forall₂ (fun e t => entryText ctx e = .ok t) es texts ∧
      Line.join (entryLines entries 1) = String.join (texts.map (Text.indent 4)) := by
  induction h with
  | nil => exact ⟨[], .nil, rfl⟩
  | @cons e entry es entries hof _ ih =>
    obtain ⟨texts, hall, hjoin⟩ := ih
    refine ⟨Line.join (entry.code.lines 0) :: texts, .cons (entryText_of_ok hof) hall, ?_⟩
    have hindent := Entry.join_lines_code hof 1
    rw [entryLines, List.map_cons, Code.bodyLines, Line.join_append, List.map_cons,
      String.join_cons, ← hjoin, hindent]
    rfl

/-- **The first extern to blame decides.** There is a document exactly if the names are pairwise
    different and every extern has a text of its own, and it is the banner, the registration around
    these texts, in order, each with four blanks before every line. Otherwise the error is that of the
    first extern that is to blame, and it is never about an open block. -/
theorem generate_first_offence (ctx : Context) (externs : List Extern) :
    ((∃ document, (generate ctx externs).2 = .ok document) ↔
      (externs.map (·.name)).Nodup ∧ ∀ e ∈ externs, ∃ t, entryText ctx e = .ok t) ∧
    (∀ document, (generate ctx externs).2 = .ok document →
      ∃ texts, List.Forall₂ (fun e t => entryText ctx e = .ok t) externs texts ∧
        document = banner ++ "\n" ++ "mergeInto(LibraryManager.library, \x7b\n" ++
          String.join (texts.map (Text.indent 4)) ++ "\x7d);\n") ∧
    (∀ err, (generate ctx externs).2 = .error err ↔
      ∃ i, offence? ctx externs i = some err ∧ ∀ j < i, offence? ctx externs j = none) ∧
    ∀ d, (generate ctx externs).2 ≠ .error (.unbalancedScope d) := by
  rcases @accepts_or_refuses ctx [] externs with
    ⟨entries, h⟩ | ⟨before, e, after, entries, err, rfl, h, hr⟩
  · have hgen := congrArg Prod.snd (generate_of_accepts h)
    obtain ⟨hall, hn, -⟩ := accepts_iff.mp h
    obtain ⟨texts, htexts, hjoin⟩ := join_entryLines hall
    rw [hgen]
    refine ⟨⟨fun _ => ⟨hn, fun e he => ?_⟩, fun _ => ⟨_, rfl⟩⟩, ?_, ?_, fun d hd => by cases hd⟩
    · obtain ⟨n, hlt, rfl⟩ := List.mem_iff_getElem.mp he
      exact ⟨_, htexts.get hlt (htexts.length_eq ▸ hlt)⟩
    · rintro document ⟨⟩
      exact ⟨texts, htexts, by rw [← hjoin, text_eq]⟩
    · intro err
      constructor
      · intro hd
        cases hd
      · rintro ⟨i, hi, -⟩
        rw [offence?_eq_none h i] at hi
        cases hi
  · rw [List.nil_append] at hr
    have hgen := congrArg Prod.snd (generate_of_refuses h hr after)
    have hbefore := fun j hj => @offence?_of_accepts ctx before (e :: after) entries h j hj
    have hoff := @offence?_of_refuses ctx before after e err hr
    rw [hgen]
    refine ⟨⟨?_, ?_⟩, ?_, ?_, fun d hd => blames_of_refuses hr d (Except.error.inj hd)⟩
    · rintro ⟨document, hd⟩
      cases hd
    · rintro ⟨hn, hall⟩
      obtain ⟨t, ht⟩ := hall e (List.mem_append_right before List.mem_cons_self)
      rw [List.map_append, List.map_cons] at hn
      have hfresh : e.name ∉ before.map (·.name) := fun hm =>
        (List.nodup_append.mp hn).2.2 _ hm _ List.mem_cons_self rfl
      rw [offence?_append_cons, if_neg hfresh, ht] at hoff
      cases hoff
    · intro document hd
      cases hd
    · intro err'
      rw [first_offence_iff hoff hbefore]
      exact ⟨Except.error.inj, congrArg Except.error⟩

end HostGlue.Document
