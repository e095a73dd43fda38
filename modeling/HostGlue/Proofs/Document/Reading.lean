import HostGlue.Proofs.Document.Registration
import HostGlue.Proofs.Entry.Face

/-!
# What a document tells of its externs

The text of a document is read back into its entries. This file shows that

* all lines of a document are solid, so it is determined by them and they by it (`text_inj`);
* entries cannot run into each other (`entryLines_read`);
* **two documents are equal exactly if their externs have the same faces** (`generate_eq_iff`): owners
  and all types that are neither texts nor callbacks leave no trace, and everything else does.
-/

namespace HostGlue.Document

variable {ctx : Context}

/-! ## 1. Lines of a document -/

/-- The entries of externs, in order. -/
abbrev Entries (ctx : Context) : List Extern → List (Entry ctx) → Prop :=
  List.Forall₂ fun e entry => Entry.of ctx e = .ok entry

/-- What was generated is the text of the entries of its externs. -/
theorem entries_of_generate {es : List Extern} {document : String}
    (h : (generate ctx es).2 = .ok document) :
    ∃ entries, Entries ctx es entries ∧ document = text entries := by
  rcases @accepts_or_refuses ctx [] es with
    ⟨entries, ha⟩ | ⟨before, e, after, entries, err, rfl, ha, hr⟩
  · rw [generate_of_accepts ha] at h
    exact ⟨entries, (accepts_iff.mp ha).1, (Except.ok.inj h).symm⟩
  · rw [generate_of_refuses ha hr] at h
    cases h

theorem solid_entries {es : List Extern} {entries : List (Entry ctx)}
    (h : Entries ctx es entries) : Code.Solid (entries.map Entry.code) := by
  induction h with
  | nil => exact Code.solid_nil
  | cons hof _ ih =>
    exact Code.solid_append (Script.Property.solid_code _ (Entry.named_property hof)) ih

/-- All lines of a document are solid. -/
theorem solid_code {es : List Extern} {entries : List (Entry ctx)} (h : Entries ctx es entries) :
    Code.Solid (code entries) := by
  have hbanner : Text.Solid banner.toList := ⟨⟨'/', _, rfl, by decide⟩, by decide⟩
  have hregistration : Text.Solid registration.toList := ⟨⟨'m', _, rfl, by decide⟩, by decide⟩
  exact Code.solid_append (Code.solid_line hbanner)
    (Code.solid_block hregistration (by decide) (solid_entries h))

/-- The text of a document determines the lines of its entries. -/
theorem text_inj {es fs : List Extern} {as bs : List (Entry ctx)} (ha : Entries ctx es as)
    (hb : Entries ctx fs bs) (h : text as = text bs) : entryLines as 1 = entryLines bs 1 := by
  have hlines := Line.join_inj (solid_code ha 0) (solid_code hb 0) h
  rw [bodyLines_code, bodyLines_code] at hlines
  exact (List.append_left_inj _).mp (List.cons.inj (List.cons.inj hlines).2).2

/-- What holds of the entries of externs one by one holds of them together. -/
theorem Entries.forall_iff {P : Entry ctx → Prop} {Q : Extern → Prop} {es : List Extern}
    {entries : List (Entry ctx)} (h : Entries ctx es entries)
    (hpq : ∀ e entry, Entry.of ctx e = .ok entry → (P entry ↔ Q e)) :
    (∀ entry ∈ entries, P entry) ↔ ∀ e ∈ es, Q e := by
  induction h with
  | nil => exact ⟨fun _ _ hm => absurd hm List.not_mem_nil, fun _ _ hm => absurd hm List.not_mem_nil⟩
  | cons hof _ ih => rw [List.forall_mem_cons, List.forall_mem_cons, hpq _ _ hof, ih]

theorem Entries.exists_extern {es : List Extern} {entries : List (Entry ctx)}
    (h : Entries ctx es entries) {entry : Entry ctx} (hm : entry ∈ entries) :
    ∃ e ∈ es, Entry.of ctx e = .ok entry := by
  induction h with
  | nil => exact absurd hm List.not_mem_nil
  | cons hof _ ih =>
    rcases List.mem_cons.mp hm with rfl | hm
    · exact ⟨_, List.mem_cons_self, hof⟩
    · obtain ⟨e, he, hof⟩ := ih hm
      exact ⟨e, List.mem_cons_of_mem _ he, hof⟩

theorem Entries.exists_entry {es : List Extern} {entries : List (Entry ctx)}
    (h : Entries ctx es entries) {e : Extern} (hm : e ∈ es) :
    ∃ entry ∈ entries, Entry.of ctx e = .ok entry := by
  induction h with
  | nil => exact absurd hm List.not_mem_nil
  | cons hof _ ih =>
    rcases List.mem_cons.mp hm with rfl | hm
    · exact ⟨_, List.mem_cons_self, hof⟩
    · obtain ⟨entry, hentry, hof⟩ := ih hm
      exact ⟨entry, List.mem_cons_of_mem _ hentry, hof⟩

/-! ## 2. Entries one after another -/

/-- **Entries cannot run into each other**: the faces of their externs are read back from the lines of
    all of them. -/
theorem entryLines_read {d : Nat} {es : List Extern} {as : List (Entry ctx)}
    (ha : Entries ctx es as) : ∀ {fs : List Extern} {bs : List (Entry ctx)}, Entries ctx fs bs →
    entryLines as d = entryLines bs d → es.map (·.face ctx) = fs.map (·.face ctx) := by
  induction ha with
  | nil =>
    intro fs bs hb h
    cases hb with
    | nil => rfl
    | cons _ _ => cases h
  | cons hof _ ih =>
    intro fs bs hb h
    cases hb with
    | nil => cases h
    | cons hof' hb =>
      obtain ⟨hface, hrest⟩ := Entry.read hof hof' h
      rw [List.map_cons, List.map_cons, hface, ih hb hrest]

/-- Externs with the same faces have the same entries. -/
theorem codes_congr {es : List Extern} {as : List (Entry ctx)} (ha : Entries ctx es as) :
    ∀ {fs : List Extern} {bs : List (Entry ctx)}, Entries ctx fs bs →
    es.map (·.face ctx) = fs.map (·.face ctx) → as.map Entry.code = bs.map Entry.code := by
  induction ha with
  | nil =>
    intro fs bs hb h
    cases hb with
    | nil => rfl
    | cons _ _ => cases h
  | cons hof _ ih =>
    intro fs bs hb h
    cases hb with
    | nil => cases h
    | cons hof' hb =>
      rw [List.map_cons, List.map_cons] at h
      obtain ⟨hface, hrest⟩ := List.cons.inj h
      rw [List.map_cons, List.map_cons, Entry.code_congr hof hof' hface, ih hb hrest]

/-! ## 3. Documents -/

/-- **Two documents are equal exactly if their externs have the same faces**, one by one. Owners, the
    types of what is neither a text nor a callback of the initializer, and the directions and the
    result of the initializer are in no face, so they do not reach the document; and nothing that is
    in a face gets lost in it. -/
theorem generate_eq_iff (ctx : Context) (es fs : List Extern) (document other : String)
    (h₁ : (generate ctx es).2 = .ok document) (h₂ : (generate ctx fs).2 = .ok other) :
    document = other ↔ es.map (·.face ctx) = fs.map (·.face ctx) := by
  obtain ⟨as, ha, rfl⟩ := entries_of_generate h₁
  obtain ⟨bs, hb, rfl⟩ := entries_of_generate h₂
  constructor
  · intro h
    exact entryLines_read ha hb (text_inj ha hb h)
  · intro h
    have hcodes := codes_congr ha hb h
    rw [text, text, code, code, hcodes]

/-- An initializer and a setter as two catalogs may declare them: with other owners, another type of
    number, and other results that are no texts. -/
def sampleExterns (owner : String) (number result : Plain) : List Extern :=
  let callback := Ty.callback [⟨"pointer", .plain .i32, .input⟩] (.plain .void)
  [⟨"InitializeInternal", owner, [⟨"handler", callback, .input⟩, ⟨"acquire", callback, .input⟩,
      ⟨"release", callback, .input⟩], .plain result⟩,
   ⟨"setText", owner, [⟨"status", .plain .i32, .output⟩, ⟨"key", .plain .string, .input⟩,
      ⟨"value", .plain number, .input⟩], .plain result⟩]

theorem exists_of_isOk {ε α : Type} : ∀ {x : Except ε α}, x.isOk = true → ∃ a, x = .ok a
  | .ok a, _ => ⟨a, rfl⟩
  | .error _, h => by cases h

theorem generate_eq_samples : ∃ document other : String,
    (generate .standard (sampleExterns "Native.Text" .i64 .void)).2 = .ok document ∧
    (generate .standard (sampleExterns "Native.Store" .f32 .handle)).2 = .ok other ∧
    document = other := by
  obtain ⟨document, h₁⟩ := exists_of_isOk (by decide +kernel :
    (generate .standard (sampleExterns "Native.Text" .i64 .void)).2.isOk = true)
  obtain ⟨other, h₂⟩ := exists_of_isOk (by decide +kernel :
    (generate .standard (sampleExterns "Native.Store" .f32 .handle)).2.isOk = true)
  exact ⟨document, other, h₁, h₂, (generate_eq_iff _ _ _ _ _ h₁ h₂).mpr (by decide)⟩

end HostGlue.Document

namespace HostGlue

/-- What was generated from a catalog is the text of the entries of its externs, in the context of its
    kinds of views and the protocol. -/
theorem Catalog.entries_of_generate {c : Catalog} {p : Protocol} {document : String}
    (h : (c.generate p).2 = .ok document) :
    ∃ (ctx : Context) (entries : List (Entry ctx)), ctx.protocol = p ∧ ctx.kinds = c.bufferKinds ∧
      Document.Entries ctx c.externs entries ∧ document = Document.text entries := by
  unfold Catalog.generate at h
  split at h
  · cases h
  · rename_i ctx hctx
    obtain ⟨entries, he, hdocument⟩ := Document.entries_of_generate h
    unfold Context.of at hctx
    split at hctx
    · cases hctx
    · cases hctx
      exact ⟨_, entries, rfl, rfl, he, hdocument⟩

/-- Where a document is generated, the names of the externs are pairwise different. -/
theorem Catalog.nodup_of_generate {c : Catalog} {p : Protocol} {document : String}
    (h : (c.generate p).2 = .ok document) : (c.externs.map (·.name)).Nodup := by
  unfold Catalog.generate at h
  split at h
  · cases h
  · rename_i ctx _
    rcases @Document.accepts_or_refuses ctx [] c.externs with
      ⟨entries, ha⟩ | ⟨before, e, after, entries, err, hexterns, ha, hr⟩
    · exact (Document.accepts_iff.mp ha).2.1
    · rw [hexterns, Document.generate_of_refuses ha hr] at h
      cases h

end HostGlue
