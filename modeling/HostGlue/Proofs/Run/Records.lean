import HostGlue.Proofs.Entry.Calls
import HostGlue.Proofs.Entry.Scope
import HostGlue.Proofs.Run.Stages

/-!
# What a run reports on its way

A run leaves records, one for each stage that was completed and one for each extern that was accepted.
Here they are noted as a reader of the log has them, by level and wording:

* `Entry.Noted`, the note of an accepted extern: its name with the number of its parameters or, for the
  initializer, with the three signatures of its function pointers (`Entry.noted_of_eq_ok`);
* `Document.Reached`, the externs of a list in front of the first that is to blame, or all of them, and
  that exactly these are noted when a document is made (`Document.notes_generate`);
* `Run.Logged`, the notes of a run by how far it comes;
* **`run_logged_iff`: the notes of every run are those of the stages it has completed**, in order, and
  nothing else.
-/

namespace HostGlue

/-- A record as the log shows it: its level and its wording. -/
def Log.Record.note (r : Log.Record) : Log.Level × String := (r.level, r.message)

namespace Entry

/-! ## 1. The note of an extern -/

/-- A signature of a function pointer, for a parameter that is one. -/
def Signs (p : Param) (signature : String) : Prop :=
  ∃ params result, p.ty = .callback params result ∧ callSignature result params = .ok signature

/-- The note of an accepted extern. The reserved name is that of the initializer. -/
inductive Noted (ctx : Context) (e : Extern) : Log.Level × String → Prop where
  | ordinary (name : e.name ≠ ctx.protocol.initializeEntry) :
      Noted ctx e (.debug,
        "emitting glue for " ++ e.name ++ " (" ++ Digits.ofInt e.params.length ++ " params)")
  | initializer {p q r : Param} {others : List Param} {a b c : String}
      (name : e.name = ctx.protocol.initializeEntry) (params : e.params = p :: q :: r :: others)
      (first : Signs p a) (second : Signs q b) (third : Signs r c) :
      Noted ctx e (.debug, "emitting initializer " ++ e.name ++ " with signatures " ++
        ("[\x22" ++ a ++ "\x22, \x22" ++ b ++ "\x22, \x22" ++ c ++ "\x22]"))

variable {ctx : Context} {e : Extern} {p : Param} {a b : String}

theorem Signs.unique (ha : Signs p a) (hb : Signs p b) : a = b := by
  obtain ⟨params, result, hty, hsig⟩ := ha
  obtain ⟨params', result', hty', hsig'⟩ := hb
  cases hty.symm.trans hty'
  exact Except.ok.inj (hsig.symm.trans hsig')

/-- An extern has one note. -/
theorem Noted.unique {n n' : Log.Level × String} (h : Noted ctx e n) (h' : Noted ctx e n') :
    n = n' := by
  cases h with
  | ordinary name =>
    cases h' with
    | ordinary => rfl
    | initializer name' => exact absurd name' name
  | initializer name params first second third =>
    cases h' with
    | ordinary name' => exact absurd name name'
    | initializer _ params' first' second' third' =>
      cases params.symm.trans params'
      rw [first.unique first', second.unique second', third.unique third']

/-- A signature is shown as it stands, between double quotes. -/
theorem Signs.quoted (h : Signs p a) : Text.Shown.quoted a = "\x22" ++ a ++ "\x22" := by
  have hshow : ∀ tag : DispatchTag, Text.Shown.showChar tag.char = [tag.char] := by
    intro tag
    cases tag <;> decide +kernel
  obtain ⟨params, result, -, hsig⟩ := h
  obtain ⟨tag, tags, -, -, hletters⟩ := classes_of_callSignature hsig
  have hplain : a.toList.flatMap Text.Shown.showChar = a.toList := by
    rw [hletters, List.flatMap_cons, hshow, List.flatMap_map]
    simp only [hshow, List.map_eq_flatMap, List.singleton_append]
  rw [Text.Shown.quoted, hplain, ← List.singleton_append, String.ofList_append, String.ofList_append,
    String.ofList_toList]

theorem Trampoline.Wraps.signs {x : String} {t : Trampoline} (h : Wraps ctx e x p t) :
    Signs p t.signature := by
  cases h with
  | of callback _ _ signed => exact ⟨_, _, callback, signed⟩

theorem shownList_three (ha : Text.Shown.quoted a = "\x22" ++ a ++ "\x22")
    (hb : Text.Shown.quoted b = "\x22" ++ b ++ "\x22") {c : String}
    (hc : Text.Shown.quoted c = "\x22" ++ c ++ "\x22") :
    Log.shownList [a, b, c] =
      "[\x22" ++ a ++ "\x22, \x22" ++ b ++ "\x22, \x22" ++ c ++ "\x22]" := by
  have hopen : "[\x22" = "[" ++ "\x22" := rfl
  have hcomma : "\x22, \x22" = "\x22" ++ (", " ++ "\x22") := rfl
  have hclose : "\x22]" = "\x22" ++ "]" := rfl
  rw [hopen, hcomma, hclose, Log.shownList]
  simp only [List.map_cons, List.map_nil, ha, hb, hc, String.intercalate_cons_cons,
    String.intercalate_singleton, String.append_assoc]

/-- **What is reported of an accepted extern is its note.** -/
theorem noted_of_eq_ok {entry : Entry ctx} (h : Entry.of ctx e = .ok entry) :
    Noted ctx e entry.record.note := by
  rcases of_eq_ok h with ⟨hname, o, rfl, rfl⟩ | ⟨hname, i, rfl, hshape, rfl⟩
  · exact .ordinary hname
  · obtain ⟨p, q, r, others, t, u, v, hparams, hts, ht, hu, hv⟩ := hshape.three
    have hshown := shownList_three ht.signs.quoted hu.signs.quoted hv.signs.quoted
    have hnote : (record (.initializer i : Entry ctx)).note =
        (.debug, "emitting initializer " ++ i.source.name ++ " with signatures " ++
          Log.shownList [t.signature, u.signature, v.signature]) := by
      rw [record, hts]
      rfl
    rw [hnote, hshown]
    exact .initializer hname hparams ht.signs hu.signs hv.signs

end Entry

namespace Document

/-! ## 2. The notes of a document -/

/-- The externs that are reached: those in front of the first that is to blame, all if none is. -/
inductive Reached (ctx : Context) (externs : List Extern) : List Extern → Prop where
  | all (unblamed : ∀ i, offence? ctx externs i = none) : Reached ctx externs externs
  | upTo {i : Nat} {err : GlueError} (offends : offence? ctx externs i = some err)
      (first : ∀ j < i, offence? ctx externs j = none) : Reached ctx externs (externs.take i)

variable {ctx : Context} {externs : List Extern}

theorem Reached.unique {xs ys : List Extern} (h : Reached ctx externs xs)
    (h' : Reached ctx externs ys) : xs = ys := by
  cases h with
  | all unblamed =>
    cases h' with
    | all => rfl
    | @upTo i _ offends => simp [unblamed i] at offends
  | @upTo i _ offends first =>
    cases h' with
    | all unblamed => simp [unblamed i] at offends
    | upTo offends' first' => rw [first_offence_unique offends first offends' first']

/-- The notes of the externs that are reached. -/
def Emitted (ctx : Context) (externs : List Extern) (notes : List (Log.Level × String)) : Prop :=
  ∃ reached, Reached ctx externs reached ∧ List.Forall₂ (Entry.Noted ctx) reached notes

theorem Emitted.unique {xs ys : List (Log.Level × String)} (h : Emitted ctx externs xs)
    (h' : Emitted ctx externs ys) : xs = ys := by
  obtain ⟨reached, hreached, hnotes⟩ := h
  obtain ⟨reached', hreached', hnotes'⟩ := h'
  cases hreached.unique hreached'
  have hunique : Relator.RightUnique (Entry.Noted ctx) := fun _ _ _ hx hy => hx.unique hy
  exact hunique.forall₂ hnotes hnotes'

theorem noted_of_accepts {seen : List String} {entries : List (Entry ctx)}
    (h : Accepts ctx seen externs entries) :
    List.Forall₂ (Entry.Noted ctx) externs (entries.map fun entry => entry.record.note) := by
  rw [List.forall₂_map_right_iff]
  exact (accepts_iff.mp h).1.imp fun _ _ hof => Entry.noted_of_eq_ok hof

/-- **Exactly the externs that are reached are noted**, behind the number of all. -/
theorem notes_generate (ctx : Context) (externs : List Extern) :
    ∃ notes, Emitted ctx externs notes ∧ (generate ctx externs).1.map Log.Record.note =
      (Log.Record.generating externs.length).note :: notes := by
  rcases @accepts_or_refuses ctx [] externs with
    ⟨entries, h⟩ | ⟨before, e, after, entries, err, rfl, h, hr⟩
  · refine ⟨_, ⟨externs, .all (offence?_eq_none h), noted_of_accepts h⟩, ?_⟩
    rw [generate_of_accepts h, List.map_cons, List.map_map]
    rfl
  · rw [List.nil_append] at hr
    have hreached : Reached ctx (before ++ e :: after) ((before ++ e :: after).take before.length) :=
      .upTo (offence?_of_refuses hr) fun j hj => offence?_of_accepts h hj
    rw [List.take_left] at hreached
    refine ⟨_, ⟨before, hreached, noted_of_accepts h⟩, ?_⟩
    rw [generate_of_refuses h hr, List.map_cons, List.map_map]
    rfl

end Document

namespace Run

open File (LawfulStore answer left)

/-! ## 3. The notes of a run -/

variable {σ : Type} (L : LawfulStore σ) (s : σ) (config : String)

/-- The settings and the catalog of a run are there, and they have a context. -/
structure Accepted (settings : Settings) (catalog : Catalog) (ctx : Context) : Prop where
  catalogued : Catalogued L s config settings catalog
  protocol : ctx.protocol = settings.protocol
  kinds : ctx.kinds = catalog.bufferKinds

/-- The document of a run gets to the file its output leads to. -/
def Puts (settings : Settings) (document : String) : Prop :=
  answer (makeParents L config settings) s = .ok () ∧
    answer (put L config settings document) (left (makeParents L config settings) s) = .ok ()

/-- The note that a catalog is about to be read. -/
def loadingNote (config : String) (settings : Settings) : Log.Level × String :=
  (.info, "loading catalog " ++ catalogFile config settings)

/-- The note that a catalog was read, with what it holds. -/
def loadedNote (catalog : Catalog) : Log.Level × String :=
  (.info, "  loaded " ++ Digits.ofInt catalog.externs.length ++ " functions, " ++
    Digits.ofInt catalog.bufferKinds.length ++ " buffer kinds")

/-- The note that the entries of a catalog are about to be made. -/
def generatingNote (catalog : Catalog) : Log.Level × String :=
  (.info, "generating glue for " ++ Digits.ofInt catalog.externs.length ++ " functions")

/-- The notes of a run. There are none without settings, and one without a catalog. Two are there
    without a context, and three with one, in front of those of the externs that are reached. The last
    one says what became of the document, if anything did. -/
inductive Logged : Bool → List (Log.Level × String) → Prop where
  | unconfigured {dry : Bool} (nowhere : ∀ settings, ¬ Configured L s config settings) : Logged dry []
  | uncatalogued {dry : Bool} {settings : Settings} (configured : Configured L s config settings)
      (nowhere : ∀ catalog, ¬ Catalogued L s config settings catalog) :
      Logged dry [loadingNote config settings]
  | refused {dry : Bool} {settings : Settings} {catalog : Catalog}
      (catalogued : Catalogued L s config settings catalog)
      (refused : ∀ ctx, ¬ Accepted L s config settings catalog ctx) :
      Logged dry [loadingNote config settings, loadedNote catalog]
  | offended {dry : Bool} {settings : Settings} {catalog : Catalog} {ctx : Context}
      {notes : List (Log.Level × String)} (accepted : Accepted L s config settings catalog ctx)
      (emitted : Document.Emitted ctx catalog.externs notes)
      (unmade : ∀ document, ¬ Generated L s config settings catalog document) :
      Logged dry
        ([loadingNote config settings, loadedNote catalog, generatingNote catalog] ++ notes)
  | unwritten {settings : Settings} {catalog : Catalog} {ctx : Context} {document : String}
      {notes : List (Log.Level × String)} (accepted : Accepted L s config settings catalog ctx)
      (emitted : Document.Emitted ctx catalog.externs notes)
      (generated : Generated L s config settings catalog document)
      (unwritten : ¬ Puts L s config settings document) :
      Logged false
        ([loadingNote config settings, loadedNote catalog, generatingNote catalog] ++ notes)
  | dry {settings : Settings} {catalog : Catalog} {ctx : Context} {document : String}
      {notes : List (Log.Level × String)} (accepted : Accepted L s config settings catalog ctx)
      (emitted : Document.Emitted ctx catalog.externs notes)
      (generated : Generated L s config settings catalog document) :
      Logged true
        ([loadingNote config settings, loadedNote catalog, generatingNote catalog] ++ notes ++
          [(.info, "dry run: not writing " ++ outputFile config settings)])
  | written {settings : Settings} {catalog : Catalog} {ctx : Context} {document : String}
      {notes : List (Log.Level × String)} (accepted : Accepted L s config settings catalog ctx)
      (emitted : Document.Emitted ctx catalog.externs notes)
      (generated : Generated L s config settings catalog document)
      (wrote : Puts L s config settings document) :
      Logged false
        ([loadingNote config settings, loadedNote catalog, generatingNote catalog] ++ notes ++
          [(.info, "wrote " ++ outputFile config settings ++ " (" ++
            Digits.ofInt document.utf8ByteSize ++ " bytes)")])

variable {L s config} {settings : Settings} {catalog : Catalog} {ctx : Context} {document : String}
  {notes : List (Log.Level × String)}

/-- Where there is no context, nothing is reported of a document, and there is none. -/
theorem generate_of_refused (h : Catalogued L s config settings catalog)
    (refused : ∀ ctx, ¬ Accepted L s config settings catalog ctx) :
    ∃ e, catalog.generate settings.protocol = ([], .error e) := by
  cases hof : Context.of settings.protocol catalog.bufferKinds with
  | error e => exact ⟨e, by rw [Catalog.generate, hof]⟩
  | ok ctx =>
    obtain ⟨protocol, kinds⟩ := (Context.of_eq_ok_iff _ _ ctx).mp hof
    exact absurd ⟨h, protocol, kinds⟩ (refused ctx)

/-- The records up to the document, as they are noted. -/
theorem notes_recordsBefore (accepted : Accepted L s config settings catalog ctx)
    (emitted : Document.Emitted ctx catalog.externs notes) :
    (recordsBefore config settings catalog).map Log.Record.note =
      [loadingNote config settings, loadedNote catalog, generatingNote catalog] ++ notes := by
  obtain ⟨notes', hemitted, hnotes⟩ := Document.notes_generate ctx catalog.externs
  cases emitted.unique hemitted
  rw [recordsBefore, Catalog.generate_of_context accepted.protocol accepted.kinds, List.map_append,
    hnotes]
  rfl

/-- A document that does not get to its file adds no record. -/
theorem log_of_unwritten (generated : Generated L s config settings catalog document)
    (unwritten : ¬ Puts L s config settings document) :
    (onStore L.toStore s config false).1.log = recordsBefore config settings catalog := by
  cases hm : answer (makeParents L config settings) s with
  | error f => rw [onStore_of_directories_error generated hm]
  | ok =>
    cases hw : answer (put L config settings document) (left (makeParents L config settings) s) with
    | error f => rw [onStore_of_write_error generated hm hw]
    | ok => exact absurd ⟨hm, hw⟩ unwritten

/-- What a run reports is noted by how far it comes. -/
theorem notes_of_logged {dry : Bool} (h : Logged L s config dry notes) :
    (onStore L.toStore s config dry).1.log.map Log.Record.note = notes := by
  cases h with
  | unconfigured nowhere =>
    cases hs : loaded L s checkSettings config with
    | error e => rw [onStore_of_settings_error hs]; rfl
    | ok settings => exact absurd ((configured_iff L s config).mpr hs) (nowhere settings)
  | @uncatalogued _ settings configured nowhere =>
    have hs := (configured_iff L s config).mp configured
    cases hc : loaded L s checkCatalog (catalogFile config settings) with
    | error e => rw [onStore_of_catalog_error hs hc]; rfl
    | ok catalog => exact absurd ((catalogued_iff L s config).mpr ⟨hs, hc⟩) (nowhere catalog)
  | @refused _ settings catalog catalogued refused =>
    obtain ⟨e, hgen⟩ := generate_of_refused catalogued refused
    rw [onStore_of_generate_error catalogued (congrArg Prod.snd hgen)]
    show (recordsBefore config settings catalog).map Log.Record.note = _
    rw [recordsBefore, hgen]
    rfl
  | @offended _ settings catalog _ _ accepted emitted unmade =>
    cases hd : (catalog.generate settings.protocol).2 with
    | error e =>
      rw [onStore_of_generate_error accepted.catalogued hd]
      exact notes_recordsBefore accepted emitted
    | ok document => exact absurd ⟨accepted.catalogued, hd⟩ (unmade document)
  | unwritten accepted emitted generated unwritten =>
    rw [log_of_unwritten generated unwritten, notes_recordsBefore accepted emitted]
  | dry accepted emitted generated =>
    rw [onStore_dry generated, List.map_append, notes_recordsBefore accepted emitted]
    rfl
  | written accepted emitted generated wrote =>
    obtain ⟨hm, hw⟩ := wrote
    rw [onStore_of_write generated hm hw, List.map_append, notes_recordsBefore accepted emitted]
    rfl

/-- Every run comes as far as one of these. -/
theorem exists_logged (L : LawfulStore σ) (s : σ) (config : String) (dry : Bool) :
    ∃ notes, Logged L s config dry notes := by
  by_cases hs : ∃ settings, Configured L s config settings
  swap
  · exact ⟨_, .unconfigured (not_exists.mp hs)⟩
  obtain ⟨settings, configured⟩ := hs
  by_cases hc : ∃ catalog, Catalogued L s config settings catalog
  swap
  · exact ⟨_, .uncatalogued configured (not_exists.mp hc)⟩
  obtain ⟨catalog, catalogued⟩ := hc
  by_cases ha : ∃ ctx, Accepted L s config settings catalog ctx
  swap
  · exact ⟨_, .refused catalogued (not_exists.mp ha)⟩
  obtain ⟨ctx, accepted⟩ := ha
  obtain ⟨notes, emitted, -⟩ := Document.notes_generate ctx catalog.externs
  by_cases hd : ∃ document, Generated L s config settings catalog document
  swap
  · exact ⟨_, .offended accepted emitted (not_exists.mp hd)⟩
  obtain ⟨document, generated⟩ := hd
  cases dry with
  | true => exact ⟨_, .dry accepted emitted generated⟩
  | false =>
    by_cases hw : Puts L s config settings document
    · exact ⟨_, .written accepted emitted generated hw⟩
    · exact ⟨_, .unwritten accepted emitted generated hw⟩

/-- **The notes of a run are those of the stages it has completed**, in order, and no others: that the
    catalog is read, what it holds, that the entries are made, one for each extern in front of the first
    that is to blame, and what became of the document. So it is over every lawful store. -/
theorem run_logged_iff (L : LawfulStore σ) (s : σ) (config : String) (dry : Bool)
    (notes : List (Log.Level × String)) :
    (onStore L.toStore s config dry).1.log.map (fun r => (r.level, r.message)) = notes ↔
      Logged L s config dry notes := by
  constructor
  · rintro rfl
    obtain ⟨notes, h⟩ := exists_logged L s config dry
    exact (notes_of_logged h).symm ▸ h
  · exact notes_of_logged

/-- The notes of a run in a tree with settings and a catalog. -/
theorem run_logged_sample :
    Logged File.Tree.lawful sampleTree "c.toml" false
      [(.info, "loading catalog c.json"), (.info, "  loaded 0 functions, 8 buffer kinds"),
        (.info, "generating glue for 0 functions"), (.info, "wrote out/glue.js (122 bytes)")] := by
  have hnotes : (onStore File.Tree.store sampleTree "c.toml" false).1.log.map
      (fun r => (r.level, r.message)) =
      [(.info, "loading catalog c.json"), (.info, "  loaded 0 functions, 8 buffer kinds"),
        (.info, "generating glue for 0 functions"), (.info, "wrote out/glue.js (122 bytes)")] := by
    decide +kernel
  generalize sampleTree = t at hnotes ⊢
  exact (run_logged_iff File.Tree.lawful t "c.toml" false _).mp hnotes

end Run

end HostGlue
