import HostGlue.Run
import HostGlue.Proofs.Context
import HostGlue.Proofs.Document.Registration
import HostGlue.Proofs.File.Lawful

/-!
# The stages of a run

A run over a store of files has nine stages: reading the settings, parsing them, checking the protocol,
reading the catalog, parsing it, checking the buffer kinds, making the entries in order, making the
directories above the output, and writing. This file says what a run is from what its stages find:

* `Configured`, `Catalogued` and `Generated`, what is there once the stages up to the protocol, the
  catalog and the document have ended well;
* `FailsAt`, that a stage fails with an error after all stages in front of it have ended well;
* `run_ends`, that a run fails at a stage, or is dry and reports, or writes and reports;
* **`run_stages`: a run reports exactly the error of the stage that fails first**, a run that fails or
  is dry leaves every file as it is, and one that writes changes the one file its output leads to.
-/

namespace HostGlue

/-! ## 1. Errors of a document -/

/-- There is an error exactly if there is an extern to blame, and it is that of the first. -/
theorem Document.generate_error_iff {ctx : Context} {externs : List Extern} {e : GlueError} :
    (generate ctx externs).2 = .error e ↔
      ∃ i, offence? ctx externs i = some e ∧ ∀ j < i, offence? ctx externs j = none := by
  rcases @accepts_or_refuses ctx [] externs with
    ⟨entries, h⟩ | ⟨before, x, after, entries, err, rfl, h, hr⟩
  · rw [generate_of_accepts h]
    constructor
    · intro hd
      cases hd
    · rintro ⟨i, hi, -⟩
      rw [offence?_eq_none h i] at hi
      cases hi
  · rw [List.nil_append] at hr
    have hbefore : ∀ j < before.length, offence? ctx (before ++ x :: after) j = none :=
      fun j hj => offence?_of_accepts h hj
    rw [generate_of_refuses h hr after, first_offence_iff (offence?_of_refuses hr) hbefore]
    exact ⟨Except.error.inj, congrArg Except.error⟩

/-- Under a sound protocol only the buffer kinds can be wrong. -/
theorem Context.error?_of_sound {p : Protocol} (sound : p.fault? = none)
    (kinds : List BufferKind) : error? p kinds = BufferKind.errorAfter? [] kinds := by
  rw [error?, sound]

/-- Under a sound protocol there is a context exactly if the buffer kinds are sound. -/
theorem Context.of_sound {p : Protocol} (sound : p.fault? = none) (kinds : List BufferKind) :
    (∃ e, BufferKind.errorAfter? [] kinds = some e ∧ Context.of p kinds = .error e) ∨
      ∃ ctx : Context, BufferKind.errorAfter? [] kinds = none ∧ Context.of p kinds = .ok ctx ∧
        ctx.protocol = p ∧ ctx.kinds = kinds := by
  have herror := error?_of_sound sound kinds
  unfold Context.of
  split
  · rename_i e h
    exact .inl ⟨e, herror ▸ h, rfl⟩
  · rename_i h
    exact .inr ⟨⟨p, kinds, h⟩, herror ▸ h, rfl, rfl, rfl⟩

/-- A catalog is generated in the context of the protocol and its kinds. -/
theorem Catalog.generate_of_context {c : Catalog} {p : Protocol} {ctx : Context}
    (protocol : ctx.protocol = p) (kinds : ctx.kinds = c.bufferKinds) :
    c.generate p = Document.generate ctx c.externs := by
  rw [Catalog.generate, (Context.of_eq_ok_iff _ _ _).mpr ⟨protocol, kinds⟩]

/-! ## 2. What the stages find -/

namespace Run

open File (LawfulStore answer left)

variable {σ : Type} (L : LawfulStore σ)

/-- What a text that is read from a file gives. -/
def loaded {α : Type} (s : σ) (check : String → String → Except GlueError α) (path : String) :
    Except GlueError α :=
  match L.text s path with
  | .error f => .error (.file path f)
  | .ok text => check path text

theorem loaded_eq_ok {α : Type} {s : σ} {check : String → String → Except GlueError α}
    {path : String} {a : α} : loaded L s check path = .ok a ↔
      ∃ text, L.text s path = .ok text ∧ check path text = .ok a := by
  unfold loaded
  cases L.text s path <;> simp

theorem loaded_eq_error {α : Type} {s : σ} {check : String → String → Except GlueError α}
    {path : String} {e : GlueError} :
    loaded L s check path = .error e ↔
      (∃ f, L.text s path = .error f ∧ e = .file path f) ∨
        ∃ text, L.text s path = .ok text ∧ check path text = .error e := by
  unfold loaded
  cases L.text s path <;> simp [eq_comm]

/-- Where a run finds the catalog its settings name. -/
def catalogFile (config : String) (settings : Settings) : String :=
  settings.catalogPath (Settings.directoryOf config)

/-- Where a run puts the output its settings name. -/
def outputFile (config : String) (settings : Settings) : String :=
  settings.outputPath (Settings.directoryOf config)

variable (s : σ) (config : String)

/-- The settings of a run are there: a text, well formed, with a sound protocol. -/
structure Configured (settings : Settings) : Prop where
  parsed : ∃ text, L.text s config = .ok text ∧ Settings.ofToml text = .ok settings
  sound : settings.protocol.fault? = none

/-- The settings and the catalog of a run are there. -/
structure Catalogued (settings : Settings) (catalog : Catalog) : Prop where
  configured : Configured L s config settings
  parsed : ∃ text, L.text s (catalogFile config settings) = .ok text ∧
    Catalog.ofJson text = .ok catalog

/-- The settings, the catalog and the document of a run are there. -/
structure Generated (settings : Settings) (catalog : Catalog) (document : String) : Prop where
  catalogued : Catalogued L s config settings catalog
  made : (catalog.generate settings.protocol).2 = .ok document

/-- Makes the directories above the output of a run. -/
def makeParents (config : String) (settings : Settings) : StateM σ (Except File.Fault Unit) :=
  makeAbove L.toStore (outputFile config settings)

/-- Writes the document of a run to its output. -/
def put (config : String) (settings : Settings) (document : String) :
    StateM σ (Except File.Fault Unit) :=
  L.write (outputFile config settings) document.toUTF8

theorem configured_iff {settings : Settings} :
    Configured L s config settings ↔ loaded L s checkSettings config = .ok settings := by
  rw [loaded_eq_ok]
  constructor
  · rintro ⟨⟨text, ht, hp⟩, hs⟩
    refine ⟨text, ht, ?_⟩
    rw [checkSettings, hp]
    simp only [hs]
  · rintro ⟨text, ht, hc⟩
    unfold checkSettings at hc
    split at hc
    · cases hc
    · rename_i hp
      split at hc
      · cases hc
      · rename_i hs
        cases hc
        exact ⟨⟨text, ht, hp⟩, hs⟩

theorem catalogued_iff {settings : Settings} {catalog : Catalog} :
    Catalogued L s config settings catalog ↔ loaded L s checkSettings config = .ok settings ∧
      loaded L s checkCatalog (catalogFile config settings) = .ok catalog := by
  rw [← configured_iff, loaded_eq_ok]
  constructor
  · rintro ⟨hc, text, ht, hp⟩
    exact ⟨hc, text, ht, by rw [checkCatalog, hp]⟩
  · rintro ⟨hc, text, ht, hp⟩
    refine ⟨hc, text, ht, ?_⟩
    unfold checkCatalog at hp
    split at hp
    · cases hp
    · rename_i hj
      cases hp
      exact hj

/-- The stages of a run, in order. -/
inductive Stage where
  | readSettings
  | parseSettings
  | checkProtocol
  | readCatalog
  | parseCatalog
  | checkKinds
  | makeEntries
  | makeDirectories
  | write
  deriving DecidableEq

/-- A stage fails with an error, after all stages in front of it have ended well. The last two are
    not reached by a dry run. -/
inductive FailsAt (dry : Bool) : Stage → GlueError → Prop where
  | readSettings {f : File.Fault} (unread : L.text s config = .error f) :
      FailsAt dry .readSettings (.file config f)
  | parseSettings {text : String} {e : Toml.Error} (read : L.text s config = .ok text)
      (malformed : Settings.ofToml text = .error e) :
      FailsAt dry .parseSettings (.settings config text e)
  | checkProtocol {text : String} {settings : Settings} {setting : Protocol.Setting}
      {reason : Protocol.Reason} (read : L.text s config = .ok text)
      (parsed : Settings.ofToml text = .ok settings)
      (faulty : settings.protocol.fault? = some (setting, reason)) :
      FailsAt dry .checkProtocol
        (.invalidProtocol setting (settings.protocol.get setting) reason)
  | readCatalog {settings : Settings} {f : File.Fault} (configured : Configured L s config settings)
      (unread : L.text s (catalogFile config settings) = .error f) :
      FailsAt dry .readCatalog (.file (catalogFile config settings) f)
  | parseCatalog {settings : Settings} {text : String} {e : Json.Error}
      (configured : Configured L s config settings)
      (read : L.text s (catalogFile config settings) = .ok text)
      (malformed : Catalog.ofJson text = .error e) :
      FailsAt dry .parseCatalog (.catalog (catalogFile config settings) text e)
  | checkKinds {settings : Settings} {catalog : Catalog} {e : GlueError}
      (catalogued : Catalogued L s config settings catalog)
      (faulty : BufferKind.errorAfter? [] catalog.bufferKinds = some e) :
      FailsAt dry .checkKinds e
  | makeEntries {settings : Settings} {catalog : Catalog} {ctx : Context} {i : Nat}
      {e : GlueError} (catalogued : Catalogued L s config settings catalog)
      (protocol : ctx.protocol = settings.protocol) (kinds : ctx.kinds = catalog.bufferKinds)
      (offends : Document.offence? ctx catalog.externs i = some e)
      (first : ∀ j < i, Document.offence? ctx catalog.externs j = none) :
      FailsAt dry .makeEntries e
  | makeDirectories {settings : Settings} {catalog : Catalog} {document : String} {f : File.Fault}
      (real : dry = false) (generated : Generated L s config settings catalog document)
      (unmade : answer (makeParents L config settings) s = .error f) :
      FailsAt dry .makeDirectories (.file (outputFile config settings) f)
  | write {settings : Settings} {catalog : Catalog} {document : String} {f : File.Fault}
      (real : dry = false) (generated : Generated L s config settings catalog document)
      (made : answer (makeParents L config settings) s = .ok ())
      (unwritten : answer (put L config settings document) (left (makeParents L config settings) s) =
        .error f) :
      FailsAt dry .write (.file (outputFile config settings) f)

/-! ## 3. What a run is -/

/-- A run over a store: what it leaves besides files, and the state it leaves. -/
def onStore (store : File.Store (StateM σ)) (s : σ) (config : String) (dry : Bool) : Outcome × σ :=
  ((run store config dry).run s).run

/-- What a run reports that has made a document. -/
def reportOf (config : String) (settings : Settings) (catalog : Catalog) (document : String)
    (written : Bool) : Report :=
  ⟨outputFile config settings, catalog.externs.length, document.utf8ByteSize, written⟩

/-- The records of a run up to the document. -/
def recordsBefore (config : String) (settings : Settings) (catalog : Catalog) : List Log.Record :=
  [.loadingCatalog (catalogFile config settings)] ++
    [.loadedCatalog catalog.externs.length catalog.bufferKinds.length] ++
    (catalog.generate settings.protocol).1

variable {L s config} {settings : Settings} {catalog : Catalog} {document : String}

theorem run_load {α : Type} (s : σ) (check : String → String → Except GlueError α)
    (path : String) : (load L.toStore check path).run s = pure (loaded L s check path, s) := by
  unfold load loaded
  simp only [StateT.run_bind, L.run_readText, pure_bind]
  cases L.text s path <;> rfl

theorem onStore_of_settings_error {e : GlueError} (h : loaded L s checkSettings config = .error e)
    (dry : Bool) : onStore L.toStore s config dry = (⟨[], .error e⟩, s) := by
  simp only [onStore, run, loadSettings, StateT.run_bind, run_load, pure_bind, h]
  rfl

theorem onStore_of_catalog_error {e : GlueError} (hs : loaded L s checkSettings config = .ok settings)
    (h : loaded L s checkCatalog (catalogFile config settings) = .error e) (dry : Bool) :
    onStore L.toStore s config dry =
      (⟨[.loadingCatalog (catalogFile config settings)], .error e⟩, s) := by
  rw [catalogFile] at h ⊢
  simp only [onStore, run, loadSettings, loadCatalog, StateT.run_bind, run_load, pure_bind, hs, h]
  rfl

/-- Behind the catalog a run makes the document. -/
theorem onStore_of_catalogued (h : Catalogued L s config settings catalog) (dry : Bool) :
    onStore L.toStore s config dry =
      ((generate L.toStore dry settings.protocol (outputFile config settings) catalog
        [.loadingCatalog (catalogFile config settings)]).run s).run := by
  obtain ⟨hs, hc⟩ := (catalogued_iff L s config).mp h
  rw [catalogFile] at hc
  simp only [onStore, run, loadSettings, loadCatalog, StateT.run_bind, run_load, pure_bind, hs, hc]
  rfl

theorem onStore_of_generate_error {e : GlueError} (h : Catalogued L s config settings catalog)
    (he : (catalog.generate settings.protocol).2 = .error e) (dry : Bool) :
    onStore L.toStore s config dry = (⟨recordsBefore config settings catalog, .error e⟩, s) := by
  rw [onStore_of_catalogued h dry]
  simp only [generate, he]
  rfl

/-- Behind the document a run finishes. -/
theorem onStore_of_generated (h : Generated L s config settings catalog document) (dry : Bool) :
    onStore L.toStore s config dry =
      ((finish L.toStore dry (reportOf config settings catalog document false) document
        (recordsBefore config settings catalog)).run s).run := by
  rw [onStore_of_catalogued h.catalogued dry]
  simp only [generate, h.made]
  rfl

theorem onStore_dry (h : Generated L s config settings catalog document) :
    onStore L.toStore s config true =
      (⟨recordsBefore config settings catalog ++ [.dryRun (outputFile config settings)],
        .ok (reportOf config settings catalog document false)⟩, s) := by
  rw [onStore_of_generated h true]
  rfl

theorem onStore_of_directories_error {f : File.Fault}
    (h : Generated L s config settings catalog document)
    (hf : answer (makeParents L config settings) s = .error f) :
    onStore L.toStore s config false = (⟨recordsBefore config settings catalog,
      .error (.file (outputFile config settings) f)⟩, left (makeParents L config settings) s) := by
  have hmake : (makeAbove L.toStore (reportOf config settings catalog document false).output).run s =
      pure (.error f, left (makeParents L config settings) s) := hf ▸ File.run_eq _ s
  rw [onStore_of_generated h false]
  simp only [finish, writeDocument, StateT.run_bind, hmake, pure_bind, Bool.false_eq_true, if_false]
  rfl

/-- What a run does whose directories are made. -/
theorem onStore_of_made (h : Generated L s config settings catalog document)
    (hm : answer (makeParents L config settings) s = .ok ()) :
    onStore L.toStore s config false =
      (match answer (put L config settings document) (left (makeParents L config settings) s) with
        | .error f => ⟨recordsBefore config settings catalog,
            .error (.file (outputFile config settings) f)⟩
        | .ok () => ⟨recordsBefore config settings catalog ++
            [.wrote (outputFile config settings) document.utf8ByteSize],
            .ok (reportOf config settings catalog document true)⟩,
        left (put L config settings document) (left (makeParents L config settings) s)) := by
  have hmake : (makeAbove L.toStore (reportOf config settings catalog document false).output).run s =
      pure (.ok (), left (makeParents L config settings) s) := hm ▸ File.run_eq _ s
  rw [onStore_of_generated h false]
  simp only [finish, writeDocument, StateT.run_bind, hmake, pure_bind, Bool.false_eq_true, if_false]
  show ((((L.write (outputFile config settings) document.toUTF8).run _ >>= _) >>= _).run : _) = _
  rw [File.run_eq, pure_bind]
  show _ = (match answer (L.write (outputFile config settings) document.toUTF8) _ with
    | .error f => _
    | .ok () => _, _)
  cases answer (L.write (outputFile config settings) document.toUTF8)
    (left (makeParents L config settings) s) <;> rfl

theorem onStore_of_write_error {f : File.Fault} (h : Generated L s config settings catalog document)
    (hm : answer (makeParents L config settings) s = .ok ())
    (hw : answer (put L config settings document) (left (makeParents L config settings) s) =
      .error f) :
    onStore L.toStore s config false = (⟨recordsBefore config settings catalog,
      .error (.file (outputFile config settings) f)⟩,
      left (put L config settings document) (left (makeParents L config settings) s)) := by
  rw [onStore_of_made h hm, hw]

theorem onStore_of_write (h : Generated L s config settings catalog document)
    (hm : answer (makeParents L config settings) s = .ok ())
    (hw : answer (put L config settings document) (left (makeParents L config settings) s) =
      .ok ()) :
    onStore L.toStore s config false =
      (⟨recordsBefore config settings catalog ++
          [.wrote (outputFile config settings) document.utf8ByteSize],
        .ok (reportOf config settings catalog document true)⟩,
        left (put L config settings document) (left (makeParents L config settings) s)) := by
  rw [onStore_of_made h hm, hw]

/-! ## 4. Every run -/

/-- No file came, went or changed where directories were made. -/
theorem sameFiles_makeParents (L : LawfulStore σ) (config : String) (settings : Settings) (s : σ) :
    L.SameFiles s (left (makeParents L config settings) s) := by
  unfold makeParents makeAbove
  cases File.Path.parent? (outputFile config settings) with
  | none => exact fun _ => rfl
  | some above => exact L.file_made s above

variable (L) in
/-- What comes of a run: it fails at a stage, and no file came, went or changed; or it is dry, and
    reports; or it makes directories and writes, and reports. -/
inductive Ends (s : σ) (config : String) : Bool → Except GlueError Report → σ → Prop where
  | failed {dry : Bool} {stage : Stage} {e : GlueError} {u : σ}
      (fails : FailsAt L s config dry stage e) (same : L.SameFiles s u)
      (untouched : dry = true → u = s) : Ends s config dry (.error e) u
  | dry {settings : Settings} {catalog : Catalog} {document : String}
      (generated : Generated L s config settings catalog document) :
      Ends s config true (.ok (reportOf config settings catalog document false)) s
  | written {settings : Settings} {catalog : Catalog} {document : String}
      (generated : Generated L s config settings catalog document)
      (made : answer (makeParents L config settings) s = .ok ())
      (wrote : answer (put L config settings document) (left (makeParents L config settings) s) =
        .ok ()) :
      Ends s config false (.ok (reportOf config settings catalog document true))
        (left (put L config settings document) (left (makeParents L config settings) s))

/-- A run whose catalog is read ends in one of these ways. -/
theorem ends_of_catalogued (h : Catalogued L s config settings catalog) (dry : Bool) :
    Ends L s config dry (onStore L.toStore s config dry).1.result (onStore L.toStore s config dry).2 := by
  have hself : L.SameFiles s s := fun _ => rfl
  cases hd : (catalog.generate settings.protocol).2 with
  | error e =>
    rw [onStore_of_generate_error h hd dry]
    unfold Catalog.generate at hd
    rcases Context.of_sound h.configured.sound catalog.bufferKinds with
      ⟨e', hkinds, hof⟩ | ⟨ctx, -, hof, hprotocol, hctx⟩
    · rw [hof] at hd
      cases hd
      exact .failed (.checkKinds h hkinds) hself fun _ => rfl
    · rw [hof] at hd
      obtain ⟨i, hoff, hfirst⟩ := Document.generate_error_iff.mp hd
      exact .failed (.makeEntries h hprotocol hctx hoff hfirst) hself fun _ => rfl
  | ok document =>
    have hgen : Generated L s config settings catalog document := ⟨h, hd⟩
    cases dry with
    | true =>
      rw [onStore_dry hgen]
      exact .dry hgen
    | false =>
      have hsame := sameFiles_makeParents L config settings s
      cases hm : answer (makeParents L config settings) s with
      | error f =>
        rw [onStore_of_directories_error hgen hm]
        exact .failed (.makeDirectories rfl hgen hm) hsame fun hdry => by cases hdry
      | ok =>
        cases hw : answer (put L config settings document)
            (left (makeParents L config settings) s) with
        | error f =>
          rw [onStore_of_write_error hgen hm hw]
          refine .failed (.write rfl hgen hm hw) (fun place => ?_) fun hdry => by cases hdry
          exact (L.file_unwritten _ _ _ f place hw).trans (hsame place)
        | ok =>
          rw [onStore_of_write hgen hm hw]
          exact .written hgen hm hw

/-- **Every run ends in one of these ways.** -/
theorem run_ends (L : LawfulStore σ) (s : σ) (config : String) (dry : Bool) :
    Ends L s config dry (onStore L.toStore s config dry).1.result (onStore L.toStore s config dry).2 := by
  have hself : L.SameFiles s s := fun _ => rfl
  cases hs : loaded L s checkSettings config with
  | error e =>
    rw [onStore_of_settings_error hs dry]
    obtain ⟨f, hread, rfl⟩ | ⟨text, hread, hcheck⟩ := (loaded_eq_error L).mp hs
    · exact .failed (.readSettings hread) hself fun _ => rfl
    · unfold checkSettings at hcheck
      split at hcheck
      · rename_i hparse
        cases hcheck
        exact .failed (.parseSettings hread hparse) hself fun _ => rfl
      · rename_i hparse
        split at hcheck
        · rename_i hfault
          cases hcheck
          exact .failed (.checkProtocol hread hparse hfault) hself fun _ => rfl
        · cases hcheck
  | ok settings =>
    have hconfigured := (configured_iff L s config).mpr hs
    cases hc : loaded L s checkCatalog (catalogFile config settings) with
    | error e =>
      rw [onStore_of_catalog_error hs hc dry]
      obtain ⟨f, hread, rfl⟩ | ⟨text, hread, hcheck⟩ := (loaded_eq_error L).mp hc
      · exact .failed (.readCatalog hconfigured hread) hself fun _ => rfl
      · unfold checkCatalog at hcheck
        split at hcheck
        · rename_i hparse
          cases hcheck
          exact .failed (.parseCatalog hconfigured hread hparse) hself fun _ => rfl
        · cases hcheck
    | ok catalog => exact ends_of_catalogued ((catalogued_iff L s config).mpr ⟨hs, hc⟩) dry

/-- A stage that fails first decides the result. -/
theorem result_of_failsAt {dry : Bool} {stage : Stage} {e : GlueError}
    (h : FailsAt L s config dry stage e) : (onStore L.toStore s config dry).1.result = .error e := by
  cases h with
  | readSettings unread =>
    refine congrArg (·.1.result) (onStore_of_settings_error (L := L) ?_ dry)
    simp only [loaded, unread]
  | parseSettings read malformed =>
    refine congrArg (·.1.result) (onStore_of_settings_error (L := L) ?_ dry)
    simp only [loaded, checkSettings, read, malformed]
  | checkProtocol read parsed faulty =>
    refine congrArg (·.1.result) (onStore_of_settings_error (L := L) ?_ dry)
    simp only [loaded, checkSettings, read, parsed, faulty]
  | readCatalog configured unread =>
    have hs := (configured_iff L s config).mp configured
    refine congrArg (·.1.result) (onStore_of_catalog_error hs ?_ dry)
    simp only [loaded, unread]
  | parseCatalog configured read malformed =>
    have hs := (configured_iff L s config).mp configured
    refine congrArg (·.1.result) (onStore_of_catalog_error hs ?_ dry)
    simp only [loaded, checkCatalog, read, malformed]
  | @checkKinds settings catalog _ catalogued faulty =>
    refine congrArg (·.1.result) (onStore_of_generate_error catalogued ?_ dry)
    rcases Context.of_sound catalogued.configured.sound catalog.bufferKinds with
      ⟨e', hkinds, hof⟩ | ⟨ctx, hkinds, -⟩
    · rw [faulty] at hkinds
      cases hkinds
      rw [Catalog.generate, hof]
    · rw [faulty] at hkinds
      cases hkinds
  | @makeEntries settings catalog ctx i _ catalogued protocol kinds offends first =>
    refine congrArg (·.1.result) (onStore_of_generate_error catalogued ?_ dry)
    rw [Catalog.generate_of_context protocol kinds]
    exact Document.generate_error_iff.mpr ⟨i, offends, first⟩
  | makeDirectories real generated unmade =>
    subst real
    exact congrArg (·.1.result) (onStore_of_directories_error generated unmade)
  | write real generated made unwritten =>
    subst real
    exact congrArg (·.1.result) (onStore_of_write_error generated made unwritten)

/-! ## 5. What a run reports, and what it leaves -/

/-- A written document stands where the output leads, and all other files are as they were. -/
theorem stored_output (hw : answer (put L config settings document)
      (left (makeParents L config settings) s) = .ok ()) :
    let u := left (put L config settings document) (left (makeParents L config settings) s)
    ∃ place, L.locate u (outputFile config settings) = .ok place ∧
      L.file? u place = some document.toUTF8 ∧ ∀ q, q ≠ place → L.file? u q = L.file? s q := by
  obtain ⟨place, hplace, hcontent, hothers⟩ := L.file_written _ _ _ hw
  exact ⟨place, hplace, hcontent,
    fun q hq => (hothers q hq).trans (sameFiles_makeParents L config settings s q)⟩

/-- **A run reports the error of the stage that fails first**, and no other. A dry run leaves the state
    of the store as it is, and a run that fails leaves every file as it is. A run that does not fail has
    made the document of the catalog its settings name; if it is not dry, the document is now the content
    of the file its output leads to, and every other file is as it was. So it is over every lawful store,
    and over a tree of files in particular (`File.Tree.lawful`). -/
theorem run_stages (L : LawfulStore σ) (s : σ) (config : String) (dry : Bool) :
    let ran := onStore L.toStore s config dry
    (∀ e, ran.1.result = .error e ↔ ∃ stage, FailsAt L s config dry stage e) ∧
    (dry = true → ran.2 = s) ∧
    (∀ e, ran.1.result = .error e → L.SameFiles s ran.2) ∧
    ∀ report, ran.1.result = .ok report →
      ∃ settings catalog document, Generated L s config settings catalog document ∧
        report = ⟨settings.outputPath (Settings.directoryOf config), catalog.externs.length,
          document.utf8ByteSize, !dry⟩ ∧
        (dry = false → ∃ place, L.locate ran.2 report.output = .ok place ∧
          L.file? ran.2 place = some document.toUTF8 ∧
          ∀ q, q ≠ place → L.file? ran.2 q = L.file? s q) := by
  intro ran
  have hof : ∀ e, (∃ stage, FailsAt L s config dry stage e) → ran.1.result = .error e := by
    rintro e ⟨stage, h⟩
    exact result_of_failsAt h
  have hends : Ends L s config dry ran.1.result ran.2 := run_ends L s config dry
  generalize ran.1.result = result at hends hof ⊢
  generalize ran.2 = u at hends ⊢
  cases hends with
  | failed fails same untouched =>
    refine ⟨fun e => ⟨fun h => ?_, hof e⟩, untouched, fun _ _ => same, ?_⟩
    · cases h
      exact ⟨_, fails⟩
    · intro report h
      cases h
  | dry generated =>
    refine ⟨fun e => ⟨fun h => ?_, hof e⟩, fun _ => rfl, fun e h => ?_, ?_⟩
    · cases h
    · cases h
    rintro report ⟨⟩
    exact ⟨_, _, _, generated, rfl, fun hreal => by cases hreal⟩
  | written generated made wrote =>
    refine ⟨fun e => ⟨fun h => ?_, hof e⟩, fun hdry => ?_, fun e h => ?_, ?_⟩
    · cases h
    · cases hdry
    · cases h
    rintro report ⟨⟩
    exact ⟨_, _, _, generated, rfl, fun _ => stored_output wrote⟩

/-- A tree with settings and with a catalog of no functions. -/
def sampleTree : File.Tree :=
  ⟨["work"], [(["work", "c.toml"],
      .file "[codegen.paths]\ncatalog = \"c.json\"\noutput = \"out/glue.js\"\n".toUTF8),
    (["work", "c.json"], .file "\x7b\"functions\":[]\x7d".toUTF8)]⟩

/-- In an empty tree a run fails at its first stage, and in a tree with settings and a catalog it stores
    a document. -/
theorem run_stages_sample :
    (∃ stage, FailsAt File.Tree.lawful ⟨["work"], []⟩ "c.toml" false stage
      (.file "c.toml" .missing)) ∧
    ∃ report place document,
      (onStore File.Tree.store sampleTree "c.toml" false).1.result = .ok report ∧
      (onStore File.Tree.store sampleTree "c.toml" false).2.locate report.output = .ok place ∧
      (onStore File.Tree.store sampleTree "c.toml" false).2.file? place = some document := by
  have hmissing : (onStore File.Tree.store ⟨["work"], []⟩ "c.toml" false).1.result =
      .error (.file "c.toml" .missing) := by decide +kernel
  have hok : (onStore File.Tree.store sampleTree "c.toml" false).1.result.isOk = true := by
    decide +kernel
  obtain ⟨hfails, -⟩ := run_stages File.Tree.lawful ⟨["work"], []⟩ "c.toml" false
  refine ⟨(hfails _).mp hmissing, ?_⟩
  -- nothing else is evaluated: what is left holds of every tree on which the run ends well
  generalize sampleTree = t at hok ⊢
  obtain ⟨-, -, -, hstores⟩ := run_stages File.Tree.lawful t "c.toml" false
  cases hresult : (onStore File.Tree.store t "c.toml" false).1.result with
  | error e =>
    rw [hresult] at hok
    cases hok
  | ok report =>
    obtain ⟨-, -, document, -, -, hstored⟩ := hstores report hresult
    obtain ⟨place, hplace, hcontent, -⟩ := hstored rfl
    exact ⟨report, place, document.toUTF8, rfl, hplace, hcontent⟩

end Run

end HostGlue
