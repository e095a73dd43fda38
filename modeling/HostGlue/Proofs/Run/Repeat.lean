import HostGlue.Proofs.Run.Stages

/-!
# Two runs

Runs over a lawful store are compared: a dry one with the real one in the same state, and a real one
with the next one, which finds the state that the first has left.

* `Generated.again`: what the stages up to the document find, they find again where the two files they
  read are as they were;
* `written_again`: directories that were made and a file that was stored are made and stored again, and
  no file changes;
* **`dry_run_predicts`: the error of a dry run is the error of the real one**, its report is the report
  of the real one unless the output cannot be written, and the next real run reports the same and
  changes no file, if the output is neither of the files that are read.
-/

namespace HostGlue.Run

open File (LawfulStore answer left)

variable {σ : Type} {L : LawfulStore σ} {s u : σ} {config : String} {settings : Settings}
  {catalog : Catalog} {document : String}

/-! ## 1. The same files are read again -/

/-- The document is made again where the files of the settings and of the catalog are as they were. -/
theorem Generated.again (h : Generated L s config settings catalog document) (hleads : L.Leads s u)
    (hconfig : ∀ place, L.locate s config = .ok place → L.file? u place = L.file? s place)
    (hcatalog : ∀ place, L.locate s (catalogFile config settings) = .ok place →
      L.file? u place = L.file? s place) :
    Generated L u config settings catalog document := by
  obtain ⟨⟨⟨⟨settingsText, hread, hparse⟩, hsound⟩, catalogText, hread', hparse'⟩, hmade⟩ := h
  exact ⟨⟨⟨⟨settingsText, L.text_of_leads hleads hread hconfig, hparse⟩, hsound⟩,
    catalogText, L.text_of_leads hleads hread' hcatalog, hparse'⟩, hmade⟩

/-! ## 2. The same file is written again -/

/-- Paths lead on where they led, behind directories that were made and a file that was written. -/
theorem leads_put
    (wrote : answer (put L config settings document) (left (makeParents L config settings) s) = .ok ()) :
    L.Leads s (left (put L config settings document) (left (makeParents L config settings) s)) := by
  intro path place h
  refine L.locate_written _ _ _ path place wrote ?_
  unfold makeParents makeAbove
  cases File.Path.parent? (outputFile config settings) with
  | none => exact h
  | some above => exact L.locate_made s above path place h

/-- **A document that was written is written again**: the directories above it are there, and no file
    changes. -/
theorem written_again (made : answer (makeParents L config settings) s = .ok ())
    (wrote : answer (put L config settings document) (left (makeParents L config settings) s) = .ok ()) :
    let u := left (put L config settings document) (left (makeParents L config settings) s)
    answer (makeParents L config settings) u = .ok () ∧ left (makeParents L config settings) u = u ∧
      answer (put L config settings document) u = .ok () ∧
      L.SameFiles u (left (put L config settings document) u) := by
  have hagain : answer (put L config settings document)
      (left (put L config settings document) (left (makeParents L config settings) s)) = .ok () ∧ _ :=
    L.written_again _ _ _ wrote
  refine and_assoc.mp ⟨?_, hagain⟩
  unfold makeParents makeAbove at made wrote ⊢
  cases hp : File.Path.parent? (outputFile config settings) with
  | none => exact ⟨rfl, rfl⟩
  | some above =>
    rw [hp] at made wrote
    exact L.made_again s above _ _ made wrote

/-- A run over the state that a real run has left does the same, and no file changes. -/
theorem onStore_again (generated : Generated L s config settings catalog document)
    (made : answer (makeParents L config settings) s = .ok ())
    (wrote : answer (put L config settings document) (left (makeParents L config settings) s) = .ok ())
    (hu : u = left (put L config settings document) (left (makeParents L config settings) s))
    (hconfig : L.locate s config ≠ L.locate u (outputFile config settings))
    (hcatalog : L.locate s (catalogFile config settings) ≠
      L.locate u (outputFile config settings)) :
    (onStore L.toStore u config false).1.result =
        .ok (reportOf config settings catalog document true) ∧
      L.SameFiles u (onStore L.toStore u config false).2 := by
  subst hu
  obtain ⟨place, hplace, -, hothers⟩ := stored_output wrote
  have hagain := generated.again (leads_put wrote)
    (fun q hq => hothers q fun hqp => hconfig (by rw [hq, hplace, hqp]))
    (fun q hq => hothers q fun hqp => hcatalog (by rw [hq, hplace, hqp]))
  obtain ⟨hmade, hleft, hput, hsame⟩ := written_again made wrote
  rw [onStore_of_write hagain hmade (by rw [hleft, hput]), hleft]
  exact ⟨rfl, hsame⟩

/-! ## 3. Prediction and repetition -/

/-- The stages a dry run reaches fail in a real run as well. -/
theorem FailsAt.real {stage : Stage} {e : GlueError} (h : FailsAt L s config true stage e) :
    FailsAt L s config false stage e := by
  cases h with
  | readSettings unread => exact .readSettings unread
  | parseSettings read malformed => exact .parseSettings read malformed
  | checkProtocol read parsed faulty => exact .checkProtocol read parsed faulty
  | readCatalog configured unread => exact .readCatalog configured unread
  | parseCatalog configured read malformed => exact .parseCatalog configured read malformed
  | checkKinds catalogued faulty => exact .checkKinds catalogued faulty
  | makeEntries catalogued protocol kinds offends first =>
    exact .makeEntries catalogued protocol kinds offends first
  | makeDirectories real => cases real
  | write real => cases real

/-- What a real run does where a document is made: it writes it, or it fails at the output and leaves
    every file as it is. -/
theorem onStore_real (h : Generated L s config settings catalog document) :
    (onStore L.toStore s config false).1.result =
        .ok (reportOf config settings catalog document true) ∨
      (∃ f, (onStore L.toStore s config false).1.result =
          .error (.file (outputFile config settings) f)) ∧
        L.SameFiles s (onStore L.toStore s config false).2 := by
  have hsame := sameFiles_makeParents L config settings s
  cases hm : answer (makeParents L config settings) s with
  | error f =>
    rw [onStore_of_directories_error h hm]
    exact .inr ⟨⟨f, rfl⟩, hsame⟩
  | ok =>
    cases hw : answer (put L config settings document) (left (makeParents L config settings) s) with
    | error f =>
      rw [onStore_of_write_error h hm hw]
      exact .inr ⟨⟨f, rfl⟩, fun q => (L.file_unwritten _ _ _ f q hw).trans (hsame q)⟩
    | ok => exact .inl (congrArg (·.1.result) (onStore_of_write h hm hw))

/-- **A dry run predicts the real one**, over every lawful store. Its error is the error of the real
    run. If it reports, the real run reports the same but that the output is written, or it fails at the
    output and leaves every file as it is. **And a real run that is repeated** reports the same and leaves
    every file as it is, if the output is not where the settings or the catalog are read. -/
theorem dry_run_predicts (L : LawfulStore σ) (s : σ) (config : String) :
    let dry := onStore L.toStore s config true
    let real := onStore L.toStore s config false
    (∀ e, dry.1.result = .error e → real.1.result = .error e) ∧
    (∀ report, dry.1.result = .ok report →
      real.1.result = .ok { report with written := true } ∨
        (∃ f, real.1.result = .error (.file report.output f)) ∧ L.SameFiles s real.2) ∧
    ∀ report, real.1.result = .ok report →
      L.locate s config ≠ L.locate real.2 report.output →
      (∀ settings, Configured L s config settings →
        L.locate s (settings.catalogPath (Settings.directoryOf config)) ≠
          L.locate real.2 report.output) →
      let again := onStore L.toStore real.2 config false
      again.1.result = .ok report ∧ L.SameFiles real.2 again.2 := by
  intro dry real
  refine ⟨fun e h => ?_, fun report h => ?_, fun report h hconfig hcatalog => ?_⟩
  · have hends : Ends L s config true dry.1.result dry.2 := run_ends L s config true
    generalize dry.1.result = result at h hends
    generalize dry.2 = u at hends
    cases hends with
    | failed fails =>
      cases h
      exact result_of_failsAt fails.real
    | dry => cases h
  · have hends : Ends L s config true dry.1.result dry.2 := run_ends L s config true
    generalize dry.1.result = result at h hends
    generalize dry.2 = u at hends
    cases hends with
    | failed => cases h
    | dry generated =>
      cases h
      exact onStore_real generated
  · have hends : Ends L s config false real.1.result real.2 := run_ends L s config false
    generalize real.1.result = result at h hends
    generalize real.2 = u at hends hconfig hcatalog ⊢
    cases hends with
    | failed => cases h
    | written generated made wrote =>
      cases h
      exact onStore_again generated made wrote rfl hconfig (hcatalog _ generated.catalogued.configured)

/-- A run in a tree with settings and a catalog, and the next one. -/
theorem dry_run_predicts_sample :
    let real := onStore File.Tree.store sampleTree "c.toml" false
    let again := onStore File.Tree.store real.2 "c.toml" false
    real.1.result = .ok ⟨"out/glue.js", 0, 122, true⟩ ∧ again.1.result = real.1.result ∧
      File.Tree.lawful.SameFiles real.2 again.2 := by
  have hresult : (onStore File.Tree.store sampleTree "c.toml" false).1.result =
      .ok ⟨"out/glue.js", 0, 122, true⟩ := by decide +kernel
  have hsettings : loaded File.Tree.lawful sampleTree checkSettings "c.toml" =
      .ok ⟨"c.json", "out/glue.js", {}⟩ := by decide +kernel
  have hplaces : sampleTree.locate "c.toml" ≠
        (onStore File.Tree.store sampleTree "c.toml" false).2.locate "out/glue.js" ∧
      sampleTree.locate (catalogFile "c.toml" ⟨"c.json", "out/glue.js", {}⟩) ≠
        (onStore File.Tree.store sampleTree "c.toml" false).2.locate "out/glue.js" := by
    decide +kernel
  generalize sampleTree = t at hresult hsettings hplaces ⊢
  obtain ⟨-, -, hagain⟩ := dry_run_predicts File.Tree.lawful t "c.toml"
  have hcatalog : ∀ settings, Configured File.Tree.lawful t "c.toml" settings →
      t.locate (catalogFile "c.toml" settings) ≠
        (onStore File.Tree.store t "c.toml" false).2.locate "out/glue.js" := by
    intro settings h
    cases ((configured_iff File.Tree.lawful t "c.toml").mp h).symm.trans hsettings
    exact hplaces.2
  obtain ⟨hsame, hfiles⟩ := hagain _ hresult hplaces.1 hcatalog
  exact ⟨hresult, hsame.trans hresult.symm, hfiles⟩

end HostGlue.Run
