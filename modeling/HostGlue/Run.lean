import HostGlue.Catalog.Reading
import HostGlue.Document
import HostGlue.File.Store
import HostGlue.Settings

/-!
# A run

A run reads settings and a catalog, makes the document, and writes it unless it is dry. The first
stage that fails ends it, and nothing is written before all others have ended well. This file fixes

* `loadSettings` and `loadCatalog`, the two reading stages; settings are checked as they are loaded;
* `Run.run`, the stages in order, with a record for each that was completed;
* `Report`, what a run that ended well did.
-/

namespace HostGlue

/-- What a run that ended well did. -/
structure Report where
  output : String
  externs : Nat
  bytes : Nat
  written : Bool
  deriving DecidableEq

namespace Run

variable {m : Type → Type} [Monad m]

/-- The settings of a text, for a file of a name. -/
def checkSettings (path text : String) : Except GlueError Settings :=
  match Settings.ofToml text with
  | .error e => .error (.settings path text e)
  | .ok settings =>
    match settings.protocol.fault? with
    | some (setting, reason) =>
      .error (.invalidProtocol setting (settings.protocol.get setting) reason)
    | none => .ok settings

/-- The catalog of a text, for a file of a name. -/
def checkCatalog (path text : String) : Except GlueError Catalog :=
  match Catalog.ofJson text with
  | .error e => .error (.catalog path text e)
  | .ok catalog => .ok catalog

/-- What a text that is read from a file gives. -/
def load {α : Type} (store : File.Store m) (check : String → String → Except GlueError α)
    (path : String) : m (Except GlueError α) := do
  match ← store.readText path with
  | .error f => return .error (.file path f)
  | .ok text => return check path text

/-- The settings in a file. -/
def loadSettings (store : File.Store m) (path : String) : m (Except GlueError Settings) :=
  load store checkSettings path

/-- The catalog in a file. -/
def loadCatalog (store : File.Store m) (path : String) : m (Except GlueError Catalog) :=
  load store checkCatalog path

/-- Makes the directories above a path. -/
def makeAbove (store : File.Store m) (path : String) : m (Except File.Fault Unit) :=
  match File.Path.parent? path with
  | none => return .ok ()
  | some above => store.makeDirectories above

/-- Writes a document to a path, and makes the directories above it. -/
def writeDocument (store : File.Store m) (path text : String) : m (Except GlueError Unit) := do
  match ← makeAbove store path with
  | .error f => return .error (.file path f)
  | .ok () =>
    match ← store.write path text.toUTF8 with
    | .error f => return .error (.file path f)
    | .ok () => return .ok ()

/-- What a run leaves besides files: its records, and the report or the first error. -/
structure Outcome where
  log : List Log.Record
  result : Except GlueError Report

/-- The last stage: writes a document, or reports that it would be written. -/
def finish (store : File.Store m) (dry : Bool) (report : Report) (text : String)
    (log : List Log.Record) : m Outcome := do
  if dry then return ⟨log ++ [.dryRun report.output], .ok report⟩
  else
    match ← writeDocument store report.output text with
    | .error e => return ⟨log, .error e⟩
    | .ok () =>
      return ⟨log ++ [.wrote report.output report.bytes], .ok { report with written := true }⟩

/-- Makes the document of a catalog and finishes. -/
def generate (store : File.Store m) (dry : Bool) (protocol : Protocol) (output : String)
    (catalog : Catalog) (log : List Log.Record) : m Outcome := do
  let log := log ++ [.loadedCatalog catalog.externs.length catalog.bufferKinds.length]
  let (records, document) := catalog.generate protocol
  match document with
  | .error e => return ⟨log ++ records, .error e⟩
  | .ok text =>
    finish store dry ⟨output, catalog.externs.length, text.utf8ByteSize, false⟩ text
      (log ++ records)

/-- A run with the settings in a file. -/
def run (store : File.Store m) (config : String) (dry : Bool) : m Outcome := do
  match ← loadSettings store config with
  | .error e => return ⟨[], .error e⟩
  | .ok settings =>
    let directory := Settings.directoryOf config
    let path := settings.catalogPath directory
    let log := [.loadingCatalog path]
    match ← loadCatalog store path with
    | .error e => return ⟨log, .error e⟩
    | .ok catalog =>
      generate store dry settings.protocol (settings.outputPath directory) catalog log

end Run

end HostGlue
