import HostGlue.Decimal.Shortest
import HostGlue.File.Path
import HostGlue.Protocol
import HostGlue.Toml.Document
import HostGlue.Shape

/-!
# Settings

A settings document names the catalog and the output, seen from its own directory, and may change
the protocol. This file fixes

* `Settings` and the two paths of a run (`Settings.catalogPath`, `Settings.outputPath`);
* the records of a settings document. The document itself is read by name only; its tables may also
  be given as arrays, by position. Names that are not known are passed over;
* `Settings.ofToml`, which reads a text.
-/

namespace HostGlue

/-- What a settings document says. -/
structure Settings where
  catalog : String
  output : String
  protocol : Protocol
  deriving DecidableEq

namespace Settings

/-- The directory of a settings file. -/
def directoryOf (config : String) : String :=
  (File.Path.parent? config).getD "."

/-- Where the catalog is, for settings in a directory. -/
def catalogPath (s : Settings) (directory : String) : String :=
  File.Path.join directory s.catalog

/-- Where the output goes, for settings in a directory. -/
def outputPath (s : Settings) (directory : String) : String :=
  File.Path.join directory s.output

end Settings

namespace Toml

open Shape (Found Wanted Problem Record)

/-! ## 1. Values of the wrong shape -/

/-- Numbers are always shown positionally, and a tie goes to the greater digit. -/
def layout : Decimal.Notation where
  tie := .up
  positionalFrom := none
  positionalBelow := none

/-- The text of a number with a fraction or an exponent. -/
def FloatValue.text : FloatValue → String
  | .finite negative b => layout.text negative b
  | .infinite false => "inf"
  | .infinite true => "-inf"
  | .notANumber => "NaN"

/-- What a value is found to be. A date or a time is found as a map. -/
def Value.found : Value → Found
  | .text s => .text s
  | .integer n => .integer n
  | .float x => .float x.text
  | .bool b => .bool b
  | .moment => .map
  | .array _ => .sequence
  | .table _ => .map

/-- The error at a value that is not of the wanted shape. -/
def mismatch (wanted : Wanted) (v : Value) : Error :=
  .shape (.mismatch v.found wanted)

/-! ## 2. Readers -/

variable {α δ : Type}

/-- Reads a text. -/
def readText : Value → Except Error String
  | .text s => .ok s
  | v => .error (mismatch .text v)

/-- Fills a draft from the entries of a table. -/
def readEntries (r : Record Value Error δ) : List (String × Value) → δ → Except Error δ
  | [], d => .ok d
  | (name, v) :: es, d =>
    match r.field? name with
    | none => readEntries r es d
    | some field => do
      let d ← field.fill v d
      readEntries r es d

/-- Fills a draft from a table by name, or from an array by position. Elements behind the last field
    are passed over, and a date or a time has no field of a known name. -/
def readRecord (r : Record Value Error δ) (draft : δ) : Value → Except Error δ
  | .table entries => readEntries r entries draft
  | .array items => do
    let (d, _) ← r.fillInOrder .shape none items draft
    return d
  | .moment => .ok draft
  | v => .error (mismatch (.record r.name) v)

/-- The value of a field that a document must give. -/
def require (name : String) (a : Option α) : Except Error α :=
  match Shape.require name a with
  | .ok a => .ok a
  | .error p => .error (.shape p)

/-! ## 3. Records -/

/-- The two paths of a settings document, while it is being read. -/
structure PathsDraft where
  catalog : Option String := none
  output : Option String := none

/-- The fields of the paths. -/
def pathsRecord : Record Value Error PathsDraft where
  name := "CodegenPaths"
  fields :=
    [⟨"catalog", true, (·.catalog.isSome), fun v d => do
        let s ← readText v
        return { d with catalog := some s }⟩,
     ⟨"output", true, (·.output.isSome), fun v d => do
        let s ← readText v
        return { d with output := some s }⟩]

/-- Reads the two paths. -/
def readPaths (v : Value) : Except Error (String × String) := do
  let d ← readRecord pathsRecord {} v
  let catalog ← require "catalog" d.catalog
  let output ← require "output" d.output
  return (catalog, output)

/-- A field of the protocol. It may be left out. -/
def protocolField (setting : Protocol.Setting) (put : String → Protocol → Protocol) :
    Shape.Field Value Error Protocol :=
  ⟨setting.name, false, fun _ => false, fun v p => do
    let s ← readText v
    return put s p⟩

/-- The fields of the protocol. A draft begins with the standard values. -/
def protocolRecord : Record Value Error Protocol where
  name := "ProtocolConfig"
  fields :=
    [protocolField .instanceKey fun s p => { p with instanceKey := s },
     protocolField .constructorKey fun s p => { p with constructorKey := s },
     protocolField .initializeEntry fun s p => { p with initializeEntry := s },
     protocolField .stringDecoder fun s p => { p with stringDecoder := s },
     protocolField .dynCall fun s p => { p with dynCall := s }]

/-- Reads a protocol. -/
def readProtocol (v : Value) : Except Error Protocol :=
  readRecord protocolRecord {} v

/-- The settings while they are being read. -/
structure SettingsDraft where
  paths : Option (String × String) := none
  protocol : Option Protocol := none

/-- The fields of the settings. -/
def settingsRecord : Record Value Error SettingsDraft where
  name := "CodegenConfig"
  fields :=
    [⟨"paths", true, (·.paths.isSome), fun v d => do
        let paths ← readPaths v
        return { d with paths := some paths }⟩,
     ⟨"protocol", false, (·.protocol.isSome), fun v d => do
        let p ← readProtocol v
        return { d with protocol := some p }⟩]

/-- Reads the settings. -/
def readSettings (v : Value) : Except Error Settings := do
  let d ← readRecord settingsRecord {} v
  let paths ← require "paths" d.paths
  return ⟨paths.1, paths.2, d.protocol.getD {}⟩

/-- The whole document while it is being read. -/
structure RootDraft where
  settings : Option Settings := none

/-- The fields of the document. -/
def rootRecord : Record Value Error RootDraft where
  name := "GlueConfig"
  fields :=
    [⟨"codegen", true, (·.settings.isSome), fun v d => do
        let s ← readSettings v
        return { d with settings := some s }⟩]

end Toml

/-- The settings a TOML text gives. -/
def Settings.ofToml (text : String) : Except Toml.Error Settings :=
  match Toml.documentOf? text with
  | none => .error .malformed
  | some document => do
    let d ← Toml.readRecord Toml.rootRecord {} document.value
    Toml.require "codegen" d.settings

end HostGlue
