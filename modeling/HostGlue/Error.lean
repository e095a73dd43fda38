import HostGlue.Ty.Tag
import HostGlue.Catalog
import HostGlue.Protocol
import HostGlue.File.Store
import HostGlue.Shape

/-!
# Why no document is made

Making a document is all or nothing: any error means that there is none. An error is a cause with
the names that point to it (`GlueError`); its wording is in one place (`GlueError.message`), and
some errors have a cause with a wording of its own (`GlueError.source?`).

What is said of a text that cannot be read is up to whoever reads it: it may show the place or a line of
the text. Messages are given that wording (`Wording`), and what is known of them holds whatever it is.
-/

namespace HostGlue

/-- What is wrong with the status parameter of an ordinary entry. -/
inductive StatusFault where
  | notLeading
  | notIntegral32 (param : String) (ty : Ty)
  | furtherOutput (param : String)
  deriving DecidableEq

/-- The wording of a status fault. -/
def StatusFault.text : StatusFault → String
  | .notLeading => "first parameter must be an out status parameter"
  | .notIntegral32 param ty =>
    "status parameter " ++ param ++ " must be i32 or u32, found " ++ ty.text
  | .furtherOutput param => "only the first parameter may be out, found out parameter " ++ param

/-- What is wrong with the callbacks of the initializer. -/
inductive InitializerFault where
  | tooFewParams (found : Nat)
  | notCallback (param : String) (ty : Ty)
  | badArgument (pointer argument : String) (objection : Objection)
  deriving DecidableEq

/-- The wording of an initializer fault. -/
def InitializerFault.text : InitializerFault → String
  | .tooFewParams found =>
    "expected at least 3 callback parameters, found " ++ Digits.ofInt found ++ " parameters"
  | .notCallback param ty => "parameter " ++ param ++ " must be a callback, found " ++ ty.text
  | .badArgument pointer argument objection =>
    "callback " ++ pointer ++ " argument " ++ argument ++ ": " ++ objection.text

/-- Where a name was given. -/
inductive Place where
  | bufferKinds
  | entry (function owner : String)
  deriving DecidableEq

/-- The wording of a place. -/
def Place.text : Place → String
  | .bufferKinds => "buffer kinds"
  | .entry function owner => function ++ " in " ++ owner

/-- Why no document is made. -/
inductive GlueError where
  | unsupportedType (function owner : String) (cause : Untagged)
  | malformedStatus (function owner : String) (fault : StatusFault)
  | badInitializer (function owner : String) (fault : InitializerFault)
  | invalidIdentifier (name : String) (place : Place) (objection : Objection)
  | duplicateFunction (name : String)
  | duplicateBufferKind (code : Int32) (first second : String)
  | invalidProtocol (setting : Protocol.Setting) (value : String) (reason : Protocol.Reason)
  | unbalancedScope (depth : Nat)
  | file (path : String) (cause : File.Fault)
  | settings (path text : String) (cause : Toml.Error)
  | catalog (path text : String) (cause : Json.Error)
  deriving DecidableEq

/-- What is said of a text of either format that is not read for some cause. -/
structure Wording where
  settings : String → Toml.Error → String
  catalog : String → Json.Error → String

namespace GlueError

/-- The wording of an error. -/
def message (w : Wording) : GlueError → String
  | .unsupportedType function owner cause =>
    "unsupported extern method " ++ function ++ " in " ++ owner ++ ": " ++ cause.message
  | .malformedStatus function owner fault =>
    "unsupported extern method " ++ function ++ " in " ++ owner ++ ": " ++ fault.text
  | .badInitializer function owner fault =>
    "bad initialize signature for " ++ function ++ " in " ++ owner ++ ": " ++ fault.text
  | .invalidIdentifier name place objection =>
    "invalid identifier `" ++ name ++ "` in " ++ place.text ++ ": " ++ objection.text
  | .duplicateFunction name => "duplicate glue function " ++ name
  | .duplicateBufferKind code first second =>
    "duplicate buffer kind code " ++ Digits.ofInt code.toInt ++
      " (" ++ first ++ " and " ++ second ++ ")"
  | .invalidProtocol setting value reason =>
    "invalid protocol setting " ++ setting.name ++ " = " ++ Text.Shown.quoted value ++
      ": " ++ reason.text
  | .unbalancedScope depth =>
    "unbalanced scope: " ++ Digits.ofInt depth ++ " block(s) left open"
  | .file path cause => "I/O error on " ++ path ++ ": " ++ cause.message
  | .settings path text cause =>
    "failed to parse config " ++ path ++ ": " ++ w.settings text cause
  | .catalog path text cause => "failed to parse catalog " ++ path ++ ": " ++ w.catalog text cause

/-- The wording of the cause of an error, where it has one of its own. -/
def source? (w : Wording) : GlueError → Option String
  | .unsupportedType _ _ cause => some cause.message
  | .file _ cause => some cause.message
  | .settings _ text cause => some (w.settings text cause)
  | .catalog _ text cause => some (w.catalog text cause)
  | _ => none

/-- An error of an ordinary entry or the initializer at a type that has no tag. -/
def untagged (e : Extern) (cause : Untagged) : GlueError :=
  .unsupportedType e.name e.owner cause

/-- An error at a name of an entry. -/
def badName (e : Extern) (name : String) (objection : Objection) : GlueError :=
  .invalidIdentifier name (.entry e.name e.owner) objection

end GlueError

end HostGlue
