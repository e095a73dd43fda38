import HostGlue.Digits
import HostGlue.Text.Visible

/-!
# Log records

What a run reports on its way, one record per stage that was completed or function that was
accepted. A record has a level and a wording (`Record.level`, `Record.message`).
-/

namespace HostGlue.Log

/-- The levels in use. -/
inductive Level where
  | info
  | debug
  deriving DecidableEq

/-- The name of a level. -/
def Level.name : Level → String
  | .info => "INFO"
  | .debug => "DEBUG"

/-- One record. -/
inductive Record where
  | invocation (config : String) (dry : Bool)
  | loadingCatalog (path : String)
  | loadedCatalog (externs kinds : Nat)
  | generating (externs : Nat)
  | emittingOrdinary (name : String) (params : Nat)
  | emittingInitializer (name : String) (signatures : List String)
  | dryRun (path : String)
  | wrote (path : String) (bytes : Nat)
  deriving DecidableEq

/-- The level of a record. -/
def Record.level : Record → Level
  | .invocation _ _ => .debug
  | .emittingOrdinary _ _ => .debug
  | .emittingInitializer _ _ => .debug
  | _ => .info

/-- A list of texts between brackets. -/
def shownList (texts : List String) : String :=
  "[" ++ ", ".intercalate (texts.map Text.Shown.quoted) ++ "]"

/-- The wording of a record. -/
def Record.message : Record → String
  | .invocation config dry =>
    "config: " ++ config ++ ", dry run: " ++ (if dry then "true" else "false")
  | .loadingCatalog path => "loading catalog " ++ path
  | .loadedCatalog externs kinds =>
    "  loaded " ++ Digits.ofInt externs ++ " functions, " ++ Digits.ofInt kinds ++
      " buffer kinds"
  | .generating externs => "generating glue for " ++ Digits.ofInt externs ++ " functions"
  | .emittingOrdinary name params =>
    "emitting glue for " ++ name ++ " (" ++ Digits.ofInt params ++ " params)"
  | .emittingInitializer name signatures =>
    "emitting initializer " ++ name ++ " with signatures " ++ shownList signatures
  | .dryRun path => "dry run: not writing " ++ path
  | .wrote path bytes => "wrote " ++ path ++ " (" ++ Digits.ofInt bytes ++ " bytes)"

end HostGlue.Log
