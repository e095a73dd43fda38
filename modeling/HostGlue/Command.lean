import HostGlue.Run
import HostGlue.Text.Split

/-!
# The command line

The program has one command, `generate`. This file fixes

* `Command.parse?`, which reads the arguments one by one; the first one that does not fit refuses
  them all, a request for help or for the version ends reading, and no flag may come twice at the same
  level;
* `Console`, the words that are not the program's own: those of its log, of its help, and of the
  readers of texts;
* `Command.runProgram`, which carries out what is asked for and answers what is printed and the exit
  code.
-/

namespace HostGlue.Command

/-! ## 1. Arguments -/

/-- What the program tells of itself. -/
inductive Notice where
  | help
  | version
  deriving DecidableEq

/-- What the arguments ask for. -/
inductive Request where
  | notice (n : Notice)
  | generate (config : String) (dry verbose : Bool)
  deriving DecidableEq

/-- The name of the settings file where none is given. -/
def defaultConfig : String := "jsglue.config.toml"

/-- The options of the command, as far as they were read. -/
structure Options where
  config : Option String := none
  dry : Bool := false
  verbose : Bool := false
  deriving DecidableEq

/-- A text that may be the value of an option in an argument of its own: not empty, and not an
    option itself. A lone hyphen may. -/
def isValue (arg : String) : Bool :=
  arg != "" && (arg == "-" || arg.toList.head? != some '-')

/-- The value in an argument that gives an option and its value. -/
def configValue? (arg : String) : Option String :=
  let name := "--config=".toList
  if arg.toList.take name.length = name then some (String.ofList (arg.toList.drop name.length))
  else none

/-- Takes a settings file, which may be given once and must have a name. -/
def Options.setConfig (o : Options) (config : String) : Option Options :=
  if config = "" || o.config.isSome then none else some { o with config := some config }

/-- Takes the flag for a dry run, which may be given once. -/
def Options.setDry (o : Options) : Option Options :=
  if o.dry then none else some { o with dry := true }

/-- Takes the flag for logging, which may be given once. -/
def Options.setVerbose (o : Options) : Option Options :=
  if o.verbose then none else some { o with verbose := true }

/-- Whether one-letter flags behind the command ask for help. The letters behind that are not read. -/
def asksHelp (verbose : Bool) : List Char → Bool
  | '-' :: 'h' :: _ => true
  | '-' :: 'v' :: 'h' :: _ => !verbose
  | _ => false

/-- Reads the arguments behind the command: the options, or a request for help. Two hyphens end the
    options, and nothing may follow them. -/
def parseOptions? (o : Options) : List String → Option (Sum Options Notice)
  | [] => some (.inl o)
  | "--" :: rest => if rest.isEmpty then some (.inl o) else none
  | "--config" :: value :: rest =>
    if isValue value then do
      let o ← o.setConfig value
      parseOptions? o rest
    else none
  | arg :: rest =>
    if arg = "--dry-run" then do
      let o ← o.setDry
      parseOptions? o rest
    else if arg = "--verbose" || arg = "-v" then do
      let o ← o.setVerbose
      parseOptions? o rest
    else if arg = "--help" || asksHelp o.verbose arg.toList then some (.inr .help)
    else
      match configValue? arg with
      | some value => do
        let o ← o.setConfig value
        parseOptions? o rest
      | none => none

/-- Reads a group of one-letter flags in front of the command: whether logging is asked for, or a
    request for help or for the version. -/
def parseLetters? (verbose : Bool) : List Char → Option (Sum Bool Notice)
  | [] => some (.inl verbose)
  | 'v' :: rest => if verbose then none else parseLetters? true rest
  | 'h' :: _ => some (.inr .help)
  | 'V' :: _ => some (.inr .version)
  | _ :: _ => none

/-- Whether there is help on what is named: on the program, or on one of its commands. -/
def hasHelp : List String → Bool
  | [] | ["generate"] | ["help"] => true
  | _ => false

/-- Reads all arguments. -/
def parseFrom? (verbose : Bool) : List String → Option Request
  | [] => none
  | arg :: rest =>
    if arg = "generate" then
      match parseOptions? {} rest with
      | some (.inl o) => some (.generate (o.config.getD defaultConfig) o.dry (verbose || o.verbose))
      | some (.inr n) => some (.notice n)
      | none => none
    else if arg = "help" then (if hasHelp rest then some (.notice .help) else none)
    else if arg = "--help" then some (.notice .help)
    else if arg = "--version" then some (.notice .version)
    else if arg = "--verbose" then (if verbose then none else parseFrom? true rest)
    else
      match arg.toList with
      | '-' :: c :: letters =>
        match parseLetters? verbose (c :: letters) with
        | some (.inl verbose) => parseFrom? verbose rest
        | some (.inr n) => some (.notice n)
        | none => none
      | _ => none

/-- What the arguments ask for, or nothing if they cannot be understood. -/
def parse? (args : List String) : Option Request :=
  parseFrom? false args

/-! ## 2. Consoles -/

/-- The words that are not the program's own: the wording of the readers of texts, the help and what is
    said of arguments that cannot be understood, and the text that is logged for records. The
    environment may choose the records itself. -/
structure Console extends Wording where
  help : List String → String
  usage : List String → String
  filter : Option (Log.Record → Bool)
  log : List Log.Record → String

/-- Whether a record is logged where the environment does not choose: at the level that is asked for
    all are, and without it those that warn. -/
def isLogged (verbose : Bool) (r : Log.Record) : Bool :=
  match r.level with
  | .info | .debug => verbose

/-- What is logged of records. -/
def Console.logged (c : Console) (verbose : Bool) (records : List Log.Record) : String :=
  c.log (records.filter (c.filter.getD (isLogged verbose)))

/-! ## 3. Execution -/

/-- What the program prints to its two streams, and its exit code. -/
structure Output where
  exit : Nat
  out : String
  err : String
  deriving DecidableEq

/-- The name and version of the program. -/
def versionText : String := "jsglue 0.1.0\n"

/-- The line for a run that ended well. -/
def reportText (r : Report) : String :=
  if r.written then
    "jsglue: wrote " ++ Digits.ofInt r.externs ++ " glue functions to " ++ r.output ++
      " (" ++ Digits.ofInt r.bytes ++ " bytes)\n"
  else
    "jsglue: " ++ Digits.ofInt r.externs ++ " glue functions OK (" ++
      Digits.ofInt r.bytes ++ " bytes, not written)\n"

/-- A text with the lines behind its first one indented. -/
def hanging (indent text : String) : String :=
  ("\n" ++ indent).intercalate ((Text.split '\n' text.toList).map String.ofList)

/-- The causes of a failure: one alone, or a numbered list. -/
def causesText (w : Wording) (e : GlueError) : String :=
  match e.source? w with
  | none => "    " ++ hanging "    " (e.message w)
  | some source =>
    "    0: " ++ hanging "       " (e.message w) ++ "\n    1: " ++ hanging "       " source

/-- The report of a run that failed. -/
def failureText (w : Wording) (config : String) (e : GlueError) : String :=
  "Error: generation failed for " ++ config ++ "\n\nCaused by:\n" ++ causesText w e ++ "\n"

/-- Tells what a run came to. Its log is printed in front of the report of a failure. -/
def tell (c : Console) (config : String) (dry verbose : Bool) (outcome : Run.Outcome) : Output :=
  let log := c.logged verbose (.invocation config dry :: outcome.log)
  match outcome.result with
  | .ok report => ⟨0, reportText report, log⟩
  | .error e => ⟨1, "", log ++ failureText c.toWording config e⟩

/-- Runs the program on its arguments. Arguments that cannot be understood have an exit code of
    their own. -/
def runProgram {m : Type → Type} [Monad m] (c : Console) (store : File.Store m)
    (args : List String) : m Output :=
  match parse? args with
  | none => return ⟨2, "", c.usage args⟩
  | some (.notice .help) => return ⟨0, c.help args, ""⟩
  | some (.notice .version) => return ⟨0, versionText, ""⟩
  | some (.generate config dry verbose) => do
    let outcome ← Run.run store config dry
    return tell c config dry verbose outcome

end HostGlue.Command
