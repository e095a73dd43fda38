import HostGlue.Command.Plain

/-!
# The program

The command line over the files of the machine. Everything that is decided is decided elsewhere;
here files are read and written, and what a run answers is printed.
-/

namespace HostGlue

/-- The fault an error of the machine is. -/
def File.Fault.ofMachine : IO.Error → File.Fault
  | .noFileOrDirectory _ _ _ => .missing
  | .alreadyExists _ _ _ => .exists
  | .inappropriateType _ code _ => if code = 21 then .isDirectory else .notDirectory
  | .invalidArgument _ 36 _ => .nameTooLong
  | e => .other (toString e)

/-- An action on files, with its error as a fault. -/
def File.attempt {α : Type} (action : IO α) : IO (Except File.Fault α) := do
  try
    return .ok (← action)
  catch e =>
    return .error (File.Fault.ofMachine e)

/-- The operations of a run over the files of the machine. -/
def File.machine : File.Store IO where
  read path := File.attempt (IO.FS.readBinFile path)
  makeDirectories path := File.attempt (if path = "" then pure () else IO.FS.createDirAll path)
  write path content := File.attempt (IO.FS.writeBinFile path content)

end HostGlue

/-- Runs the program. -/
def main (args : List String) : IO UInt32 := do
  let output ← HostGlue.Command.runProgram .plain HostGlue.File.machine args
  IO.eprint output.err
  IO.print output.out
  return output.exit.toUInt32
