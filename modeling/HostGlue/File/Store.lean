/-!
# What a run needs of a file store

The three operations of a run on files. They are the same for the files of a machine and for a tree
of files in memory, so a run is written once, over any of the two. This file fixes

* `Fault`, why an operation failed, with the wording a diagnostic gives it;
* `Store`, the operations.
-/

namespace HostGlue.File

/-! ## 1. Faults -/

/-- Why an operation on a file failed. -/
inductive Fault where
  | missing
  | exists
  | isDirectory
  | notDirectory
  | nameTooLong
  | notText
  | badName
  | other (text : String)
  deriving DecidableEq

/-- The wording of a fault. -/
def Fault.message : Fault → String
  | .missing => "No such file or directory (os error 2)"
  | .exists => "File exists (os error 17)"
  | .isDirectory => "Is a directory (os error 21)"
  | .notDirectory => "Not a directory (os error 20)"
  | .nameTooLong => "File name too long (os error 36)"
  | .notText => "stream did not contain valid UTF-8"
  | .badName => "file name contained an unexpected NUL byte"
  | .other text => text

/-! ## 2. Operations -/

/-- The operations on files. Making a directory makes the missing ones above it, and does nothing to
    one that is there. -/
structure Store (m : Type → Type) where
  read : String → m (Except Fault ByteArray)
  makeDirectories : String → m (Except Fault Unit)
  write : String → ByteArray → m (Except Fault Unit)

/-- The text of a file. -/
def Store.readText {m : Type → Type} [Monad m] (store : Store m) (path : String) :
    m (Except Fault String) := do
  match ← store.read path with
  | .error f => return .error f
  | .ok bytes =>
    match String.fromUTF8? bytes with
    | some text => return .ok text
    | none => return .error .notText

end HostGlue.File
