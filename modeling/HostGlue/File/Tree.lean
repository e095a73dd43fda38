import HostGlue.File.Path
import HostGlue.File.Store

/-!
# Trees of files

A tree of files in memory, with a working directory, where relative paths begin; the others begin at
the root. This file fixes

* `Tree`: directories and files under the names that lead to them from the root; the working directory
  and the directories above it are always there;
* `Tree.walk`, which follows the parts of a path and ends where it leads, whether or not something
  stands there;
* reading, writing, making directories and removing a file, with the faults in the order in which
  they are met on the way;
* `Tree.store`, the operations of a run over a tree, and `Tree.changesSince`, the files that are new
  or differ.
-/

namespace HostGlue.File

/-- What stands under a name. -/
inductive Node where
  | file (content : ByteArray)
  | directory

/-- Where a path leads: the names from the root on. -/
abbrev Location := List String

/-- Files and directories at their places, and the place of the working directory. -/
structure Tree where
  home : Location
  entries : List (Location × Node)

namespace Tree

/-- A tree with nothing in it but the working directory. -/
def empty : Tree := ⟨["work"], []⟩

/-! ## 1. Places -/

/-- The directory that holds a place. The root holds itself. -/
def above (place : Location) : Location := place.dropLast

/-- What stands at a place. -/
def node? (t : Tree) (place : Location) : Option Node :=
  if place.isPrefixOf t.home then some .directory
  else (t.entries.find? fun e => e.1 == place).map (·.2)

/-- Entries with what stands at a place replaced, or put to the end. -/
def putEntry (place : Location) (n : Node) : List (Location × Node) → List (Location × Node)
  | [] => [(place, n)]
  | e :: es => if e.1 == place then (place, n) :: es else e :: putEntry place n es

/-- Replaces what stands at a place, or puts something there. -/
def put (place : Location) (n : Node) (t : Tree) : Tree :=
  { t with entries := putEntry place n t.entries }

/-- Why a place cannot be gone through, if it cannot. -/
def enterFault? (t : Tree) (place : Location) : Option Fault :=
  match t.node? place with
  | some .directory => none
  | some (.file _) => some .notDirectory
  | none => some .missing

/-- What stands under a name of a directory. A name that is too long can stand for nothing. -/
def lookup (t : Tree) (directory : Location) (name : String) : Except Fault (Option Node) :=
  if Path.maxNameLength < name.utf8ByteSize then .error .nameTooLong
  else .ok (t.node? (directory ++ [name]))

/-- Follows the parts of a path. Every place on the way has to be a directory, and no name on it may
    be too long. -/
def walk (t : Tree) : Location → List String → Except Fault Location
  | place, [] => .ok place
  | place, part :: rest =>
    match t.enterFault? place with
    | some f => .error f
    | none =>
      if Path.isFiller part then walk t place rest
      else if part = ".." then walk t (above place) rest
      else
        match t.lookup place part with
        | .error f => .error f
        | .ok _ => walk t (place ++ [part]) rest

/-- Why a path cannot be followed at all, if it cannot. The empty path leads nowhere. -/
def pathFault? (path : String) : Option Fault :=
  if path.toList.contains '\x00' then some .badName
  else if Path.maxLength < path.utf8ByteSize then some .nameTooLong
  else if path = "" then some .missing
  else none

/-- Where a path begins: at the root, or in the working directory. -/
def start (t : Tree) (path : String) : Location :=
  if Path.isAbsolute path then [] else t.home

/-- Where a path leads. -/
def locate (t : Tree) (path : String) : Except Fault Location :=
  match pathFault? path with
  | some f => .error f
  | none => t.walk (t.start path) (Path.parts path)

/-- The end of a path at which something is to be made: its directory, and the name, if the path
    ends in one; `bare` says that nothing stands behind the name. -/
structure End where
  directory : Location
  name : Option String
  bare : Bool

/-- Takes a path apart at its last name. -/
def locateEnd (t : Tree) (path : String) : Except Fault End :=
  match pathFault? path with
  | some f => .error f
  | none =>
    let ps := Path.parts path
    let body := (ps.reverse.dropWhile (· == "")).reverse
    let last := body.getLast?.getD ""
    match t.walk (t.start path) body.dropLast with
    | .error f => .error f
    | .ok directory =>
      match t.enterFault? directory with
      | some f => .error f
      | none =>
        .ok ⟨directory, if Path.isFiller last || last == ".." then none else some last,
          body.length == ps.length⟩

/-- Whether a path leads to a directory. -/
def isDirectory (t : Tree) (path : String) : Bool :=
  match t.locate path with
  | .error _ => false
  | .ok place =>
    match t.node? place with
    | some .directory => true
    | _ => false

/-! ## 2. Operations -/

/-- The content of a file. -/
def read (t : Tree) (path : String) : Except Fault ByteArray :=
  match t.locate path with
  | .error f => .error f
  | .ok place =>
    match t.node? place with
    | some (.file content) => .ok content
    | some .directory => .error .isDirectory
    | none => .error .missing

/-- Stores a content as a file, new or not. -/
def write (t : Tree) (path : String) (content : ByteArray) : Except Fault Tree :=
  match t.locateEnd path with
  | .error f => .error f
  | .ok ⟨directory, some name, true⟩ =>
    match t.lookup directory name with
    | .error f => .error f
    | .ok (some .directory) => .error .isDirectory
    | .ok _ => .ok (t.put (directory ++ [name]) (.file content))
  | .ok _ => .error .isDirectory

/-- Makes one directory where there is nothing. -/
def makeDirectory (t : Tree) (path : String) : Except Fault Tree :=
  match t.locateEnd path with
  | .error f => .error f
  | .ok ⟨directory, some name, _⟩ =>
    match t.lookup directory name with
    | .error f => .error f
    | .ok (some _) => .error .exists
    | .ok none => .ok (t.put (directory ++ [name]) .directory)
  | .ok ⟨_, none, _⟩ => .error .exists

/-- Makes a directory, or leaves the one that is there. -/
def ensureDirectory (t : Tree) (path : String) : Tree × Except Fault Unit :=
  match t.makeDirectory path with
  | .ok t => (t, .ok ())
  | .error f => (t, if t.isDirectory path then .ok () else .error f)

/-- Makes a directory and the missing ones above it, at most `fuel` of them. What was made stays,
    even if a later one cannot be made. -/
def makeDirectoriesUpTo : Nat → Tree → String → Tree × Except Fault Unit
  | 0, t, _ => (t, .error .missing)
  | fuel + 1, t, path =>
    if path = "" then (t, .ok ())
    else
      match t.makeDirectory path with
      | .error .missing =>
        match Path.parent? path with
        | none => (t, .error .missing)
        | some above =>
          match makeDirectoriesUpTo fuel t above with
          | (t, .ok ()) => t.ensureDirectory path
          | (t, .error f) => (t, .error f)
      | _ => t.ensureDirectory path

/-- Makes a directory and the missing ones above it. -/
def makeDirectories (t : Tree) (path : String) : Tree × Except Fault Unit :=
  makeDirectoriesUpTo ((Path.parts path).length + 1) t path

/-- Removes a file. -/
def remove (t : Tree) (path : String) : Except Fault Tree :=
  match t.locate path with
  | .error f => .error f
  | .ok place =>
    match t.node? place with
    | some (.file _) => .ok { t with entries := t.entries.filter fun e => e.1 != place }
    | some .directory => .error .isDirectory
    | none => .error .missing

/-! ## 3. Trees as stores -/

/-- The operations of a run over a tree. -/
def store : Store (StateM Tree) where
  read path := return (← get).read path
  makeDirectories path := do
    let (t, result) := (← get).makeDirectories path
    set t
    return result
  write path content := do
    match (← get).write path content with
    | .error f => return .error f
    | .ok t =>
      set t
      return .ok ()

/-- Whether a node is a file of a content. -/
def Node.holds (content : ByteArray) : Node → Bool
  | .file old => old.data == content.data
  | .directory => false

/-- The files in the working directory that another tree does not have, or has with another content,
    at their places as seen from there. -/
def changesSince (before after : Tree) : List (Location × ByteArray) :=
  after.entries.filterMap fun e =>
    match e.2 with
    | .directory => none
    | .file content =>
      if !after.home.isPrefixOf e.1 || (before.node? e.1).any (Node.holds content) then none
      else some (e.1.drop after.home.length, content)

end Tree

end HostGlue.File
