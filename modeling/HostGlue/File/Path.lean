import HostGlue.Text.Split

/-!
# Paths

A path is a text with slashes. It is never normalised: joining and taking the parent work on the
text as it is given.

* `join` puts a second path behind a directory; one that begins at the root replaces it;
* `parent?` is the path without its last component. Repeated slashes, a slash at the end, and a dot
  anywhere but at the start are no components;
* `maxLength` and `maxNameLength` bound a path and each name in it, in octets.
-/

namespace HostGlue.File.Path

/-- The most octets of a path that can be followed. -/
def maxLength : Nat := 4095

/-- The most octets of a name. -/
def maxNameLength : Nat := 255

/-- Whether a path begins at the root. -/
def isAbsolute (path : String) : Bool :=
  path.toList.head? == some '/'

/-- A path seen from a directory. -/
def join (directory path : String) : String :=
  if isAbsolute path then path
  else if directory = "" || directory.toList.getLast? == some '/' then directory ++ path
  else directory ++ "/" ++ path

/-- The parts of a path between its slashes. -/
def parts (path : String) : List String :=
  (Text.split '/' path.toList).map String.ofList

/-- A part that is no component, behind the first part. -/
def isFiller (part : String) : Bool :=
  part == "" || part == "."

/-- Parts up to the last one that is a component. -/
def dropFillers (ps : List String) : List String :=
  (ps.reverse.dropWhile isFiller).reverse

/-- The text of a first part and the parts behind it. -/
def assemble (first : String) (others : List String) : String :=
  if first = "" ∧ others = [] then "/" else "/".intercalate (first :: others)

/-- The path without its last component, if it has one. -/
def parent? (path : String) : Option String :=
  match parts path with
  | [] => none
  | first :: others =>
    match dropFillers others with
    | [] => if first = "" then none else some ""
    | p :: ps => some (assemble first (dropFillers (p :: ps).dropLast))

end HostGlue.File.Path
