import HostGlue.Decimal.Binary

/-!
# TOML tables

The document of a settings text is a tree of tables. A table may be opened in several places, so the
tree is built with a note on how each table came about (`Origin`). This file fixes

* `Value`, what a finished document holds, with the entries of a table in the order in which they
  came;
* `Table` and `Node`, a document that is being built, and the rules for opening a table again:
  `Table.modifyAt` descends along a path, `Table.insert` adds a value under a dotted key;
* `Builder`, which keeps the table of the last header apart until the next header: a table that was
  only implied before moves to the place of its own header (`Builder.openTable`).
-/

namespace HostGlue.Toml

open Decimal (Binary)

/-! ## 1. Finished values -/

/-- The numbers with a fraction or an exponent. -/
inductive FloatValue where
  | finite (negative : Bool) (magnitude : Binary)
  | infinite (negative : Bool)
  | notANumber
  deriving DecidableEq

/-- A value of a document. Of a date or a time only its presence is kept. -/
inductive Value where
  | text (s : String)
  | integer (n : Int)
  | float (x : FloatValue)
  | bool (b : Bool)
  | moment
  | array (items : List Value)
  | table (entries : List (String × Value))

/-! ## 2. Tables that are being built -/

/-- How a table came about: by the document or a header of its own, as part of the path of another
    header, or as part of a dotted key. -/
inductive Origin where
  | declared
  | implied
  | dotted
  deriving DecidableEq

mutual

/-- What stands under a key. -/
inductive Node where
  | leaf (v : Value)
  | table (t : Table)
  | tables (ts : List Table)

/-- A table with its entries in order. -/
structure Table where
  origin : Origin
  entries : List (String × Node)

end

namespace Table

/-- A table without entries. -/
def empty (origin : Origin) : Table := ⟨origin, []⟩

/-- What stands under a key. -/
def find? (key : String) (t : Table) : Option Node :=
  (t.entries.find? fun e => e.1 == key).map (·.2)

/-- Entries with what stands under a key replaced, or put to the end. -/
def putEntry (key : String) (n : Node) : List (String × Node) → List (String × Node)
  | [] => [(key, n)]
  | e :: es => if e.1 == key then (key, n) :: es else e :: putEntry key n es

/-- Replaces what stands under a key, or puts it to the end. -/
def put (key : String) (n : Node) (t : Table) : Table :=
  { t with entries := putEntry key n t.entries }

/-- A table without a key. -/
def erase (key : String) (t : Table) : Table :=
  { t with entries := t.entries.filter fun e => e.1 != key }

/-- Changes the table at the end of a path. Tables that are missing on the way are created. A header
    path goes through any table, and into the last one of an array of tables; a dotted key does
    not go into a table that has a header. -/
def modifyAt (byDots : Bool) (change : Table → Option Table) : List String → Table → Option Table
  | [], t => change t
  | key :: path, t =>
    match t.find? key with
    | none => do
      let child ← modifyAt byDots change path (empty (if byDots then .dotted else .implied))
      return t.put key (.table child)
    | some (.leaf _) => none
    | some (.table child) =>
      if byDots && child.origin == .declared then none
      else do
        let child ← modifyAt byDots change path child
        return t.put key (.table child)
    | some (.tables children) =>
      match children.getLast? with
      | none => none
      | some child => do
        let child ← modifyAt byDots change path child
        return t.put key (.tables (children.dropLast ++ [child]))

/-- Adds a value under a new key. -/
def add (key : String) (v : Value) (t : Table) : Option Table :=
  match t.find? key with
  | none => some (t.put key (.leaf v))
  | some _ => none

/-- Adds a value under a dotted key. The table it ends in has to be one of dotted keys, and a table
    of dotted keys takes no other. -/
def insert (path : List String) (key : String) (v : Value) (t : Table) : Option Table :=
  modifyAt true
    (fun t => if (t.origin == .dotted) == path.isEmpty then none else t.add key v) path t

end Table

mutual

/-- The finished value of a node. -/
def Node.value : Node → Value
  | .leaf v => v
  | .table t => t.value
  | .tables ts => .array (Table.values ts)
termination_by structural n => n

/-- The finished value of a table. -/
def Table.value : Table → Value
  | ⟨_, entries⟩ => .table (Node.entryValues entries)
termination_by structural t => t

/-- The finished values of a list of tables. -/
def Table.values : List Table → List Value
  | [] => []
  | t :: ts => t.value :: Table.values ts
termination_by structural ts => ts

/-- The finished values of entries. -/
def Node.entryValues : List (String × Node) → List (String × Value)
  | [] => []
  | e :: es => Node.entryValue e :: Node.entryValues es
termination_by structural es => es

/-- The finished value of an entry. -/
def Node.entryValue : String × Node → String × Value
  | (key, n) => (key, n.value)
termination_by structural e => e

end

/-! ## 3. Headers -/

/-- Where the entries that come next belong: the document itself, the table of a header, or a new
    element of an array of tables. -/
inductive Target where
  | root
  | table (path : List String) (key : String)
  | element (path : List String) (key : String)

/-- A document up to some line: the tables of all headers but the last, and the last one. -/
structure Builder where
  root : Table
  current : Table
  target : Target

namespace Builder

/-- A document without a line. -/
def start : Builder := ⟨.empty .declared, .empty .declared, .root⟩

/-- Puts the table of the last header into the document. -/
def close (b : Builder) : Option Table :=
  match b.target with
  | .root => some b.current
  | .table path key =>
    Table.modifyAt false (fun t => some (t.put key (.table b.current))) path b.root
  | .element path key =>
    Table.modifyAt false
      (fun t =>
        match t.find? key with
        | none => some (t.put key (.tables [b.current]))
        | some (.tables ts) => some (t.put key (.tables (ts ++ [b.current])))
        | some _ => none)
      path b.root

/-- The table a header opens: a new one, or one that was only implied. -/
def reopened? (key : String) (parent : Table) : Option Table :=
  match parent.find? key with
  | none => some (.empty .declared)
  | some (.table t) => if t.origin == .implied then some { t with origin := .declared } else none
  | some _ => none

/-- The table at the end of a path. -/
def tableAt : List String → Table → Option Table
  | [], t => some t
  | key :: path, t =>
    match t.find? key with
    | some (.table child) => tableAt path child
    | some (.tables children) => children.getLast?.bind (tableAt path)
    | _ => none

/-- A header for a table. -/
def openTable (path : List String) (key : String) (b : Builder) : Option Builder := do
  let root ← b.close
  let root ← Table.modifyAt false some path root
  let parent ← tableAt path root
  let current ← reopened? key parent
  let root ← Table.modifyAt false (fun t => some (t.erase key)) path root
  return ⟨root, current, .table path key⟩

/-- A header for an element of an array of tables. -/
def openElement (path : List String) (key : String) (b : Builder) : Option Builder := do
  let root ← b.close
  let root ← Table.modifyAt false
    (fun t =>
      match t.find? key with
      | none => some (t.put key (.tables []))
      | some (.tables _) => some t
      | some _ => none)
    path root
  return ⟨root, .empty .declared, .element path key⟩

/-- A line with a dotted key and a value. -/
def addValue (path : List String) (key : String) (v : Value) (b : Builder) : Option Builder := do
  let current ← b.current.insert path key v
  return { b with current := current }

end Builder

end HostGlue.Toml
