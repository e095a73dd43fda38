import HostGlue.Digits
import HostGlue.Ident
import HostGlue.Layout
import HostGlue.Text.Quoted

/-!
# The script language of documents

A document is a program of a small part of the host's script language. This file fixes

* `Expr`, the expressions in use, and `Expr.spell`, how they are written on one line;
* `Stmt`, the statements in use, and `Stmt.code`, the lines and blocks they are written as;
* `Property`, a named function with a body: one entry of the object that a document registers.
-/

namespace HostGlue.Script

/-! ## 1. Expressions -/

/-- An expression. `lambda` is a function that returns one expression; `construct` calls a
    constructor. -/
inductive Expr where
  | name (x : String)
  | text (value : String)
  | number (n : Int)
  | member (e : Expr) (field : String)
  | item (e key : Expr)
  | call (f : Expr) (args : List Expr)
  | construct (f : Expr) (args : List Expr)
  | sum (a b : Expr)
  | list (items : List Expr)
  | lambda (params : List String) (result : Expr)

/-- Names or expressions of a list, as they are written. -/
def commaList (parts : List String) : String := ", ".intercalate parts

/-- The head of a function, up to its body. -/
def functionHead (params : List String) : String := "function (" ++ commaList params ++ ")"

mutual

/-- An expression as it is written. -/
def Expr.spell : Expr → String
  | .name x => x
  | .text value => Text.Quoted.encode value
  | .number n => Digits.ofInt n
  | .member e field => e.spell ++ "." ++ field
  | .item e key => e.spell ++ "[" ++ key.spell ++ "]"
  | .call f args => f.spell ++ "(" ++ commaList (Expr.spellings args) ++ ")"
  | .construct f args => "new " ++ f.spell ++ "(" ++ commaList (Expr.spellings args) ++ ")"
  | .sum a b => a.spell ++ " + " ++ b.spell
  | .list items => "[" ++ commaList (Expr.spellings items) ++ "]"
  | .lambda params result =>
    functionHead params ++ " \x7b return " ++ result.spell ++ "; \x7d"
termination_by structural e => e

/-- A list of expressions as they are written. -/
def Expr.spellings : List Expr → List String
  | [] => []
  | e :: es => e.spell :: Expr.spellings es
termination_by structural es => es

end

namespace Expr

/-- Names as expressions. -/
def names (xs : List String) : List Expr := xs.map .name

/-- The expression a dotted path is: a name, and a member for every further segment. -/
def ofPath (path : String) : Expr :=
  match Ident.pathSegments path with
  | [] => .name path
  | root :: fields => fields.foldl .member (.name root)

end Expr

/-! ## 2. Statements -/

/-- A statement. `choose` returns the expression of the case that fits; `declareFunction` declares a
    variable that holds a function with a body of its own. -/
inductive Stmt where
  | run (e : Expr)
  | declare (x : String) (e : Expr)
  | assign (target e : Expr)
  | give (e : Expr)
  | attempt (body : List Stmt) (caught : String) (handler : List Stmt)
  | declareFunction (x : String) (params : List String) (body : List Stmt)
  | choose (scrutinee : Expr) (cases : List (Int × Expr))

/-- One case of a choice. -/
def caseText (c : Int × Expr) : String :=
  "case " ++ Digits.ofInt c.1 ++ ": return " ++ c.2.spell ++ ";"

mutual

/-- The lines and blocks of a statement. -/
def Stmt.code : Stmt → List Code
  | .run e => [.line (e.spell ++ ";")]
  | .declare x e => [.line ("var " ++ x ++ " = " ++ e.spell ++ ";")]
  | .assign target e => [.line (target.spell ++ " = " ++ e.spell ++ ";")]
  | .give e => [.line ("return " ++ e.spell ++ ";")]
  | .attempt body caught handler =>
    [.block "try" "" (Stmt.bodyCode body),
     .block ("catch (" ++ caught ++ ")") "" (Stmt.bodyCode handler)]
  | .declareFunction x params body =>
    [.block ("var " ++ x ++ " = " ++ functionHead params) ";" (Stmt.bodyCode body)]
  | .choose scrutinee cases =>
    [.block ("switch (" ++ scrutinee.spell ++ ")") "" (cases.map fun c => .line (caseText c))]
termination_by structural s => s

/-- The lines and blocks of a list of statements. -/
def Stmt.bodyCode : List Stmt → List Code
  | [] => []
  | s :: ss => s.code ++ Stmt.bodyCode ss
termination_by structural ss => ss

end

/-! ## 3. Properties -/

/-- A property whose value is a function. -/
structure Property where
  name : String
  params : List String
  body : List Stmt

/-- A property as it is written in an object literal. -/
def Property.code (p : Property) : Code :=
  .block (p.name ++ ": " ++ functionHead p.params) "," (Stmt.bodyCode p.body)

end HostGlue.Script
