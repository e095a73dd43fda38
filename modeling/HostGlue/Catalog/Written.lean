import HostGlue.Catalog
import HostGlue.Json.Written

/-!
# Catalogs as compact texts

Every catalog has a text that gives all its fields by name: records as objects, plain types and
directions as words, callbacks as an object with the one member `callback`. `Catalog.tree` is that
text as a tree, `Catalog.render` the text itself.
-/

namespace HostGlue

open Json (Tree)

mutual

/-- A type as a tree. -/
def Ty.tree : Ty → Tree
  | .plain p => .ofString p.name
  | .callback params result =>
    .ofMembers
      [("callback",
        .ofMembers [("params", .ofItems (Param.trees params)), ("return", result.tree)])]
termination_by structural t => t

/-- A parameter as a tree. -/
def Param.tree : Param → Tree
  | ⟨name, ty, direction⟩ =>
    .ofMembers
      [("name", .ofString name), ("type", ty.tree), ("direction", .ofString direction.name)]
termination_by structural p => p

/-- The parameters of a list as trees. -/
def Param.trees : List Param → List Tree
  | [] => []
  | p :: ps => p.tree :: Param.trees ps
termination_by structural ps => ps

end

theorem Param.trees_eq_map : ∀ ps : List Param, Param.trees ps = ps.map Param.tree
  | [] => rfl
  | p :: ps => by simp [Param.trees, Param.trees_eq_map ps]

/-- An extern as a tree. -/
def Extern.tree (e : Extern) : Tree :=
  .ofMembers
    [("name", .ofString e.name), ("owner", .ofString e.owner),
     ("params", .ofItems (e.params.map Param.tree)), ("return", e.result.tree)]

/-- A buffer kind as a tree. -/
def BufferKind.tree (k : BufferKind) : Tree :=
  .ofMembers [("code", .numeral (.ofInt k.code.toInt)), ("name", .ofString k.name)]

namespace Catalog

/-- A catalog as a tree. -/
def tree (c : Catalog) : Tree :=
  .ofMembers
    [("functions", .ofItems (c.externs.map Extern.tree)),
     ("buffer_kinds", .ofItems (c.bufferKinds.map BufferKind.tree))]

/-- A catalog as a compact text. -/
def render (c : Catalog) : String := String.ofList c.tree.spell

end Catalog

end HostGlue
