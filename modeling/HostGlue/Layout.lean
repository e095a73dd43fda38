/-!
# Laying out text in blocks

Generated text is made of lines, and of blocks with a header, a body that is indented by four more
spaces, and a closing brace. This file fixes

* `Line`, a text at a depth, and `Line.text`, how it is written: an empty line has no spaces;
* `Code`, a tree of lines and blocks, and `Code.lines`, the lines it is written as at a depth;
* that a tree one level deeper is written with four more spaces before each line (`Code.lines_add`).
-/

namespace HostGlue

/-! ## 1. Lines -/

/-- One line of text at a depth of blocks. -/
structure Line where
  depth : Nat
  content : String
  deriving DecidableEq

/-- The spaces of one level of depth. -/
def indentWidth : Nat := 4

namespace Line

/-- A line as it is written. -/
def text (l : Line) : String :=
  if l.content = "" then "\n"
  else String.ofList (List.replicate (indentWidth * l.depth) ' ') ++ l.content ++ "\n"

/-- A line so many levels deeper. -/
def deeper (d : Nat) (l : Line) : Line := { l with depth := l.depth + d }

end Line

/-- Lines as they are written. -/
def Line.join (ls : List Line) : String :=
  String.join (ls.map Line.text)

/-! ## 2. Blocks -/

/-- A line, or a block: the text in front of the opening brace, the text behind the closing one, and
    what stands between them. -/
inductive Code where
  | line (content : String)
  | block (header suffix : String) (body : List Code)

/-- The line that opens a block. -/
def openLine (header : String) : String :=
  if header = "" then "\x7b" else header ++ " \x7b"

/-- The line that closes a block. -/
def closeLine (suffix : String) : String := "\x7d" ++ suffix

mutual

/-- The lines of a tree at a depth. -/
def Code.lines (depth : Nat) : Code → List Line
  | .line content => [⟨depth, content⟩]
  | .block header suffix body =>
    ⟨depth, openLine header⟩ :: Code.bodyLines (depth + 1) body ++ [⟨depth, closeLine suffix⟩]
termination_by structural c => c

/-- The lines of a list of trees at a depth. -/
def Code.bodyLines (depth : Nat) : List Code → List Line
  | [] => []
  | c :: cs => c.lines depth ++ Code.bodyLines depth cs
termination_by structural cs => cs

end

namespace Code

theorem bodyLines_append (d : Nat) : ∀ as bs : List Code,
    bodyLines d (as ++ bs) = bodyLines d as ++ bodyLines d bs
  | [], _ => rfl
  | a :: as, bs => by simp [bodyLines, bodyLines_append d as bs]

mutual

/-- **Depth only indents**: a tree so many levels deeper has the same lines, that much deeper. -/
theorem lines_add (d k : Nat) : ∀ c : Code, c.lines (d + k) = (c.lines d).map (Line.deeper k)
  | .line _ => rfl
  | .block _ _ body => by
    have h := bodyLines_add (d + 1) k body
    rw [Nat.add_right_comm] at h
    simp [lines, Line.deeper, h]

theorem bodyLines_add (d k : Nat) : ∀ cs : List Code,
    bodyLines (d + k) cs = (bodyLines d cs).map (Line.deeper k)
  | [] => rfl
  | c :: cs => by
    simp [bodyLines, lines_add d k c, bodyLines_add d k cs]

end

end Code

end HostGlue
