import HostGlue.Writer
import HostGlue.Proofs.Text.Lines

/-!
# What writing a tree of code does to a writer

`Writer.write` goes through the operations of a writer, and an operation may fail. Written as a tree,
code opens no block that it does not close, so

* writing never fails, and what it adds are the lines of the tree at the writer's depth
  (`write_eq`, `writeBody_eq`);
* solid code is written at any depth as the indented text of what it is written as at depth 0
  (`Code.join_lines`).
-/

namespace HostGlue

namespace Writer

/-- A writer with lines added at its depth. -/
def extend (w : Writer) (ls : List Line) : Writer := { w with lines := w.lines ++ ls }

@[simp] theorem extend_depth (w : Writer) (ls : List Line) : (w.extend ls).depth = w.depth := rfl

@[simp] theorem extend_nil (w : Writer) : w.extend [] = w := by
  rw [extend, List.append_nil]

@[simp] theorem extend_extend (w : Writer) (as bs : List Line) :
    (w.extend as).extend bs = w.extend (as ++ bs) := by
  simp only [extend, List.append_assoc]

theorem text_extend (w : Writer) (ls : List Line) :
    (w.extend ls).text = w.text ++ Line.join ls :=
  Line.join_append w.lines ls

@[simp] theorem text_empty : empty.text = "" := rfl

/-- A block that was opened and filled can be closed: its own depth is still open. -/
theorem leaveBlock_extend (w : Writer) (header suffix : String) (ls : List Line)
    (failure : Option GlueError) :
    ((w.openBlock header).extend ls).leaveBlock suffix failure =
      (w.extend (⟨w.depth, openLine header⟩ :: ls ++ [⟨w.depth, closeLine suffix⟩]), failure) := by
  simp only [leaveBlock, openBlock, extend, closeBlock, List.append_assoc, List.cons_append,
    List.nil_append]

mutual

/-- **Writing a tree of code adds its lines at the writer's depth**, and no operation of it fails. -/
theorem write_eq : ∀ (c : Code) (w : Writer), w.write c = (w.extend (c.lines w.depth), none)
  | .line _, _ => rfl
  | .block header suffix body, w => by
      have ih := writeBody_eq body (w.openBlock header)
      simp only [write, ih, leaveBlock_extend]
      rfl

theorem writeBody_eq : ∀ (cs : List Code) (w : Writer),
    w.writeBody cs = (w.extend (Code.bodyLines w.depth cs), none)
  | [], w => by rw [writeBody, Code.bodyLines, extend_nil]
  | c :: cs, w => by
      have ih := writeBody_eq cs (w.extend (c.lines w.depth))
      rw [writeBody, write_eq c w]
      simp only [ih, extend_depth, extend_extend, Code.bodyLines]

end

end Writer

/-- Solid code has at any depth the text it has at depth 0, indented. -/
theorem Code.join_lines {c : Code} (h : ∀ l ∈ c.lines 0, Text.Solid l.content.toList) (d : Nat) :
    Line.join (c.lines d) = Text.indent (indentWidth * d) (Line.join (c.lines 0)) := by
  have hd := Code.lines_add 0 d c
  rw [Nat.zero_add] at hd
  rw [hd, Line.join_deeper d h]

end HostGlue
