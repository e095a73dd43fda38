import HostGlue.Error
import HostGlue.Layout

/-!
# Writers

A writer takes text line by line and keeps count of the blocks that are open. This file fixes

* the operations `line`, `openBlock`, `closeBlock` and `finish`;
* `leaveBlock`, which closes a block behind its body: the closing line is written whether or not the
  body failed, and a failure to close wins over that of the body;
* `write`, which writes a tree of code by these operations.

Lines are only ever added behind those that are there.
-/

namespace HostGlue

/-- The lines written so far, and the number of blocks that are open. -/
structure Writer where
  lines : List Line
  depth : Nat
  deriving DecidableEq

namespace Writer

/-- A writer without a line. -/
def empty : Writer := ⟨[], 0⟩

/-- The text written so far. -/
def text (w : Writer) : String := Line.join w.lines

/-- Writes one line at the current depth. -/
def line (content : String) (w : Writer) : Writer :=
  { w with lines := w.lines ++ [⟨w.depth, content⟩] }

/-- Writes the line that opens a block, and goes one level deeper. -/
def openBlock (header : String) (w : Writer) : Writer :=
  ⟨w.lines ++ [⟨w.depth, openLine header⟩], w.depth + 1⟩

/-- Goes one level back and writes the line that closes a block. There has to be an open one. -/
def closeBlock (suffix : String) (w : Writer) : Except GlueError Writer :=
  match w.depth with
  | 0 => .error (.unbalancedScope 0)
  | d + 1 => .ok ⟨w.lines ++ [⟨d, closeLine suffix⟩], d⟩

/-- The whole text. No block may be open any more. -/
def finish (w : Writer) : Except GlueError String :=
  if w.depth = 0 then .ok w.text else .error (.unbalancedScope w.depth)

/-- Closes a block behind its body, which may have failed. If no block is open any more, that is the
    failure that counts. -/
def leaveBlock (suffix : String) (failure : Option GlueError) (w : Writer) :
    Writer × Option GlueError :=
  match w.closeBlock suffix with
  | .ok closed => (closed, failure)
  | .error e => (w, some e)

mutual

/-- Writes a tree of code, and notes the error if an operation failed. A block is left even if its
    body failed. -/
def write : Code → Writer → Writer × Option GlueError
  | .line content, w => (w.line content, none)
  | .block header suffix body, w =>
    let inner := writeBody body (w.openBlock header)
    inner.1.leaveBlock suffix inner.2
termination_by structural c => c

/-- Writes trees of code one after another, up to the first that fails. -/
def writeBody : List Code → Writer → Writer × Option GlueError
  | [], w => (w, none)
  | c :: cs, w =>
    let first := write c w
    match first.2 with
    | some e => (first.1, some e)
    | none => writeBody cs first.1
termination_by structural cs => cs

end

end Writer

end HostGlue
