import HostGlue.Writer

/-!
# Programs of a writer

A program is a tree of the operations of a writer and of steps that fail. This file fixes

* `Step`, the operations, with blocks whose bodies are programs of their own, and steps whose failure
  is ignored;
* `Step.run`, which runs a step and notes after every step that was run how deep the writer stands
  and whether the step failed (`Mark`); a body stops behind its first failure that is not ignored;
* `Step.runAll`, which goes on behind a failure.
-/

namespace HostGlue.Writer

/-- One step of a program. -/
inductive Step where
  | line (content : String)
  | openBlock (header : String)
  | closeBlock (suffix : String)
  | stop (error : GlueError)
  | block (header suffix : String) (body : List Step)
  | attempt (s : Step)

instance : Inhabited Step := ⟨.line ""⟩

/-- The step that fails at a function whose name came before. -/
def Step.fail (function : String) : Step := .stop (.duplicateFunction function)

/-- The writer's depth behind a step, and the error the step failed with, if it did. -/
structure Mark where
  depth : Nat
  failure : Option GlueError
  deriving DecidableEq

/-- What running a program leaves: the writer, the marks of its steps in the order in which they
    ended, and the error with which it stopped, if it did. -/
structure Outcome where
  writer : Writer
  marks : List Mark
  failure : Option GlueError
  deriving DecidableEq

/-- The outcome of a single operation. -/
def Outcome.single (w : Writer) (failure : Option GlueError) : Outcome :=
  ⟨w, [⟨w.depth, failure⟩], failure⟩

mutual

/-- Runs a step. The marks of a block are those of its body and then its own. A step that is only
    attempted leaves what it leaves, and its marks, but its failure goes no further. -/
def Step.run : Step → Writer → Outcome
  | .line content, w => .single (w.line content) none
  | .openBlock header, w => .single (w.openBlock header) none
  | .closeBlock suffix, w =>
    match w.closeBlock suffix with
    | .ok closed => .single closed none
    | .error e => .single w (some e)
  | .stop error, w => .single w (some error)
  | .block header suffix body, w =>
    let inner := Step.runBody body (w.openBlock header)
    let closed := inner.writer.leaveBlock suffix inner.failure
    ⟨closed.1, inner.marks ++ [⟨closed.1.depth, closed.2⟩], closed.2⟩
  | .attempt s, w =>
    let tried := s.run w
    ⟨tried.writer, tried.marks, none⟩
termination_by structural s => s

/-- Runs the steps of a body, up to the first one that fails. -/
def Step.runBody : List Step → Writer → Outcome
  | [], w => ⟨w, [], none⟩
  | s :: ss, w =>
    let first := s.run w
    match first.failure with
    | some e => ⟨first.writer, first.marks, some e⟩
    | none =>
      let others := Step.runBody ss first.writer
      ⟨others.writer, first.marks ++ others.marks, others.failure⟩
termination_by structural ss => ss

end

/-- Runs all steps, whether or not some fail. -/
def Step.runAll : List Step → Writer → Writer × List Mark
  | [], w => (w, [])
  | s :: ss, w =>
    let first := s.run w
    let others := Step.runAll ss first.writer
    (others.1, first.marks ++ others.2)

end HostGlue.Writer
