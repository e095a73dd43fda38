import HostGlue.Writer.Step
import HostGlue.Proofs.Writer.Written

/-!
# Errors that leave blocks

A step that fails ends the body it stands in, and the body of the block around it, and so on outwards
to the first step that is only attempted. Each of these blocks is closed on the way. This file shows, of
programs of lines, failing steps, blocks and attempts (`Step.Structured`), that

* what is written is the code of the steps that were executed, with every block closed
  (`Step.executed`, `runBody_structured`);
* the error is that of the first failing step of the program (`Step.failures`), never one of a block
  that cannot be closed;
* **`runBody_unwinds`: the depth is as it was, a block that was entered is closed where it was opened,
  behind what was executed of it**, nothing behind a failing step is entered, and the text of an empty
  writer can be had.
-/

namespace HostGlue.Writer

/-! ## 1. What a program means -/

mutual

/-- A step that opens and closes no block by hand. -/
def Step.Structured : Step → Prop
  | .line _ | .stop _ => True
  | .openBlock _ | .closeBlock _ => False
  | .block _ _ body => Step.AllStructured body
  | .attempt s => s.Structured
termination_by structural s => s

/-- Steps that open and close no block by hand. -/
def Step.AllStructured : List Step → Prop
  | [] => True
  | s :: ss => s.Structured ∧ Step.AllStructured ss
termination_by structural ss => ss

end

mutual

/-- The errors of the failing steps in a step, in the order of the program, those that are ignored left
    out. -/
def Step.failures : Step → List GlueError
  | .stop error => [error]
  | .block _ _ body => Step.bodyFailures body
  | _ => []
termination_by structural s => s

/-- The errors of the failing steps of a body, in the order of the program. -/
def Step.bodyFailures : List Step → List GlueError
  | [] => []
  | s :: ss => s.failures ++ Step.bodyFailures ss
termination_by structural ss => ss

end

mutual

/-- What is executed of a step. -/
def Step.executed : Step → List Code
  | .line content => [.line content]
  | .block header suffix body => [.block header suffix (Step.bodyExecuted body)]
  | .attempt s => s.executed
  | _ => []
termination_by structural s => s

/-- What is executed of a body: its steps up to the first that fails. -/
def Step.bodyExecuted : List Step → List Code
  | [] => []
  | s :: ss => s.executed ++ if s.failures.isEmpty then Step.bodyExecuted ss else []
termination_by structural ss => ss

end

/-- A block is entered so many levels deep in a body: nothing in front of it fails, nor in front of a
    block or an attempt around it. -/
inductive Step.Entered : List Step → Nat → String → String → List Step → Prop where
  | here {before after body : List Step} {header suffix : String}
      (reached : Step.bodyFailures before = []) :
      Entered (before ++ .block header suffix body :: after) 0 header suffix body
  | inside {before after outer body : List Step} {h s header suffix : String} {k : Nat}
      (reached : Step.bodyFailures before = []) (entered : Entered outer k header suffix body) :
      Entered (before ++ .block h s outer :: after) (k + 1) header suffix body
  | attempted {before after body : List Step} {s : Step} {header suffix : String} {k : Nat}
      (reached : Step.bodyFailures before = []) (entered : Entered [s] k header suffix body) :
      Entered (before ++ .attempt s :: after) k header suffix body

/-! ## 2. Bodies in parts -/

theorem Step.bodyFailures_append : ∀ ss ts : List Step,
    bodyFailures (ss ++ ts) = bodyFailures ss ++ bodyFailures ts
  | [], _ => rfl
  | s :: ss, ts => by
      rw [List.cons_append, bodyFailures, bodyFailures, bodyFailures_append ss ts, List.append_assoc]

/-- Behind a failing step nothing is executed, and in front of it everything. -/
theorem Step.bodyExecuted_append : ∀ ss ts : List Step,
    bodyExecuted (ss ++ ts) =
      bodyExecuted ss ++ if (bodyFailures ss).isEmpty then bodyExecuted ts else []
  | [], _ => rfl
  | s :: ss, ts => by
      rw [List.cons_append, bodyExecuted, bodyExecuted, bodyFailures, bodyExecuted_append ss ts]
      cases s.failures with
      | nil => rw [List.isEmpty_nil, if_pos rfl, if_pos rfl, List.nil_append, List.append_assoc]
      | cons e es => simp

/-! ## 3. Runs -/

mutual

/-- **A structured step adds the code that is executed of it**, and fails as its first failing step. -/
theorem run_structured : ∀ (s : Step) (w : Writer), s.Structured →
    (s.run w).writer = w.extend (Code.bodyLines w.depth s.executed) ∧
      (s.run w).failure = s.failures.head?
  | .line _, _, _ => ⟨rfl, rfl⟩
  | .stop _, w, _ => ⟨(extend_nil w).symm, rfl⟩
  | .block header suffix body, w, h => by
      obtain ⟨hwriter, hfailure⟩ := runBody_structured body (w.openBlock header) h
      rw [Step.run, Step.failures, Step.executed]
      dsimp only
      rw [hwriter, leaveBlock_extend, hfailure, Code.bodyLines, Code.bodyLines, Code.lines,
        List.append_nil]
      exact ⟨rfl, rfl⟩
  | .attempt s, w, h => ⟨(run_structured s w h).1, rfl⟩

theorem runBody_structured : ∀ (ss : List Step) (w : Writer), Step.AllStructured ss →
    (Step.runBody ss w).writer = w.extend (Code.bodyLines w.depth (Step.bodyExecuted ss)) ∧
      (Step.runBody ss w).failure = (Step.bodyFailures ss).head?
  | [], w, _ => ⟨(extend_nil w).symm, rfl⟩
  | s :: ss, w, h => by
      obtain ⟨hwriter, hfailure⟩ := run_structured s w h.1
      obtain ⟨hwriter', hfailure'⟩ := runBody_structured ss (s.run w).writer h.2
      rw [Step.runBody, Step.bodyExecuted, Step.bodyFailures]
      cases hs : s.failures with
      | nil =>
        rw [hs] at hfailure
        rw [hwriter] at hwriter' hfailure'
        simp only [hfailure, List.head?_nil, hwriter, hwriter', hfailure', extend_extend,
          extend_depth, Code.bodyLines_append, List.nil_append, List.isEmpty_nil, if_true, and_self]
      | cons e es =>
        rw [hs] at hfailure
        simp only [hfailure, List.head?_cons, hwriter, List.cons_append, List.isEmpty_cons,
          Bool.false_eq_true, if_false, List.append_nil, and_self]

end

/-! ## 4. Blocks -/

/-- The lines of a body with a step that is reached. -/
theorem bodyLines_of_step {before : List Step} (reached : Step.bodyFailures before = []) (s : Step)
    (after : List Step) (d : Nat) : ∃ rest,
      Code.bodyLines d (Step.bodyExecuted (before ++ s :: after)) =
        Code.bodyLines d (Step.bodyExecuted before) ++ Code.bodyLines d s.executed ++ rest := by
  rw [Step.bodyExecuted_append, reached, List.isEmpty_nil, if_pos rfl, Step.bodyExecuted,
    Code.bodyLines_append, Code.bodyLines_append, ← List.append_assoc]
  exact ⟨_, rfl⟩

/-- The lines of a body with a block that is reached. -/
theorem bodyLines_of_reached {before : List Step} (reached : Step.bodyFailures before = [])
    (header suffix : String) (body after : List Step) (d : Nat) : ∃ rest,
      Code.bodyLines d (Step.bodyExecuted (before ++ .block header suffix body :: after)) =
        Code.bodyLines d (Step.bodyExecuted before) ++
          (⟨d, openLine header⟩ :: Code.bodyLines (d + 1) (Step.bodyExecuted body) ++
            [⟨d, closeLine suffix⟩]) ++ rest := by
  obtain ⟨rest, h⟩ := bodyLines_of_step reached (.block header suffix body) after d
  rw [Step.executed, Code.bodyLines, Code.bodyLines, List.append_nil, Code.lines] at h
  exact ⟨rest, h⟩

/-- **A block that was entered stands in the text from its header to its end**: between them is what was
    executed of its body, one level deeper. -/
theorem bodyLines_of_entered {ss body : List Step} {k : Nat} {header suffix : String}
    (h : Step.Entered ss k header suffix body) : ∀ d : Nat, ∃ front back,
      Code.bodyLines d (Step.bodyExecuted ss) =
        front ++ (⟨d + k, openLine header⟩ :: Code.bodyLines (d + k + 1) (Step.bodyExecuted body) ++
          [⟨d + k, closeLine suffix⟩]) ++ back := by
  induction h with
  | @here before after body header suffix reached =>
    intro d
    exact ⟨_, bodyLines_of_reached reached header suffix body after d⟩
  | @inside before after outer body h s header suffix k reached _ ih =>
    intro d
    obtain ⟨rest, houter⟩ := bodyLines_of_reached reached h s outer after d
    obtain ⟨front, back, hinner⟩ := ih (d + 1)
    rw [Nat.add_right_comm d 1 k] at hinner
    refine ⟨Code.bodyLines d (Step.bodyExecuted before) ++ ⟨d, openLine h⟩ :: front,
      back ++ [⟨d, closeLine s⟩] ++ rest, ?_⟩
    rw [houter, hinner]
    simp only [List.append_assoc, List.cons_append, Nat.add_assoc]
  | @attempted before after body s header suffix k reached _ ih =>
    intro d
    obtain ⟨rest, houter⟩ := bodyLines_of_step reached (.attempt s) after d
    obtain ⟨front, back, hinner⟩ := ih d
    rw [Step.bodyExecuted, Step.bodyExecuted, ite_self, List.append_nil] at hinner
    rw [Step.executed, hinner] at houter
    refine ⟨Code.bodyLines d (Step.bodyExecuted before) ++ front, back ++ rest, ?_⟩
    rw [houter]
    simp only [List.append_assoc]

/-- **Errors leave blocks closed.** A program of lines, failing steps, blocks and attempts leaves the
    depth as it was. It fails as its first failing step does that is in no attempt, and not at all if
    there is none; that a block cannot be closed is never the reason. What it adds is the code of what
    was executed: a block that was entered stands there with its header and its end at the same depth and
    between them what was executed of its body; and nothing is executed behind a failing step of the same
    body. On an empty writer the whole text can be had. -/
theorem runBody_unwinds (ss : List Step) (h : Step.AllStructured ss) (w : Writer) :
    let ran := Step.runBody ss w
    ran.writer.depth = w.depth ∧ ran.failure = (Step.bodyFailures ss).head? ∧
    (∀ d, ran.failure = some (.unbalancedScope d) → .unbalancedScope d ∈ Step.bodyFailures ss) ∧
    ran.writer.lines = w.lines ++ Code.bodyLines w.depth (Step.bodyExecuted ss) ∧
    (∀ k header suffix body, Step.Entered ss k header suffix body → ∃ front back,
      ran.writer.lines = w.lines ++ (front ++
        (⟨w.depth + k, openLine header⟩ ::
          Code.bodyLines (w.depth + k + 1) (Step.bodyExecuted body) ++
          [⟨w.depth + k, closeLine suffix⟩]) ++ back)) ∧
    (∀ before after : List Step, Step.bodyFailures before ≠ [] →
      Step.bodyExecuted (before ++ after) = Step.bodyExecuted before) ∧
    (Step.runBody ss .empty).writer.finish =
      .ok (Line.join (Code.bodyLines 0 (Step.bodyExecuted ss))) := by
  intro ran
  obtain ⟨hwriter, hfailure⟩ := runBody_structured ss w h
  have hlines : ran.writer.lines = w.lines ++ Code.bodyLines w.depth (Step.bodyExecuted ss) := by
    rw [show ran.writer = _ from hwriter, extend]
  refine ⟨by rw [show ran.writer = _ from hwriter, extend_depth], hfailure, fun d hd => ?_, hlines,
    ?_, ?_, ?_⟩
  · exact List.mem_of_head? (hfailure.symm.trans hd)
  · intro k header suffix body hentered
    obtain ⟨front, back, hblock⟩ := bodyLines_of_entered hentered w.depth
    exact ⟨front, back, by rw [hlines, hblock]⟩
  · intro before after hfails
    rw [Step.bodyExecuted_append, if_neg (by simpa using hfails), List.append_nil]
  · rw [(runBody_structured ss .empty h).1, finish, extend_depth]
    rfl

/-- A program that fails two blocks deep, in front of another block and of more lines. -/
def unwindingSample : List Step :=
  [.line "a();",
    .block "if (x)" ";" [.line "b();", .block "try" "" [.line "c();", .fail "f", .line "d();"],
      .block "catch (e)" "" [.line "e();"]],
    .line "g();"]

theorem unwinds_sample :
    Step.AllStructured unwindingSample ∧
    (Step.runBody unwindingSample ⟨[⟨0, "h: function () \x7b"⟩], 1⟩).writer.depth = 1 ∧
    (Step.runBody unwindingSample ⟨[⟨0, "h: function () \x7b"⟩], 1⟩).failure =
      some (.duplicateFunction "f") ∧
    (Step.runBody unwindingSample .empty).writer.finish = .ok
      "a();\nif (x) \x7b\n    b();\n    try \x7b\n        c();\n    \x7d\n\x7d;\n" := by
  have hsample : Step.AllStructured unwindingSample := by
    simp [unwindingSample, Step.fail, Step.AllStructured, Step.Structured]
  obtain ⟨hdepth, hfailure, -, -, -, -, hfinish⟩ :=
    runBody_unwinds unwindingSample hsample ⟨[⟨0, "h: function () \x7b"⟩], 1⟩
  exact ⟨hsample, hdepth, hfailure, hfinish.trans (by decide +kernel)⟩

/-- A block that is only attempted is closed like any other, and the steps behind it are executed. -/
example :
    let ran := Step.runBody [.attempt (.block "try" "" [.fail "f", .line "a();"]), .line "b();"] .empty
    ran.failure = none ∧ ran.writer.finish = .ok "try {
}
b();
" := by
  decide +kernel

end HostGlue.Writer
