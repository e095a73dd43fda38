import HostGlue.Writer.Step
import HostGlue.Proofs.Writer.Written

/-!
# Blocks opened and closed by hand

A program may open blocks that it does not close, and close blocks that are not its own. So the end of
a block may close another one, or none, and its failure may stand in for the error of the body. This
file follows a run operation by operation:

* `Request`, the operations a program asks of a writer, and `Served`, what each of them does to the
  text and the depth, and when it fails;
* `Step.moments`, the operations of a run in the order in which they are asked for, each with the
  writer that is asked, and `Linked`, that each finds the writer which those before it have left
  (`run_linked`);
* `Linked.account`, the account of a run: what was opened is closed or still open;
* **`runAll_accounts`: at every moment of every program the depth is the number of blocks opened less
  the number of blocks closed**, every operation does what `Served` says, and the text can be had at
  the end exactly if the two numbers are the same.
-/

namespace HostGlue.Writer

/-! ## 1. Operations -/

/-- An operation of a writer. -/
inductive Request where
  | line (content : String)
  | openBlock (header : String)
  | closeBlock (suffix : String)

/-- What an operation leaves: the writer, and the error it failed with, if it did. -/
def Request.serve : Request → Writer → Writer × Option GlueError
  | .line content, w => (w.line content, none)
  | .openBlock header, w => (w.openBlock header, none)
  | .closeBlock suffix, w =>
    match w.closeBlock suffix with
    | .ok closed => (closed, none)
    | .error e => (w, some e)

/-- The blanks in front of what is written at a depth. -/
def blanks (depth : Nat) : String := String.ofList (List.replicate (4 * depth) ' ')

/-- **What an operation does**: the text only grows, by one line with four blanks for every open block
    or by an empty line without any. Only a close can fail, where no block is open, and it leaves the
    writer as it is. -/
inductive Served (w : Writer) : Request → Writer → Option GlueError → Prop where
  | emptyLine {v : Writer} (depth : v.depth = w.depth) (text : v.text = w.text ++ "\n") :
      Served w (.line "") v none
  | line {content : String} {v : Writer} (filled : content ≠ "") (depth : v.depth = w.depth)
      (text : v.text = w.text ++ (blanks w.depth ++ content ++ "\n")) :
      Served w (.line content) v none
  | opened {header : String} {v : Writer} (depth : v.depth = w.depth + 1)
      (text : v.text = w.text ++ (blanks w.depth ++ openLine header ++ "\n")) :
      Served w (.openBlock header) v none
  | closed {suffix : String} {v : Writer} (depth : w.depth = v.depth + 1)
      (text : v.text = w.text ++ (blanks v.depth ++ closeLine suffix ++ "\n")) :
      Served w (.closeBlock suffix) v none
  | refused {suffix : String} (depth : w.depth = 0) :
      Served w (.closeBlock suffix) w (some (.unbalancedScope 0))

theorem openLine_ne_empty (header : String) : openLine header ≠ "" := by
  unfold openLine
  split
  · decide
  · intro h
    simpa using congrArg String.toList h

theorem closeLine_ne_empty (suffix : String) : closeLine suffix ≠ "" := by
  intro h
  simpa [closeLine] using congrArg String.toList h

theorem text_extend_singleton (w : Writer) (l : Line) : (w.extend [l]).text = w.text ++ l.text := by
  rw [text_extend, Line.join, List.map_singleton, String.join_cons, String.join_nil, String.append_empty]

/-- A line with something in it is written behind the blanks of its depth. -/
theorem text_of_ne_empty {content : String} (h : content ≠ "") (depth : Nat) :
    Line.text ⟨depth, content⟩ = blanks depth ++ content ++ "\n" := by
  rw [Line.text, if_neg h]
  rfl

/-- Every operation does what is said of it. -/
theorem Request.served : ∀ (r : Request) (w : Writer), Served w r (r.serve w).1 (r.serve w).2
  | .line content, w => by
      have htext := w.text_extend_singleton ⟨w.depth, content⟩
      by_cases h : content = ""
      · subst h
        exact .emptyLine rfl htext
      · exact .line h rfl (htext.trans (by rw [text_of_ne_empty h]))
  | .openBlock header, w => by
      have htext := w.text_extend_singleton ⟨w.depth, openLine header⟩
      rw [text_of_ne_empty (openLine_ne_empty header)] at htext
      exact .opened rfl htext
  | .closeBlock suffix, w => by
      obtain ⟨lines, depth⟩ := w
      cases depth with
      | zero => exact .refused rfl
      | succ d =>
        have htext := text_extend_singleton ⟨lines, d + 1⟩ ⟨d, closeLine suffix⟩
        rw [text_of_ne_empty (closeLine_ne_empty suffix)] at htext
        exact .closed rfl htext

theorem Served.grows {w v : Writer} {r : Request} {failure : Option GlueError}
    (h : Served w r v failure) : ∃ added, v.text = w.text ++ added := by
  cases h with
  | emptyLine _ text => exact ⟨_, text⟩
  | line _ _ text => exact ⟨_, text⟩
  | opened _ text => exact ⟨_, text⟩
  | closed _ text => exact ⟨_, text⟩
  | refused => exact ⟨"", String.append_empty.symm⟩

/-! ## 2. The moments of a run -/

/-- A writer at the moment at which an operation is asked of it. -/
structure Moment where
  writer : Writer
  request : Request

namespace Moment

/-- The writer the operation leaves. -/
def after (m : Moment) : Writer := (m.request.serve m.writer).1

/-- The error the operation fails with, if it does. -/
def failure (m : Moment) : Option GlueError := (m.request.serve m.writer).2

/-- Whether the line of a new block is written. -/
def opens (m : Moment) : Bool :=
  match m.request with
  | .openBlock _ => true
  | _ => false

/-- Whether a block is closed, and not only asked to be. -/
def closes (m : Moment) : Bool :=
  match m.request with
  | .closeBlock _ => m.failure.isNone
  | _ => false

end Moment

/-- The number of blocks opened. -/
def opened (ms : List Moment) : Nat := ms.countP Moment.opens

/-- The number of blocks closed. -/
def closed (ms : List Moment) : Nat := ms.countP Moment.closes

mutual

/-- The operations of a step. A block asks to be closed whatever has become of its body. -/
def Step.moments : Step → Writer → List Moment
  | .line content, w => [⟨w, .line content⟩]
  | .openBlock header, w => [⟨w, .openBlock header⟩]
  | .closeBlock suffix, w => [⟨w, .closeBlock suffix⟩]
  | .stop _, _ => []
  | .block header suffix body, w =>
    ⟨w, .openBlock header⟩ :: Step.bodyMoments body (w.openBlock header) ++
      [⟨(Step.runBody body (w.openBlock header)).writer, .closeBlock suffix⟩]
  | .attempt s, w => s.moments w
termination_by structural s => s

/-- The operations of a body, up to its first step that fails and is not only attempted. -/
def Step.bodyMoments : List Step → Writer → List Moment
  | [], _ => []
  | s :: ss, w =>
    s.moments w ++
      if (s.run w).failure.isNone then Step.bodyMoments ss (s.run w).writer else []
termination_by structural ss => ss

end

/-- The operations of a program that goes on behind a failure. -/
def Step.allMoments : List Step → Writer → List Moment
  | [], _ => []
  | s :: ss, w => s.moments w ++ Step.allMoments ss (s.run w).writer

/-- Operations lead from a writer to another: each is asked of what those before it have left. -/
inductive Linked : Writer → List Moment → Writer → Prop where
  | nil (w : Writer) : Linked w [] w
  | cons {m : Moment} {ms : List Moment} {v : Writer} (rest : Linked m.after ms v) :
      Linked m.writer (m :: ms) v

namespace Linked

variable {u v w : Writer} {ms ns : List Moment}

theorem append (h : Linked u ms v) (h' : Linked v ns w) : Linked u (ms ++ ns) w := by
  induction h with
  | nil => exact h'
  | cons _ ih => exact .cons (ih h')

theorem single (w : Writer) (r : Request) : Linked w [⟨w, r⟩] (r.serve w).1 :=
  @cons ⟨w, r⟩ [] _ (.nil _)

/-- An operation finds what those before it have left. -/
theorem front {m : Moment} (h : Linked u (ms ++ m :: ns) v) : Linked u ms m.writer := by
  induction ms generalizing u with
  | nil =>
    cases h with
    | cons => exact .nil _
  | cons x ms ih =>
    cases h with
    | cons rest => exact .cons (ih rest)

theorem grows (h : Linked u ms v) : ∃ added, v.text = u.text ++ added := by
  induction h with
  | nil => exact ⟨"", String.append_empty.symm⟩
  | @cons m ms v _ ih =>
    obtain ⟨first, hfirst⟩ := (m.request.served m.writer).grows
    obtain ⟨others, hothers⟩ := ih
    exact ⟨first ++ others, by rw [hothers, Moment.after, hfirst, String.append_assoc]⟩

end Linked

/-- What closing at the end of a block does is what the operation does, but for the error. -/
theorem leaveBlock_eq (suffix : String) (failure : Option GlueError) (w : Writer) :
    w.leaveBlock suffix failure = (((Request.closeBlock suffix).serve w).1,
      ((Request.closeBlock suffix).serve w).2.or failure) := by
  rw [leaveBlock, Request.serve]
  cases w.closeBlock suffix <;> rfl

mutual

/-- **A step is its operations**, one after another. -/
theorem run_linked : ∀ (s : Step) (w : Writer), Linked w (s.moments w) (s.run w).writer
  | .line content, w => .single w (.line content)
  | .openBlock header, w => .single w (.openBlock header)
  | .closeBlock suffix, w => by
      have h := Linked.single w (.closeBlock suffix)
      rw [Step.moments, Step.run]
      rw [Request.serve] at h
      cases hc : w.closeBlock suffix with
      | ok v => rwa [hc] at h
      | error e => rwa [hc] at h
  | .stop _, w => .nil w
  | .block header suffix body, w => by
      have hbody := runBody_linked body (w.openBlock header)
      have hclose := Linked.single (Step.runBody body (w.openBlock header)).writer
        (.closeBlock suffix)
      rw [Step.moments, Step.run]
      dsimp only
      rw [leaveBlock_eq]
      exact @Linked.cons ⟨w, .openBlock header⟩ _ _ (hbody.append hclose)
  | .attempt s, w => run_linked s w

theorem runBody_linked : ∀ (ss : List Step) (w : Writer),
    Linked w (Step.bodyMoments ss w) (Step.runBody ss w).writer
  | [], w => .nil w
  | s :: ss, w => by
      have hs := run_linked s w
      have hss := runBody_linked ss (s.run w).writer
      rw [Step.bodyMoments, Step.runBody]
      cases hf : (s.run w).failure with
      | some e =>
        rw [Option.isNone_some, if_neg Bool.false_ne_true, List.append_nil]
        exact hs
      | none =>
        rw [Option.isNone_none, if_pos rfl]
        exact hs.append hss

end

theorem runAll_linked : ∀ (ss : List Step) (w : Writer),
    Linked w (Step.allMoments ss w) (Step.runAll ss w).1
  | [], w => .nil w
  | s :: ss, w => (run_linked s w).append (runAll_linked ss (s.run w).writer)

/-! ## 3. The account of a run -/

/-- What one operation opens and closes is the difference it makes to the depth. -/
theorem Moment.account (m : Moment) :
    m.after.depth + m.closes.toNat = m.writer.depth + m.opens.toNat := by
  obtain ⟨w, r⟩ := m
  have h := r.served w
  unfold after closes opens failure
  cases r with
  | line content => cases h <;> simp only [*]
  | openBlock header =>
    cases h with
    | opened depth => simp only [depth]; rfl
  | closeBlock suffix =>
    generalize (Request.closeBlock suffix).serve w = served at h
    obtain ⟨v, failure⟩ := served
    cases h with
    | closed depth => simp only [depth]; rfl
    | refused => rfl

/-- **What was opened is closed or still open.** -/
theorem Linked.account {w v : Writer} {ms : List Moment} (h : Linked w ms v) :
    v.depth + closed ms = w.depth + opened ms := by
  induction h with
  | nil => rfl
  | @cons m ms v _ ih =>
    have hm := m.account
    unfold opened closed at *
    rw [List.countP_cons, List.countP_cons]
    cases ho : m.opens <;> cases hc : m.closes <;>
      simp only [ho, hc, Bool.toNat_true, Bool.toNat_false, if_true, Bool.false_eq_true, if_false]
        at hm ⊢ <;> omega

/-! ## 4. Marks -/

/-- Behind some of the operations of a run the depth is that of a mark. -/
def Noted (w : Writer) (ms : List Moment) (mark : Mark) : Prop :=
  ∃ past future v, ms = past ++ future ∧ Linked w past v ∧ v.depth = mark.depth

namespace Noted

variable {u v w : Writer} {ms ns : List Moment} {mark : Mark}

theorem last (h : Linked w ms v) (failure : Option GlueError) : Noted w ms ⟨v.depth, failure⟩ :=
  ⟨ms, [], v, (List.append_nil ms).symm, h, rfl⟩

theorem further (h : Noted w ms mark) (ns : List Moment) : Noted w (ms ++ ns) mark := by
  obtain ⟨past, future, v, rfl, hpast, hdepth⟩ := h
  exact ⟨past, future ++ ns, v, List.append_assoc past future ns, hpast, hdepth⟩

theorem behind (h : Noted v ns mark) (hms : Linked u ms v) : Noted u (ms ++ ns) mark := by
  obtain ⟨past, future, w, rfl, hpast, hdepth⟩ := h
  exact ⟨ms ++ past, future, w, (List.append_assoc ms past future).symm, hms.append hpast, hdepth⟩

theorem account (h : Noted w ms mark) : ∃ past future, ms = past ++ future ∧
    mark.depth + closed past = w.depth + opened past := by
  obtain ⟨past, future, v, hms, hpast, hdepth⟩ := h
  exact ⟨past, future, hms, hdepth ▸ hpast.account⟩

end Noted

mutual

/-- **Every mark of a run is made behind some of its operations.** -/
theorem run_noted : ∀ (s : Step) (w : Writer), ∀ mark ∈ (s.run w).marks,
    Noted w (s.moments w) mark
  | .line content, w, mark, hm => by
      obtain rfl := List.mem_singleton.mp hm
      exact .last (run_linked (.line content) w) _
  | .openBlock header, w, mark, hm => by
      obtain rfl := List.mem_singleton.mp hm
      exact .last (run_linked (.openBlock header) w) _
  | .closeBlock suffix, w, mark, hm => by
      have hlinked := run_linked (.closeBlock suffix) w
      rw [Step.run] at hm hlinked
      cases hc : w.closeBlock suffix with
      | ok v =>
        rw [hc] at hm hlinked
        obtain rfl := List.mem_singleton.mp hm
        exact .last hlinked _
      | error e =>
        rw [hc] at hm hlinked
        obtain rfl := List.mem_singleton.mp hm
        exact .last hlinked _
  | .stop error, w, mark, hm => by
      obtain rfl := List.mem_singleton.mp hm
      exact .last (run_linked (.stop error) w) _
  | .block header suffix body, w, mark, hm => by
      rcases List.mem_append.mp hm with hm | hm
      · have hbody := runBody_noted body (w.openBlock header) mark hm
        exact (hbody.behind (.single w (.openBlock header))).further _
      · obtain rfl := List.mem_singleton.mp hm
        exact .last (run_linked (.block header suffix body) w) _
  | .attempt s, w, mark, hm => run_noted s w mark hm

theorem runBody_noted : ∀ (ss : List Step) (w : Writer), ∀ mark ∈ (Step.runBody ss w).marks,
    Noted w (Step.bodyMoments ss w) mark
  | [], _, _, hm => absurd hm List.not_mem_nil
  | s :: ss, w, mark, hm => by
      rw [Step.runBody] at hm
      rw [Step.bodyMoments]
      cases hf : (s.run w).failure with
      | some e =>
        rw [hf] at hm
        exact (run_noted s w mark hm).further _
      | none =>
        rw [hf] at hm
        rw [Option.isNone_none, if_pos rfl]
        rcases List.mem_append.mp hm with hm | hm
        · exact (run_noted s w mark hm).further _
        · exact (runBody_noted ss (s.run w).writer mark hm).behind (run_linked s w)

end

theorem runAll_noted : ∀ (ss : List Step) (w : Writer), ∀ mark ∈ (Step.runAll ss w).2,
    Noted w (Step.allMoments ss w) mark
  | [], _, _, hm => absurd hm List.not_mem_nil
  | s :: ss, w, mark, hm => by
      rcases List.mem_append.mp hm with hm | hm
      · exact (run_noted s w mark hm).further _
      · exact (runAll_noted ss (s.run w).writer mark hm).behind (run_linked s w)

/-! ## 5. Programs -/

/-- A close fails exactly where no block is open. -/
theorem run_closeBlock (suffix : String) (w : Writer) :
    ((Step.closeBlock suffix).run w).failure =
      if w.depth = 0 then some (.unbalancedScope 0) else none := by
  obtain ⟨lines, depth⟩ := w
  cases depth <;> rfl

/-- **The end of a block decides first**: where its body has left no block open, that is the error,
    whatever the body's own, and the writer stays as the body has left it. -/
theorem run_block (header suffix : String) (body : List Step) (w : Writer) :
    let inner := Step.runBody body (w.openBlock header)
    let ran := (Step.block header suffix body).run w
    ran.failure = (if inner.writer.depth = 0 then some (.unbalancedScope 0) else inner.failure) ∧
      (inner.writer.depth = 0 → ran.writer = inner.writer) := by
  intro inner ran
  have hran : ran.writer = (inner.writer.leaveBlock suffix inner.failure).1 ∧
      ran.failure = (inner.writer.leaveBlock suffix inner.failure).2 := ⟨rfl, rfl⟩
  rw [hran.1, hran.2, leaveBlock, closeBlock]
  cases inner.writer.depth with
  | zero => exact ⟨rfl, fun _ => rfl⟩
  | succ d => exact ⟨rfl, fun h => by cases h⟩

/-- **The account of a program.** Whatever a program opens and closes, by hand or by blocks, nested to
    any depth and with errors anywhere, ignored or not, its run on an empty writer is a sequence of
    operations, each asked of what those before it have left. At the moment of each, at every mark, and
    at the end, the depth is the number of blocks opened less the number of blocks closed. Each operation
    does what `Served` says: it only adds to the text, indented by the depth, and only a close can fail,
    exactly where no block is open, and then it changes nothing. A block fails if its own end does, and
    as its body does otherwise. The whole text can be had exactly where no block is open, that is, where
    as many were closed as opened; otherwise the error says how many are open. -/
theorem runAll_accounts (ss : List Step) :
    let ran := (Step.runAll ss .empty).1
    let moments := Step.allMoments ss .empty
    Linked .empty moments ran ∧
    (∀ past m future, moments = past ++ m :: future →
      m.writer.depth + closed past = opened past) ∧
    (∀ mark ∈ (Step.runAll ss .empty).2, ∃ past future, moments = past ++ future ∧
      mark.depth + closed past = opened past) ∧
    ran.depth + closed moments = opened moments ∧
    (∀ m ∈ moments, Served m.writer m.request m.after m.failure) ∧
    (∀ (s : Step) (w : Writer), ∃ added, (s.run w).writer.text = w.text ++ added) ∧
    (∀ (suffix : String) (w : Writer), ((Step.closeBlock suffix).run w).failure =
      if w.depth = 0 then some (.unbalancedScope 0) else none) ∧
    (∀ (header suffix : String) (body : List Step) (w : Writer),
      let inner := Step.runBody body (w.openBlock header)
      let block := (Step.block header suffix body).run w
      block.failure = (if inner.writer.depth = 0 then some (.unbalancedScope 0) else inner.failure) ∧
        (inner.writer.depth = 0 → block.writer = inner.writer)) ∧
    (ran.finish = if ran.depth = 0 then .ok ran.text else .error (.unbalancedScope ran.depth)) ∧
    (ran.depth = 0 ↔ opened moments = closed moments) := by
  intro ran moments
  have hlinked : Linked .empty moments ran := runAll_linked ss .empty
  have haccount := hlinked.account
  rw [show Writer.empty.depth = 0 from rfl, Nat.zero_add] at haccount
  refine ⟨hlinked, fun past m future h => ?_, fun mark hm => ?_, haccount, fun m _ =>
    m.request.served m.writer, fun s w => (run_linked s w).grows, run_closeBlock, run_block, rfl, ?_⟩
  · rw [h] at hlinked
    have hpast := hlinked.front.account
    rwa [show Writer.empty.depth = 0 from rfl, Nat.zero_add] at hpast
  · obtain ⟨past, future, h, hpast⟩ := (runAll_noted ss .empty mark hm).account
    rw [show Writer.empty.depth = 0 from rfl, Nat.zero_add] at hpast
    exact ⟨past, future, h, hpast⟩
  · omega

/-- A body that closes its own block hides the error it fails with: the end of the block finds no open
    one. -/
example : (Step.runAll [.block "a" ";" [.line "b", .closeBlock "", .fail "f"]] .empty).2 =
    [⟨1, none⟩, ⟨0, none⟩, ⟨0, some (.duplicateFunction "f")⟩, ⟨0, some (.unbalancedScope 0)⟩] := by
  decide +kernel

end HostGlue.Writer
