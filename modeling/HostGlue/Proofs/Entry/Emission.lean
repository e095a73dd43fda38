import HostGlue.Proofs.Entry.Acceptance
import HostGlue.Proofs.Writer.Written

/-!
# What an emission does to its writer

An emission has one writer for all it writes, which may hold any text and stand at any depth. This
file shows that

* an extern is refused for reasons of its own, never for an open block (`ofKind_ne_unbalancedScope`);
* a refused extern leaves the writer as it was, and an accepted one adds its lines at the depth of
  the writer (`emission_of_error`, `emission_of_ok`);
* so an emission is all or nothing, the same at every writer up to indentation
  (`emission_all_or_nothing`).
-/

namespace HostGlue.Entry

/-! ## 1. Refusals -/

/-- An error that blames an extern, and not the writer. -/
def Blames (err : GlueError) : Prop := ∀ d, err ≠ .unbalancedScope d

theorem blames_of_bindingError? {locals : List String} {ctx : Context} {e : Extern}
    {err : GlueError} (h : bindingError? locals ctx e = some err) : Blames err := by
  unfold bindingError? at h
  split at h
  · cases h
    exact fun d hd => by cases hd
  · obtain ⟨bad, -, rfl⟩ := Option.map_eq_some_iff.mp h
    exact fun d hd => by cases hd

theorem blames_of_ordinaryError? {ctx : Context} {e : Extern} {err : GlueError}
    (h : Ordinary.error? ctx e = some err) : Blames err := by
  unfold Ordinary.error? at h
  split at h
  · cases h
    exact fun d hd => by cases hd
  · split at h
    · cases h
      exact fun d hd => by cases hd
    · exact blames_of_bindingError? h

theorem blames_of_trampoline {ctx : Context} {e : Extern} {x : String} {p : Param}
    {err : GlueError} (h : Trampoline.of ctx e x p = .error err) : Blames err := by
  unfold Trampoline.of at h
  cases hty : p.ty with
  | plain t =>
    rw [hty] at h
    cases h
    exact fun d hd => by cases hd
  | callback params result =>
    simp only [hty] at h
    split at h
    · cases h
      exact fun d hd => by cases hd
    · cases hsig : callSignature result params with
      | ok signature => rw [hsig] at h; cases h
      | error u =>
        rw [hsig] at h
        cases h
        exact fun d hd => by cases hd

theorem blames_of_trampolines {ctx : Context} {e : Extern} {err : GlueError} :
    ∀ {xs : List (String × Param)}, trampolines ctx e xs = .error err → Blames err
  | [], h => by cases h
  | (x, p) :: xs, h => by
      unfold trampolines at h
      cases ht : Trampoline.of ctx e x p with
      | error err' =>
        rw [ht] at h
        cases h
        exact blames_of_trampoline ht
      | ok t =>
        rw [ht] at h
        cases hts : trampolines ctx e xs with
        | ok us => rw [hts] at h; cases h
        | error err' =>
          rw [hts] at h
          cases h
          exact blames_of_trampolines hts

theorem blames_of_initializer {ctx : Context} {e : Extern} {err : GlueError}
    (h : Initializer.of ctx e = .error err) : Blames err := by
  unfold Initializer.of at h
  split at h
  · rename_i hb
    cases h
    exact blames_of_bindingError? hb
  · split at h
    · cases h
      exact fun d hd => by cases hd
    · cases ht : Entry.trampolines ctx e (trampolineNames.zip e.params) with
      | ok ts => rw [ht] at h; cases h
      | error err' =>
        rw [ht] at h
        cases h
        exact blames_of_trampolines ht

/-- **A refusal is about the extern**: no extern is refused for a block that is open or not. -/
theorem ofKind_ne_unbalancedScope {ctx : Context} {kind : Kind} {e : Extern} {err : GlueError}
    (h : ofKind ctx kind e = .error err) : Blames err := by
  cases kind with
  | ordinary =>
    cases ho : Ordinary.of ctx e with
    | ok o => rw [ofKind, ho] at h; cases h
    | error err' =>
      rw [ofKind, ho] at h
      cases h
      exact blames_of_ordinaryError? (Ordinary.of_eq_error ho)
  | initializer =>
    cases hi : Initializer.of ctx e with
    | ok i => rw [ofKind, hi] at h; cases h
    | error err' =>
      rw [ofKind, hi] at h
      cases h
      exact blames_of_initializer hi

/-! ## 2. One emission -/

variable {ctx : Context} {kind : Kind} {e : Extern}

/-- A refused extern leaves the writer as it was, and nothing is reported. -/
theorem emission_of_error {err : GlueError} (h : ofKind ctx kind e = .error err) (w : Writer) :
    emission ctx kind e w = ⟨w, [], some err⟩ := by
  rw [emission, h]

/-- An accepted extern adds the lines of its entry at the depth of the writer. -/
theorem emission_of_ok {entry : Entry ctx} (h : ofKind ctx kind e = .ok entry) (w : Writer) :
    emission ctx kind e w =
      ⟨w.extend (entry.code.lines w.depth), [entry.record], none⟩ := by
  rw [emission, h]
  simp only [Writer.write_eq]

/-- What emitting an extern and finishing gives on a writer of its own. -/
def alone (ctx : Context) (kind : Kind) (e : Extern) : Except GlueError String :=
  let emitted := emission ctx kind e .empty
  match emitted.failure with
  | some err => .error err
  | none => emitted.writer.finish

theorem alone_of_error {err : GlueError} (h : ofKind ctx kind e = .error err) :
    alone ctx kind e = .error err := by
  rw [alone, emission_of_error h]

theorem alone_of_ok {entry : Entry ctx} (h : ofKind ctx kind e = .ok entry) :
    alone ctx kind e = .ok (Line.join (entry.code.lines 0)) := by
  rw [alone, emission_of_ok h]
  rfl

/-- The text of an accepted extern at a depth is its own text, indented. -/
theorem join_lines_code {entry : Entry ctx} (h : ofKind ctx kind e = .ok entry) (d : Nat) :
    Line.join (entry.code.lines d) =
      Text.indent (indentWidth * d) (Line.join (entry.code.lines 0)) :=
  Code.join_lines (solid_code h 0) d

/-! ## 3. Emissions in sequence -/

/-- The writer behind a sequence of emissions, each tried whether or not one before it failed. -/
def emitEach (ctx : Context) : List (Kind × Extern) → Writer → Writer
  | [], w => w
  | (kind, e) :: rest, w => emitEach ctx rest (emission ctx kind e w).writer

/-- The text an extern has on a writer of its own, if it is accepted. -/
def aloneText? (ctx : Context) (call : Kind × Extern) : Option String :=
  (alone ctx call.1 call.2).toOption

/-- What a sequence of emissions adds are the texts of the accepted externs, each indented to the
    depth of the writer, and the depth stays as it was. -/
theorem emitEach_eq : ∀ (calls : List (Kind × Extern)) (w : Writer),
    (emitEach ctx calls w).depth = w.depth ∧
    (emitEach ctx calls w).text =
      w.text ++ String.join ((calls.filterMap (aloneText? ctx)).map
        (Text.indent (indentWidth * w.depth)))
  | [], w => ⟨rfl, (String.append_empty).symm⟩
  | (kind, e) :: rest, w => by
      cases h : ofKind ctx kind e with
      | error err =>
        have hnone : aloneText? ctx (kind, e) = none := by
          rw [aloneText?, alone_of_error h]
          rfl
        rw [emitEach, emission_of_error h, List.filterMap_cons_none hnone]
        exact emitEach_eq rest w
      | ok entry =>
        have hsome : aloneText? ctx (kind, e) = some (Line.join (entry.code.lines 0)) := by
          rw [aloneText?, alone_of_ok h]
          rfl
        obtain ⟨hdepth, htext⟩ := emitEach_eq rest (w.extend (entry.code.lines w.depth))
        rw [emitEach, emission_of_ok h, List.filterMap_cons_some hsome, List.map_cons]
        refine ⟨hdepth, ?_⟩
        rw [htext, Writer.text_extend, join_lines_code h w.depth, Writer.extend_depth,
          String.append_assoc, ← String.join_cons]

/-- **An emission is all or nothing, and the same on every writer.** If it fails, the writer is as it
    was. Otherwise the depth is as it was, and the text is the one before it and then the text of the
    same emission on an empty writer with four blanks per level before every line. Whether it fails,
    and why, is decided by the extern alone, and the reason is never an open block. So what a
    sequence of emissions adds are the texts of those that succeed. -/
theorem emission_all_or_nothing (ctx : Context) (kind : Kind) (e : Extern) (w : Writer) :
    let here := emission ctx kind e w
    let fresh := emission ctx kind e .empty
    here.failure = fresh.failure ∧ (∀ d, here.failure ≠ some (.unbalancedScope d)) ∧
    (∀ err, here.failure = some err → here.writer = w) ∧
    (here.failure = none → here.writer.depth = w.depth ∧
      here.writer.text = w.text ++ Text.indent (4 * w.depth) fresh.writer.text) ∧
    ∀ calls : List (Kind × Extern), (emitEach ctx calls w).depth = w.depth ∧
      (emitEach ctx calls w).text =
        w.text ++ String.join ((calls.filterMap (aloneText? ctx)).map (Text.indent (4 * w.depth))) := by
  intro here fresh
  have hcalls := fun calls : List (Kind × Extern) => @emitEach_eq ctx calls w
  cases h : ofKind ctx kind e with
  | error err =>
    have hhere : here = ⟨w, [], some err⟩ := emission_of_error h w
    have hfresh : fresh = ⟨.empty, [], some err⟩ := emission_of_error h .empty
    rw [hhere, hfresh]
    refine ⟨rfl, fun d hd => ?_, fun _ _ => rfl, fun hn => ?_, hcalls⟩
    · exact ofKind_ne_unbalancedScope h d (Option.some.inj hd)
    · cases hn
  | ok entry =>
    have hhere : here = ⟨w.extend (entry.code.lines w.depth), [entry.record], none⟩ :=
      emission_of_ok h w
    have hfresh : fresh = ⟨Writer.empty.extend (entry.code.lines 0), [entry.record], none⟩ :=
      emission_of_ok h .empty
    rw [hhere, hfresh]
    refine ⟨rfl, fun d hd => by (cases hd), fun _ he => by (cases he), fun _ => ⟨rfl, ?_⟩, hcalls⟩
    rw [Writer.text_extend, Writer.text_extend, Writer.text_empty, String.empty_append,
      join_lines_code h w.depth]
    rfl

end HostGlue.Entry
