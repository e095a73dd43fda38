import HostGlue.Proofs.Command.Invocations
import HostGlue.Proofs.Run.Stages
import HostGlue.Proofs.Text.Reading

/-!
# What a command does

A `generate` command is a run with the settings file and the dry flag it asks for, and what the run
comes to is told by an exit code and two streams. This file shows

* `isLine_reportText_iff` and `reportText_inj`: when the report of a run that ended well is one line,
  and that its counts can be read off it;
* `runProgram_words`, what the program does for an invocation, from the run, over any store;
* **`generate_runs`: the arguments that are accepted, what comes of them, and that only the settings file
  and the dry flag matter besides the log.** The console may have any words.
-/

namespace HostGlue.Command

/-! ## 1. Reports -/

/-- A text of one line, with the line feed that ends it. -/
def IsLine (text : String) : Prop :=
  text.toList.getLast? = some '\n' ∧ text.toList.count '\n' = 1

instance (text : String) : Decidable (IsLine text) := inferInstanceAs (Decidable (_ ∧ _))

/-- No line feed is among digits. -/
theorem count_toDigits (n : Nat) : (Nat.toDigits 10 n).count '\n' = 0 :=
  List.count_eq_zero.mpr fun h => by cases Digits.isDigit_of_mem h

/-- A report has the line feeds of the path it names, and one at its end. -/
theorem count_reportText (r : Report) : (reportText r).toList.count '\n' =
    (if r.written then r.output.toList.count '\n' else 0) + 1 := by
  cases hw : r.written with
  | true =>
    have hwords : "jsglue: wrote ".toList.count '\n' = 0 ∧ " glue functions to ".toList.count '\n' = 0 ∧
        " (".toList.count '\n' = 0 ∧ " bytes)\n".toList.count '\n' = 1 := by decide
    simp only [reportText, hw, if_true, String.toList_append, List.count_append,
      Digits.toList_ofInt_natCast, count_toDigits, hwords, Nat.zero_add, Nat.add_zero]
  | false =>
    have hwords : "jsglue: ".toList.count '\n' = 0 ∧ " glue functions OK (".toList.count '\n' = 0 ∧
        " bytes, not written)\n".toList.count '\n' = 1 := by decide
    simp only [reportText, hw, Bool.false_eq_true, if_false, String.toList_append, List.count_append,
      Digits.toList_ofInt_natCast, count_toDigits, hwords, Nat.zero_add]

theorem getLast?_reportText (r : Report) : (reportText r).toList.getLast? = some '\n' := by
  cases hw : r.written <;>
    · simp only [reportText, hw, if_true, Bool.false_eq_true, if_false]
      rw [String.toList_append, List.getLast?_append]
      rfl

/-- **A report is one line exactly if no line feed is in the path it names.** -/
theorem isLine_reportText_iff (r : Report) :
    IsLine (reportText r) ↔ (r.written = true → '\n' ∉ r.output.toList) := by
  rw [IsLine, count_reportText, getLast?_reportText]
  cases r.written <;> simp [List.count_eq_zero]

/-- A number stands at the start of a text for itself. -/
theorem toDigits_append_inj {m n : Nat} {c : Char} {xs ys : List Char} (hc : ¬ c.isDigit = true)
    (h : Nat.toDigits 10 m ++ c :: xs = Nat.toDigits 10 n ++ c :: ys) : m = n ∧ xs = ys := by
  obtain ⟨hdigits, -, hrest⟩ := Text.append_cons_inj (p := (Char.isDigit · = true)) hc hc
    (fun _ => Digits.isDigit_of_mem) (fun _ => Digits.isDigit_of_mem) h
  exact ⟨Digits.toDigits_inj hdigits, hrest⟩

/-- A number stands at the end of a text for itself. -/
theorem append_toDigits_inj {m n : Nat} {c : Char} {xs ys : List Char} (hc : ¬ c.isDigit = true)
    (h : xs ++ c :: Nat.toDigits 10 m = ys ++ c :: Nat.toDigits 10 n) : m = n ∧ xs = ys := by
  have hback := congrArg List.reverse h
  simp only [List.reverse_append, List.reverse_cons, List.append_assoc, List.singleton_append]
    at hback
  obtain ⟨hdigits, -, hrest⟩ := Text.append_cons_inj (p := (Char.isDigit · = true)) hc hc
    (fun _ hmem => Digits.isDigit_of_mem (List.mem_reverse.mp hmem))
    (fun _ hmem => Digits.isDigit_of_mem (List.mem_reverse.mp hmem)) hback
  exact ⟨Digits.toDigits_inj (List.reverse_inj.mp hdigits), List.reverse_inj.mp hrest⟩

theorem toList_reportText_written {r : Report} (h : r.written = true) :
    (reportText r).toList = "jsglue: ".toList ++ ("wrote ".toList ++ (Nat.toDigits 10 r.externs ++
      ' ' :: ("glue functions to ".toList ++ ((r.output.toList ++ [' ']) ++
        '(' :: Nat.toDigits 10 r.bytes ++ " bytes)\n".toList)))) := by
  simp [reportText, h, Digits.toList_ofInt_natCast]

theorem toList_reportText_dry {r : Report} (h : r.written = false) :
    (reportText r).toList = "jsglue: ".toList ++ (Nat.toDigits 10 r.externs ++
      ' ' :: ("glue functions OK (".toList ++ (Nat.toDigits 10 r.bytes ++
        ' ' :: "bytes, not written)\n".toList))) := by
  simp [reportText, h, Digits.toList_ofInt_natCast]

/-- A report tells whether the output was written. -/
theorem reportText_ne {r s : Report} (hr : r.written = true) (hs : s.written = false) :
    reportText r ≠ reportText s := by
  intro h
  have hchars := congrArg String.toList h
  rw [toList_reportText_written hr, toList_reportText_dry hs] at hchars
  obtain ⟨d, ds, hfirst, hdigit⟩ := Digits.exists_toDigits s.externs
  rw [hfirst] at hchars
  have hd : 'w' = d := (List.cons.inj (List.append_cancel_left hchars)).1
  rw [← hd] at hdigit
  cases hdigit

/-- **What a report counts can be read off it**, and where the output was put. -/
theorem reportText_inj {r s : Report} (h : reportText r = reportText s) :
    r.written = s.written ∧ r.externs = s.externs ∧ r.bytes = s.bytes ∧
      (r.written = true → r.output = s.output) := by
  have hchars := congrArg String.toList h
  cases hr : r.written <;> cases hs : s.written
  case false.true => exact absurd h.symm (reportText_ne hs hr)
  case true.false => exact absurd h (reportText_ne hr hs)
  case false.false =>
    rw [toList_reportText_dry hr, toList_reportText_dry hs, List.append_cancel_left_eq] at hchars
    obtain ⟨hexterns, hrest⟩ := toDigits_append_inj (by decide) hchars
    rw [List.append_cancel_left_eq] at hrest
    exact ⟨rfl, hexterns, (toDigits_append_inj (by decide) hrest).1, by simp⟩
  case true.true =>
    rw [toList_reportText_written hr, toList_reportText_written hs, List.append_cancel_left_eq,
      List.append_cancel_left_eq] at hchars
    obtain ⟨hexterns, hrest⟩ := toDigits_append_inj (by decide) hchars
    rw [List.append_cancel_left_eq, List.append_cancel_right_eq] at hrest
    obtain ⟨hbytes, houtput⟩ := append_toDigits_inj (by decide) hrest
    rw [List.append_cancel_right_eq, String.toList_inj] at houtput
    exact ⟨rfl, hexterns, hbytes, fun _ => houtput⟩

/-! ## 2. Effects -/

/-- What is logged of a run that was asked for by an invocation. -/
def Invocation.logged (i : Invocation) (c : Console) (outcome : Run.Outcome) : String :=
  c.logged i.verbose (.invocation i.config i.dry :: outcome.log)

/-- **The program does for an invocation what the run does**, and tells what came of it. -/
theorem runProgram_words {m : Type → Type} [Monad m] (c : Console) (store : File.Store m)
    (i : Invocation) : runProgram c store i.words = do
      let outcome ← Run.run store i.config i.dry
      return tell c i.config i.dry i.verbose outcome := by
  have hparse : parse? i.words = some (.generate i.config i.dry i.verbose) :=
    parse?_eq_generate_iff.mpr ⟨i, rfl, rfl, rfl, rfl⟩
  rw [runProgram, hparse]

variable {σ : Type}

/-- The program over a store: what it prints, and the state it leaves. -/
def onStore (c : Console) (store : File.Store (StateM σ)) (s : σ) (args : List String) : Output × σ :=
  ((runProgram c store args).run s).run

theorem onStore_words (c : Console) (store : File.Store (StateM σ)) (s : σ) (i : Invocation) :
    onStore c store s i.words =
      (tell c i.config i.dry i.verbose (Run.onStore store s i.config i.dry).1,
        (Run.onStore store s i.config i.dry).2) := by
  rw [onStore, runProgram_words]
  rfl

/-- What is told of a run that ended well is its report. -/
theorem tell_ok {c : Console} {i : Invocation} {outcome : Run.Outcome} {report : Report}
    (h : outcome.result = .ok report) : tell c i.config i.dry i.verbose outcome =
      ⟨0, reportText report, i.logged c outcome⟩ := by
  rw [tell, h]
  rfl

/-- What is told of a run that failed is its error, behind the log. -/
theorem tell_error {c : Console} {i : Invocation} {outcome : Run.Outcome} {e : GlueError}
    (h : outcome.result = .error e) : tell c i.config i.dry i.verbose outcome =
      ⟨1, "", i.logged c outcome ++ failureText c.toWording i.config e⟩ := by
  rw [tell, h]
  rfl

/-- The exit code is zero exactly if a run ended well. -/
theorem tell_exit_eq_zero_iff (c : Console) (i : Invocation) (outcome : Run.Outcome) :
    (tell c i.config i.dry i.verbose outcome).exit = 0 ↔
      ∃ report, outcome.result = .ok report := by
  cases h : outcome.result with
  | ok report =>
    rw [tell_ok h]
    exact ⟨fun _ => ⟨report, rfl⟩, fun _ => rfl⟩
  | error e =>
    rw [tell_error h]
    constructor
    · intro h
      cases h
    · rintro ⟨report, h⟩
      cases h

/-- So it is for all arguments of the command. -/
theorem exit_eq_zero_iff (c : Console) (store : File.Store (StateM σ)) (s : σ) {args : List String}
    {config : String} {dry verbose : Bool} (h : parse? args = some (.generate config dry verbose)) :
    (onStore c store s args).1.exit = 0 ↔
      ∃ report, (Run.onStore store s config dry).1.result = .ok report := by
  obtain ⟨i, rfl, rfl, rfl, rfl⟩ := parse?_eq_generate_iff.mp h
  rw [onStore_words]
  exact tell_exit_eq_zero_iff c i _

/-- A log stands in front of what is told, and changes nothing else. -/
theorem tell_agree (c : Console) (outcome : Run.Outcome) {i j : Invocation}
    (hconfig : i.config = j.config) : ∃ exit out rest,
      tell c i.config i.dry i.verbose outcome = ⟨exit, out, i.logged c outcome ++ rest⟩ ∧
      tell c j.config j.dry j.verbose outcome = ⟨exit, out, j.logged c outcome ++ rest⟩ := by
  cases h : outcome.result with
  | ok report =>
    refine ⟨0, reportText report, "", ?_, ?_⟩ <;> rw [tell_ok h, String.append_empty]
  | error e =>
    refine ⟨1, "", failureText c.toWording j.config e, ?_, ?_⟩
    · rw [tell_error h, hconfig]
    · rw [tell_error h]

/-- **A command is a run**, whatever the words of the console and whatever the store. Arguments are
    accepted as a `generate` command exactly if they are those of an invocation, and then they ask for
    its settings file and its dry flag. The files are those that the run leaves. The exit code is zero if
    the run ended well: then its report is printed, from which its counts can be read off, as one line
    unless the output was written to a path with a line feed in it. Otherwise the exit code is one,
    nothing is printed to the first stream, and the failure to the second, behind the log. Invocations
    that ask for the same settings file and agree in the dry flag differ at most in their logs. -/
theorem generate_runs (c : Console) (store : File.Store (StateM σ)) (s : σ) :
    (∀ args config dry verbose, parse? args = some (.generate config dry verbose) ↔
      ∃ i : Invocation, i.words = args ∧ i.config = config ∧ i.dry = dry ∧ i.verbose = verbose) ∧
    (∀ i : Invocation,
      let ran := Run.onStore store s i.config i.dry
      let did := onStore c store s i.words
      did.2 = ran.2 ∧
      (did.1.exit = 0 ↔ ∃ report, ran.1.result = .ok report) ∧
      (∀ report, ran.1.result = .ok report →
        did.1 = ⟨0, reportText report, i.logged c ran.1⟩ ∧
        (IsLine did.1.out ↔ (report.written = true → '\n' ∉ report.output.toList)) ∧
        ∀ other : Report, reportText other = did.1.out → other.written = report.written ∧
          other.externs = report.externs ∧ other.bytes = report.bytes) ∧
      (∀ e, ran.1.result = .error e →
        did.1 = ⟨1, "", i.logged c ran.1 ++ failureText c.toWording i.config e⟩)) ∧
    (∀ i j : Invocation, i.config = j.config → i.dry = j.dry → ∃ exit out rest u,
      let ran := Run.onStore store s i.config i.dry
      onStore c store s i.words = (⟨exit, out, i.logged c ran.1 ++ rest⟩, u) ∧
      onStore c store s j.words = (⟨exit, out, j.logged c ran.1 ++ rest⟩, u)) := by
  refine ⟨fun args config dry verbose => parse?_eq_generate_iff, fun i => ?_,
    fun i j hconfig hdry => ?_⟩
  · intro ran did
    have hdid : did = (tell c i.config i.dry i.verbose ran.1, ran.2) := onStore_words c store s i
    rw [hdid]
    refine ⟨rfl, tell_exit_eq_zero_iff c i ran.1, fun report hok => ?_, fun e herror => tell_error herror⟩
    rw [tell_ok hok]
    refine ⟨rfl, isLine_reportText_iff report, fun other hother => ?_⟩
    obtain ⟨hwritten, hexterns, hbytes, -⟩ := reportText_inj hother
    exact ⟨hwritten, hexterns, hbytes⟩
  · obtain ⟨exit, out, rest, hi, hj⟩ := tell_agree c (Run.onStore store s i.config i.dry).1 hconfig
    refine ⟨exit, out, rest, (Run.onStore store s i.config i.dry).2, ?_, ?_⟩
    · rw [onStore_words, hi]
    · have hran : Run.onStore store s j.config j.dry = Run.onStore store s i.config i.dry := by
        rw [hconfig, hdry]
      rw [onStore_words, hran, hj]

/-- A console of no words. -/
def Console.silent : Console where
  settings _ _ := ""
  catalog _ _ := ""
  help _ := ""
  usage _ := ""
  filter := none
  log _ := ""

/-- A tree whose settings put the output under a name of two lines. -/
def lineFeedTree : File.Tree :=
  ⟨["work"], [(["work", defaultConfig],
      .file "[codegen.paths]\ncatalog = \"c.json\"\noutput = \"a\\nb\"\n".toUTF8),
    (["work", "c.json"], .file "\x7b\"functions\":[]\x7d".toUTF8)]⟩

/-- A run that ends well need not be reported in one line: the path of the output is printed as it
    is. -/
theorem report_of_two_lines :
    (∃ report, (Run.onStore File.Tree.store lineFeedTree defaultConfig false).1.result = .ok report) ∧
    parse? ["generate"] = some (.generate defaultConfig false false) ∧
    (onStore .silent File.Tree.store lineFeedTree ["generate"]).1 =
      ⟨0, "jsglue: wrote 0 glue functions to a\nb (122 bytes)\n", ""⟩ ∧
    ¬ IsLine (onStore .silent File.Tree.store lineFeedTree ["generate"]).1.out := by
  have hdid : (onStore .silent File.Tree.store lineFeedTree ["generate"]).1 =
      ⟨0, "jsglue: wrote 0 glue functions to a\nb (122 bytes)\n", ""⟩ := by decide +kernel
  have hparse : parse? ["generate"] = some (.generate defaultConfig false false) := by
    decide +kernel
  refine ⟨(exit_eq_zero_iff .silent File.Tree.store lineFeedTree hparse).mp ?_, hparse, hdid, ?_⟩
  · rw [hdid]
  · rw [hdid]
    decide +kernel

end HostGlue.Command
