import HostGlue.Command

/-!
# Invocations

The arguments of a `generate` command can be given in many ways: options in any order, the settings file
behind an equals sign or in an argument of its own, and the flag for logging in either spelling and on
either side of the command. This file shows

* `Given`, an option as it was given, and `Options.with`, what options say;
* `Invocation`, one way to give a whole command, with its arguments (`words`) and what it asks for
  (`config`, `dry`, `verbose`);
* **`parse?_eq_generate_iff`: arguments are read as a `generate` command exactly if they are those of an
  invocation**, and what is read is what the invocation asks for.
-/

namespace HostGlue.Command

/-! ## 1. Options -/

/-- An option as it was given: `short` tells the spellings of the flag apart, and `apart` whether the
    value stands in an argument of its own. -/
inductive Given where
  | dry
  | verbose (short : Bool)
  | config (path : String) (apart : Bool)

/-- What an option is about. None may be given twice. -/
inductive Kind where
  | dry
  | verbose
  | config
  deriving DecidableEq

/-- The flag for logging. -/
def verboseWord (short : Bool) : String := if short then "-v" else "--verbose"

namespace Given

def kind : Given → Kind
  | dry => .dry
  | verbose _ => .verbose
  | config _ _ => .config

/-- The arguments of an option. -/
def words : Given → List String
  | dry => ["--dry-run"]
  | verbose short => [verboseWord short]
  | config path apart => if apart then ["--config", path] else ["--config=" ++ path]

theorem words_length_pos (g : Given) : 0 < g.words.length := by
  cases g with
  | config path apart => cases apart <;> exact Nat.succ_pos _
  | _ => exact Nat.succ_pos _

/-- A settings file has a name, and one that stands alone does not look like an option. -/
def Allowed : Given → Prop
  | config path apart => path ≠ "" ∧ (apart = true → isValue path = true)
  | _ => True

/-- The settings file an option gives. -/
def path? : Given → Option String
  | config path _ => some path
  | _ => none

end Given

/-- Options with further ones behind them. -/
def Options.with (o : Options) (gs : List Given) : Options :=
  ⟨o.config.or (gs.findSome? Given.path?), o.dry || (gs.map Given.kind).contains .dry,
    o.verbose || (gs.map Given.kind).contains .verbose⟩

/-- Whether an option of a kind was read. -/
def Options.has (o : Options) : Kind → Bool
  | .dry => o.dry
  | .verbose => o.verbose
  | .config => o.config.isSome

/-- Takes an option that was given. -/
def Options.take (o : Options) : Given → Option Options
  | .dry => o.setDry
  | .verbose _ => o.setVerbose
  | .config path _ => o.setConfig path

theorem Options.with_nil (o : Options) : o.with [] = o := by
  simp [Options.with]

theorem Options.with_cons (o : Options) (g : Given) (gs : List Given) :
    (o.with [g]).with gs = o.with (g :: gs) := by
  cases g with
  | dry => simp [Options.with, List.findSome?_cons, Given.path?, Given.kind]
  | verbose short => simp [Options.with, List.findSome?_cons, Given.path?, Given.kind]
  | config path apart =>
    cases hc : o.config <;> simp [Options.with, List.findSome?_cons, Given.path?, Given.kind, hc]

/-- What was read stays read. -/
theorem Options.has_with (o : Options) (g : Given) (k : Kind) :
    (o.with [g]).has k = (o.has k || k == g.kind) := by
  cases g <;> cases k <;> simp [Options.with, Options.has, Given.path?, Given.kind]

/-- An option is taken if none of its kind was read before. -/
theorem Options.take_eq_some_iff {o o' : Options} {g : Given} (h : g.Allowed) :
    o.take g = some o' ↔ o.has g.kind = false ∧ o.with [g] = o' := by
  cases g with
  | dry =>
    cases hd : o.dry <;> simp [take, setDry, has, Options.with, Given.kind, Given.path?, hd]
  | verbose short =>
    cases hv : o.verbose <;>
      simp [take, setVerbose, has, Options.with, Given.kind, Given.path?, hv]
  | config path apart =>
    cases hc : o.config <;>
      simp [take, setConfig, has, Options.with, Given.kind, Given.path?, hc, h.1]

/-- **Options are taken one after another if no two are of the same kind.** -/
theorem Options.foldlM_take_eq_some_iff {o' : Options} :
    ∀ {gs : List Given} {o : Options}, (∀ g ∈ gs, g.Allowed) →
      (gs.foldlM take o = some o' ↔ (gs.map Given.kind).Nodup ∧
        (∀ g ∈ gs, o.has g.kind = false) ∧ o.with gs = o')
  | [], o, _ => by simp [with_nil]
  | g :: gs, o, h => by
    obtain ⟨hg, hgs⟩ := List.forall_mem_cons.mp h
    rw [List.foldlM_cons, Option.bind_eq_bind, Option.bind_eq_some_iff]
    constructor
    · rintro ⟨o₁, htake, hrest⟩
      obtain ⟨hfresh, rfl⟩ := (take_eq_some_iff hg).mp htake
      obtain ⟨hnodup, hfreshs, hwith⟩ := (foldlM_take_eq_some_iff hgs).mp hrest
      simp only [has_with, Bool.or_eq_false_iff, beq_eq_false_iff_ne] at hfreshs
      rw [with_cons] at hwith
      refine ⟨List.nodup_cons.mpr ⟨fun hmem => ?_, hnodup⟩,
        List.forall_mem_cons.mpr ⟨hfresh, fun g' hg' => (hfreshs g' hg').1⟩, hwith⟩
      obtain ⟨g', hg', hkind⟩ := List.mem_map.mp hmem
      exact (hfreshs g' hg').2 hkind
    · rintro ⟨hnodup, hfreshs, hwith⟩
      obtain ⟨hnot, hnodup⟩ := List.nodup_cons.mp hnodup
      obtain ⟨hfresh, hfreshs⟩ := List.forall_mem_cons.mp hfreshs
      rw [← with_cons] at hwith
      refine ⟨o.with [g], (take_eq_some_iff hg).mpr ⟨hfresh, rfl⟩,
        (foldlM_take_eq_some_iff hgs).mpr ⟨hnodup, fun g' hg' => ?_, hwith⟩⟩
      rw [has_with, hfreshs g' hg', Bool.false_or, beq_eq_false_iff_ne]
      exact fun hkind => hnot (hkind ▸ List.mem_map_of_mem hg')

/-! ## 2. Arguments behind the command -/

/-- What may stand behind the last option. -/
def closing (closed : Bool) : List String := if closed then ["--"] else []

theorem configValue?_eq_some_iff {arg path : String} :
    configValue? arg = some path ↔ "--config=" ++ path = arg := by
  unfold configValue?
  dsimp only
  rw [Option.ite_none_right_eq_some, Option.some.injEq]
  constructor
  · rintro ⟨htake, rfl⟩
    have hparts := List.take_append_drop "--config=".toList.length arg.toList
    rw [htake] at hparts
    exact String.toList_inj.mp (by simpa [String.toList_append] using hparts)
  · rintro rfl
    rw [String.toList_append, List.take_left, List.drop_left, String.ofList_toList]
    exact ⟨rfl, rfl⟩

/-- An argument that gives a settings file is none of the others. -/
theorem parseOptions?_joined (o : Options) (path : String) (rest : List String) :
    parseOptions? o (("--config=" ++ path) :: rest) =
      (o.setConfig path).bind fun o' => parseOptions? o' rest := by
  have hvalue := configValue?_eq_some_iff.mpr (rfl : "--config=" ++ path = _)
  have hne : ∀ arg, configValue? arg = none → "--config=" ++ path ≠ arg := by
    rintro arg hnone rfl
    rw [hvalue] at hnone
    cases hnone
  rw [parseOptions?, hvalue, if_neg (hne _ (by decide)), if_neg, if_neg]
  · rfl
  · rw [Bool.or_eq_true, decide_eq_true_eq, String.toList_append]
    exact not_or.mpr ⟨hne _ (by decide), Bool.false_ne_true⟩
  · rw [Bool.or_eq_true, decide_eq_true_eq, decide_eq_true_eq]
    exact not_or.mpr ⟨hne _ (by decide), hne _ (by decide)⟩
  · exact fun h => hne _ (by decide) h
  · rintro value rest' h -
    exact hne _ (by decide) h

/-- The arguments of an option are read as that option. -/
theorem parseOptions?_words {g : Given} (h : g.Allowed) (o : Options) (rest : List String) :
    parseOptions? o (g.words ++ rest) = (o.take g).bind fun o' => parseOptions? o' rest := by
  cases g with
  | dry => rfl
  | verbose short => cases short <;> rfl
  | config path apart =>
    cases apart with
    | true =>
      show parseOptions? o ("--config" :: path :: rest) = _
      rw [parseOptions?, if_pos (h.2 rfl)]
      rfl
    | false => exact parseOptions?_joined o path rest

theorem parseOptions?_closing (o : Options) (closed : Bool) :
    parseOptions? o (closing closed) = some (.inl o) := by
  cases closed <;> rfl

/-- A settings file that is taken has a name. -/
theorem ne_of_setConfig {α : Type} {o : Options} {path : String} {f : Options → Option α} {a : α}
    (h : (o.setConfig path).bind f = some a) : path ≠ "" := by
  rintro rfl
  simp [Options.setConfig] at h

/-- What is read as options begins with one, or is the end. -/
theorem leading_of_parseOptions? {o o' : Options} {args : List String}
    (h : parseOptions? o args = some (.inl o')) :
    (∃ closed, args = closing closed ∧ o = o') ∨
      ∃ (g : Given) (rest : List String), g.Allowed ∧ args = g.words ++ rest ∧
        ((o.take g).bind fun o₁ => parseOptions? o₁ rest) = some (.inl o') := by
  unfold parseOptions? at h
  split at h
  · exact .inl ⟨false, rfl, Sum.inl.inj (Option.some.inj h)⟩
  · rename_i rest
    split at h
    · rename_i hend
      exact .inl ⟨true, by rw [List.isEmpty_iff.mp hend]; rfl, Sum.inl.inj (Option.some.inj h)⟩
    · cases h
  · rename_i value rest
    split at h
    · rename_i hvalue
      exact .inr ⟨.config value true, rest, ⟨ne_of_setConfig h, fun _ => hvalue⟩, rfl, h⟩
    · cases h
  · rename_i arg rest _ _
    split at h
    · rename_i harg
      exact .inr ⟨.dry, rest, trivial, congrArg (· :: rest) harg, h⟩
    split at h
    · rename_i harg
      rw [Bool.or_eq_true, decide_eq_true_eq, decide_eq_true_eq] at harg
      rcases harg with rfl | rfl
      · exact .inr ⟨.verbose false, rest, trivial, rfl, h⟩
      · exact .inr ⟨.verbose true, rest, trivial, rfl, h⟩
    split at h
    · cases h
    split at h
    · rename_i path hpath
      have harg := configValue?_eq_some_iff.mp hpath
      refine .inr ⟨.config path false, rest, ⟨ne_of_setConfig h, fun hf => ?_⟩, ?_, h⟩
      · cases hf
      · exact congrArg (· :: rest) harg.symm
    · cases h

/-- **Arguments behind the command are read exactly if they are those of options one after another**
    that can be taken in turn, with what closes them. -/
theorem parseOptions?_eq_some_iff {o o' : Options} {args : List String} :
    parseOptions? o args = some (.inl o') ↔ ∃ (gs : List Given) (closed : Bool),
      (∀ g ∈ gs, g.Allowed) ∧ gs.flatMap Given.words ++ closing closed = args ∧
      gs.foldlM Options.take o = some o' := by
  constructor
  · intro h
    induction hn : args.length using Nat.strongRecOn generalizing o args with
    | ind n ih =>
      rcases leading_of_parseOptions? h with
        ⟨closed, rfl, rfl⟩ | ⟨g, rest, hallowed, rfl, hread⟩
      · exact ⟨[], closed, List.forall_mem_nil _, rfl, rfl⟩
      · obtain ⟨o₁, htake, hrest⟩ := Option.bind_eq_some_iff.mp hread
        have hshorter : rest.length < n := by
          have hwords := g.words_length_pos
          rw [List.length_append] at hn
          omega
        obtain ⟨gs, closed, hgs, hargs, hfold⟩ := ih rest.length hshorter hrest rfl
        refine ⟨g :: gs, closed, List.forall_mem_cons.mpr ⟨hallowed, hgs⟩, ?_, ?_⟩
        · rw [List.flatMap_cons, List.append_assoc, hargs]
        · rw [List.foldlM_cons, htake]
          exact hfold
  · rintro ⟨gs, closed, hgs, rfl, hfold⟩
    induction gs generalizing o with
    | nil =>
      rw [List.flatMap_nil, List.nil_append, parseOptions?_closing, Option.some.inj hfold]
    | cons g gs ih =>
      obtain ⟨hallowed, hgs⟩ := List.forall_mem_cons.mp hgs
      rw [List.foldlM_cons] at hfold
      obtain ⟨o₁, htake, hfold⟩ := Option.bind_eq_some_iff.mp hfold
      rw [List.flatMap_cons, List.append_assoc, parseOptions?_words hallowed, htake]
      exact ih hgs hfold

/-! ## 3. Invocations -/

/-- One way to give a `generate` command: the flag for logging in front of the command or not, the
    options behind it, none of them twice, and what may close them. -/
structure Invocation where
  front : Option Bool
  options : List Given
  closed : Bool
  allowed : ∀ g ∈ options, g.Allowed
  once : (options.map Given.kind).Nodup

namespace Invocation

variable (i : Invocation)

/-- The arguments of an invocation. -/
def words : List String :=
  i.front.toList.map verboseWord ++
    "generate" :: (i.options.flatMap Given.words ++ closing i.closed)

/-- The settings file an invocation is for. -/
def config : String := (i.options.findSome? Given.path?).getD defaultConfig

/-- Whether an invocation asks for a dry run. -/
def dry : Bool := (i.options.map Given.kind).contains .dry

/-- Whether an invocation asks for logging, on either side of the command. -/
def verbose : Bool := i.front.isSome || (i.options.map Given.kind).contains .verbose

end Invocation

/-- What is read behind the command is what options say that are given once each. -/
theorem parseOptions?_given {o : Options} {args : List String} :
    parseOptions? {} args = some (.inl o) ↔ ∃ (gs : List Given) (closed : Bool),
      (∀ g ∈ gs, g.Allowed) ∧ (gs.map Given.kind).Nodup ∧
      gs.flatMap Given.words ++ closing closed = args ∧ Options.with {} gs = o := by
  have hfresh : ∀ k, Options.has {} k = false := by
    intro k
    cases k <;> rfl
  rw [parseOptions?_eq_some_iff]
  constructor
  · rintro ⟨gs, closed, hgs, hargs, hfold⟩
    obtain ⟨hnodup, -, hwith⟩ := (Options.foldlM_take_eq_some_iff hgs).mp hfold
    exact ⟨gs, closed, hgs, hnodup, hargs, hwith⟩
  · rintro ⟨gs, closed, hgs, hnodup, hargs, hwith⟩
    exact ⟨gs, closed, hgs, hargs,
      (Options.foldlM_take_eq_some_iff hgs).mpr ⟨hnodup, fun g _ => hfresh g.kind, hwith⟩⟩

/-- Behind a letter for logging no other may follow. -/
theorem parseLetters?_true {v : Bool} {letters : List Char}
    (h : parseLetters? true letters = some (.inl v)) : letters = [] ∧ v = true := by
  unfold parseLetters? at h
  split at h
  · cases h
    exact ⟨rfl, rfl⟩
  all_goals cases h

/-- A group of letters that is no request is the one letter for logging. -/
theorem parseLetters?_eq_inl {verbose v : Bool} {c : Char} {letters : List Char}
    (h : parseLetters? verbose (c :: letters) = some (.inl v)) :
    verbose = false ∧ c = 'v' ∧ letters = [] ∧ v = true := by
  unfold parseLetters? at h
  split at h
  · rename_i heq
    cases heq
  · rename_i rest heq
    cases heq
    cases verbose with
    | true => cases h
    | false =>
      obtain ⟨hletters, hv⟩ := parseLetters?_true h
      exact ⟨rfl, rfl, hletters, hv⟩
  all_goals cases h

/-- What is read of the arguments begins with the command, or with the flag for logging once. -/
theorem leading_of_parseFrom? {verbose dry v : Bool} {config : String} {args : List String}
    (h : parseFrom? verbose args = some (.generate config dry v)) :
    (∃ rest o, args = "generate" :: rest ∧ parseOptions? {} rest = some (.inl o) ∧
      o.config.getD defaultConfig = config ∧ o.dry = dry ∧ (verbose || o.verbose) = v) ∨
    (verbose = false ∧ ∃ short rest, args = verboseWord short :: rest ∧
      parseFrom? true rest = some (.generate config dry v)) := by
  unfold parseFrom? at h
  split at h
  · cases h
  rename_i arg rest
  split at h
  · rename_i hcommand
    subst hcommand
    split at h
    · rename_i o ho
      cases h
      exact .inl ⟨rest, o, rfl, ho, rfl, rfl, rfl⟩
    all_goals cases h
  split at h
  · split at h <;> cases h
  split at h
  · cases h
  split at h
  · cases h
  split at h
  · rename_i hflag
    subst hflag
    cases verbose with
    | true => cases h
    | false => exact .inr ⟨rfl, false, rest, rfl, h⟩
  split at h
  · rename_i c letters hletters
    split at h
    · rename_i v' hv'
      obtain ⟨rfl, rfl, rfl, rfl⟩ := parseLetters?_eq_inl hv'
      have harg : arg = "-v" := String.toList_inj.mp hletters
      exact .inr ⟨rfl, true, rest, congrArg (· :: rest) harg, h⟩
    all_goals cases h
  · cases h

theorem parseFrom?_generate (verbose : Bool) {rest : List String} {o : Options}
    (h : parseOptions? {} rest = some (.inl o)) : parseFrom? verbose ("generate" :: rest) =
      some (.generate (o.config.getD defaultConfig) o.dry (verbose || o.verbose)) := by
  rw [parseFrom?, if_pos rfl, h]

theorem parseFrom?_verboseWord (short : Bool) (rest : List String) :
    parseFrom? false (verboseWord short :: rest) = parseFrom? true rest := by
  cases short <;> rfl

/-- **Arguments are read as a `generate` command exactly if they are those of an invocation**, and what
    is read is what the invocation asks for. -/
theorem parse?_eq_generate_iff {args : List String} {config : String} {dry verbose : Bool} :
    parse? args = some (.generate config dry verbose) ↔ ∃ i : Invocation,
      i.words = args ∧ i.config = config ∧ i.dry = dry ∧ i.verbose = verbose := by
  constructor
  · intro h
    rcases leading_of_parseFrom? h with ⟨rest, o, rfl, ho, rfl, rfl, rfl⟩ |
        ⟨-, short, behind, rfl, hbehind⟩
    · obtain ⟨gs, closed, hgs, hnodup, rfl, rfl⟩ := parseOptions?_given.mp ho
      exact ⟨⟨none, gs, closed, hgs, hnodup⟩, rfl, rfl, rfl, rfl⟩
    · rcases leading_of_parseFrom? hbehind with ⟨rest, o, rfl, ho, rfl, rfl, rfl⟩ | ⟨htwice, -⟩
      · obtain ⟨gs, closed, hgs, hnodup, rfl, rfl⟩ := parseOptions?_given.mp ho
        exact ⟨⟨some short, gs, closed, hgs, hnodup⟩, rfl, rfl, rfl, rfl⟩
      · cases htwice
  · rintro ⟨⟨front, gs, closed, hgs, hnodup⟩, rfl, rfl, rfl, rfl⟩
    have ho := parseOptions?_given.mpr ⟨gs, closed, hgs, hnodup, rfl, rfl⟩
    unfold parse?
    cases front with
    | none =>
      show parseFrom? false ("generate" :: _) = _
      rw [parseFrom?_generate false ho]
      rfl
    | some short =>
      show parseFrom? false (verboseWord short :: "generate" :: _) = _
      rw [parseFrom?_verboseWord, parseFrom?_generate true ho]
      rfl

example : parse? ["-v", "generate", "--dry-run", "--config=a.toml", "--verbose", "--"] =
    some (.generate "a.toml" true true) := by
  decide +kernel

end HostGlue.Command
