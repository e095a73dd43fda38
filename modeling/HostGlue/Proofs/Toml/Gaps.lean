import HostGlue.Toml.Document
import Mathlib.Data.List.TakeWhile

/-!
# What stands between the parts of a TOML text

The grammar of what is passed over, said without reading it, and that the scanners pass over it:

* `Blank`, `Newline` and `Comment`, the pieces, and `Gap`, what may stand between two lines and between
  the elements of an array (`skipLines_gap`);
* `lineEnd?_append` and `lineEnd?_last`, the end of a line;
* `Follow`, what a value may stand in front of.
-/

namespace HostGlue.Toml

/-! ## 1. Blanks, line ends, comments -/

/-- Nothing but blanks. -/
def Blank (ws : List Char) : Prop := ∀ c ∈ ws, isBlank c = true

/-- A text that does not begin with a character of a kind. -/
def NotAhead (p : Char → Bool) (cs : List Char) : Prop := ∀ c ∈ cs.head?, p c = false

/-- A line end as it may be written. -/
inductive Newline : List Char → Prop where
  | feed : Newline ['\n']
  | both : Newline ['\r', '\n']

/-- A comment as it may be written, or none. -/
inductive Comment : List Char → Prop where
  | none : Comment []
  | some {cs : List Char} (printed : ∀ c ∈ cs, isPrinted c = true) : Comment ('#' :: cs)

/-- What may stand between two lines, and between the elements of an array: blanks, line ends, and
    comments up to a line end. -/
inductive Gap : List Char → Prop where
  | nil : Gap []
  | blank {c : Char} {cs : List Char} (blank : isBlank c = true) (gap : Gap cs) : Gap (c :: cs)
  | line {note nl cs : List Char} (comment : Comment note) (newline : Newline nl) (gap : Gap cs) :
      Gap (note ++ (nl ++ cs))

theorem blank_nil : Blank [] := nofun

theorem notAhead_nil (p : Char → Bool) : NotAhead p [] := nofun

theorem notAhead_cons {p : Char → Bool} {c : Char} (h : p c = false) (cs : List Char) :
    NotAhead p (c :: cs) := by
  rintro _ ⟨⟩
  exact h

theorem NotAhead.mono {p q : Char → Bool} {cs : List Char} (h : NotAhead q cs)
    (hpq : ∀ c, p c = true → q c = true) : NotAhead p cs := by
  intro c hc
  cases hp : p c with
  | false => rfl
  | true => exact absurd (hpq c hp) (by simp [h c hc])

/-- What the blank and the tab have, every blank has. -/
theorem of_isBlank {P : Char → Prop} (h : P ' ' ∧ P '\t') {c : Char} (hc : isBlank c = true) :
    P c := by
  simp only [isBlank, Bool.or_eq_true, beq_iff_eq] at hc
  rcases hc with rfl | rfl
  · exact h.1
  · exact h.2

/-- A printed character is none that is not printed. -/
theorem ne_of_isPrinted {c d : Char} (h : isPrinted c = true) (hd : isPrinted d = false) :
    c ≠ d := by
  rintro rfl
  rw [h] at hd
  cases hd

theorem dropWhile_append {p : Char → Bool} {ws rest : List Char} (hws : ∀ c ∈ ws, p c = true)
    (hrest : NotAhead p rest) : (ws ++ rest).dropWhile p = rest := by
  rw [List.dropWhile_append_of_pos hws]
  cases rest with
  | nil => rfl
  | cons c rest => exact List.dropWhile_cons_of_neg (by simp [hrest c rfl])

theorem takeWhile_append {p : Char → Bool} {ws rest : List Char} (hws : ∀ c ∈ ws, p c = true)
    (hrest : NotAhead p rest) : (ws ++ rest).takeWhile p = ws := by
  rw [List.takeWhile_append_of_pos hws]
  cases rest with
  | nil => exact List.append_nil ws
  | cons c rest => rw [List.takeWhile_cons_of_neg (by simp [hrest c rfl]), List.append_nil]

theorem skipBlanks_append {ws rest : List Char} (hws : Blank ws) (hrest : NotAhead isBlank rest) :
    skipBlanks (ws ++ rest) = rest :=
  dropWhile_append hws hrest

theorem newline?_append {nl : List Char} (h : Newline nl) (rest : List Char) :
    newline? (nl ++ rest) = some rest := by
  cases h <;> rfl

theorem notAhead_newline {p : Char → Bool} (h : p '\n' = false ∧ p '\r' = false) {nl : List Char}
    (hnl : Newline nl) (rest : List Char) : NotAhead p (nl ++ rest) := by
  cases hnl with
  | feed => exact notAhead_cons h.1 rest
  | both => exact notAhead_cons h.2 _

theorem notAhead_comment {p : Char → Bool} (h : p '#' = false) {note rest : List Char}
    (hnote : Comment note) (hrest : NotAhead p rest) : NotAhead p (note ++ rest) := by
  cases hnote with
  | none => exact hrest
  | some => exact notAhead_cons h _

/-- What is behind a comment and its line end is what follows the line. -/
theorem lineEnd?_append {ws note nl : List Char} (hws : Blank ws) (hnote : Comment note)
    (hnl : Newline nl) (rest : List Char) :
    lineEnd? (ws ++ (note ++ (nl ++ rest))) = some rest := by
  have hblank : NotAhead isBlank (note ++ (nl ++ rest)) :=
    notAhead_comment (by decide) hnote (notAhead_newline (by decide) hnl rest)
  have hne : (nl ++ rest).isEmpty = false := by cases hnl <;> rfl
  rw [lineEnd?, skipBlanks_append hws hblank]
  cases hnote with
  | none =>
    cases hnl <;> rfl
  | some printed =>
    have hdrop := dropWhile_append printed (notAhead_newline (by decide) hnl rest)
    simp only [List.cons_append, hdrop, hne, Bool.false_eq_true, if_false]
    exact newline?_append hnl rest

/-- The last line needs no line end. -/
theorem lineEnd?_last {ws note : List Char} (hws : Blank ws) (hnote : Comment note) :
    lineEnd? (ws ++ note) = some [] := by
  have hblank : NotAhead isBlank note := by
    have h := notAhead_comment (p := isBlank) (by decide) hnote (notAhead_nil _)
    rwa [List.append_nil] at h
  rw [lineEnd?, skipBlanks_append hws hblank]
  cases hnote with
  | none => rfl
  | some printed =>
    have hdrop := dropWhile_append printed (notAhead_nil isPrinted)
    rw [List.append_nil] at hdrop
    simp only [hdrop, List.isEmpty_nil, if_true]

/-- A comment is passed over up to its line end. -/
theorem skipLines_comment {body : List Char} (h : ∀ c ∈ body, isPrinted c = true)
    (rest : List Char) : skipLines true (body ++ rest) = skipLines true rest := by
  induction body with
  | nil => rfl
  | cons c body ih =>
    have hc := h c List.mem_cons_self
    have hfeed : c ≠ '\n' := ne_of_isPrinted hc (by decide)
    rw [List.cons_append, skipLines]
    · simp only [beq_iff_eq, hfeed, if_false, if_true, hc]
      exact ih fun d hd => h d (List.mem_cons_of_mem c hd)
    · exact fun _ hreturn _ => ne_of_isPrinted hc (by decide) hreturn

theorem skipLines_newline {nl : List Char} (h : Newline nl) (inComment : Bool)
    (rest : List Char) : skipLines inComment (nl ++ rest) = skipLines false rest := by
  cases h <;> rfl

theorem skipLines_note {note : List Char} (h : Comment note) (rest : List Char) :
    (∃ inComment, skipLines false (note ++ rest) = skipLines inComment rest) := by
  cases h with
  | none => exact ⟨false, rfl⟩
  | some printed => exact ⟨true, skipLines_comment printed rest⟩

/-- **What stands between two parts is passed over.** -/
theorem skipLines_gap {g : List Char} (h : Gap g) (rest : List Char) :
    skipLines false (g ++ rest) = skipLines false rest := by
  induction h with
  | nil => rfl
  | @blank c cs blank _ ih =>
    refine Eq.trans ?_ ih
    exact of_isBlank (P := fun c => skipLines false (c :: (cs ++ rest)) = _) ⟨rfl, rfl⟩ blank
  | @line note nl cs comment newline _ ih =>
    rw [List.append_assoc, List.append_assoc]
    obtain ⟨inComment, hnote⟩ := skipLines_note comment (nl ++ (cs ++ rest))
    rw [hnote, skipLines_newline newline, ih]

/-- A comment at the end of a text is passed over. -/
theorem skipLines_end {g note : List Char} (h : Gap g) (hnote : Comment note) :
    skipLines false (g ++ note) = [] := by
  rw [skipLines_gap h]
  obtain ⟨inComment, hrest⟩ := skipLines_note hnote []
  rw [List.append_nil] at hrest
  exact hrest

/-- A character that begins no gap. -/
def isGap (c : Char) : Bool := isBlank c || c == '\n' || c == '\r' || c == '#'

theorem skipLines_cons {c : Char} (h : isGap c = false) (rest : List Char) :
    skipLines false (c :: rest) = c :: rest := by
  simp only [isGap, Bool.or_eq_false_iff, beq_eq_false_iff_ne] at h
  obtain ⟨⟨⟨hblank, hfeed⟩, hreturn⟩, hnote⟩ := h
  rw [skipLines]
  · simp only [beq_iff_eq, hfeed, hblank, hnote, if_false, Bool.false_eq_true]
  · exact fun _ h _ => hreturn h

/-! ## 2. What follows a value -/

/-- A character that may stand behind a value and its blanks. -/
def isEnder (c : Char) : Bool :=
  c == '#' || c == '\n' || c == '\r' || c == ',' || c == ']' || c == '\x7d'

/-- What a value may stand in front of: blanks, and behind them the end, a comment, a line end, a
    comma or a closing bracket. -/
def Follow (rest : List Char) : Prop :=
  ∃ ws tail, rest = ws ++ tail ∧ Blank ws ∧ ∀ c ∈ tail.head?, isEnder c = true

/-- What the characters behind a value have. -/
theorem of_isEnder {P : Char → Prop}
    (h : P '#' ∧ P '\n' ∧ P '\r' ∧ P ',' ∧ P ']' ∧ P '\x7d') {c : Char} (hc : isEnder c = true) :
    P c := by
  simp only [isEnder, Bool.or_eq_true, beq_iff_eq] at hc
  obtain ⟨h₁, h₂, h₃, h₄, h₅, h₆⟩ := h
  rcases hc with ((((rfl | rfl) | rfl) | rfl) | rfl) | rfl <;> assumption

/-- Behind a value stands no character of a kind, if no blank and no ender is of that kind. -/
theorem Follow.notAhead {p : Char → Bool} {rest : List Char} (h : Follow rest)
    (hblank : p ' ' = false ∧ p '\t' = false)
    (hender : p '#' = false ∧ p '\n' = false ∧ p '\r' = false ∧ p ',' = false ∧ p ']' = false ∧
      p '\x7d' = false) : NotAhead p rest := by
  obtain ⟨ws, tail, rfl, hws, htail⟩ := h
  cases ws with
  | cons w ws =>
    exact notAhead_cons (of_isBlank (P := (p · = false)) hblank (hws w List.mem_cons_self)) _
  | nil => exact fun c hc => of_isEnder (P := (p · = false)) hender (htail c hc)

theorem follow_blank {ws : List Char} (h : Blank ws) {c : Char} (hc : isEnder c = true)
    (rest : List Char) : Follow (ws ++ c :: rest) := by
  refine ⟨ws, c :: rest, rfl, h, ?_⟩
  rintro _ ⟨⟩
  exact hc

theorem follow_line {ws note nl : List Char} (hws : Blank ws) (hnote : Comment note)
    (hnl : Newline nl) (rest : List Char) : Follow (ws ++ (note ++ (nl ++ rest))) := by
  refine ⟨ws, _, rfl, hws, ?_⟩
  cases hnote with
  | none =>
    cases hnl <;> (rintro _ ⟨⟩; decide)
  | some =>
    rintro _ ⟨⟩
    decide

theorem follow_last {ws note : List Char} (hws : Blank ws) (hnote : Comment note) :
    Follow (ws ++ note) := by
  refine ⟨ws, _, rfl, hws, ?_⟩
  cases hnote with
  | none => nofun
  | some =>
    rintro _ ⟨⟩
    decide

theorem follow_gap {g : List Char} (h : Gap g) {c : Char} (hc : isEnder c = true)
    (rest : List Char) : Follow (g ++ c :: rest) := by
  induction h with
  | nil => exact follow_blank blank_nil hc rest
  | @blank d cs blank _ ih =>
    obtain ⟨ws, tail, heq, hws, htail⟩ := ih
    refine ⟨d :: ws, tail, congrArg (d :: ·) heq, ?_, htail⟩
    exact List.forall_mem_cons.mpr ⟨blank, hws⟩
  | @line note nl cs comment newline _ _ =>
    rw [List.append_assoc, List.append_assoc]
    exact follow_line blank_nil comment newline _

end HostGlue.Toml
