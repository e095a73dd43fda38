import HostGlue.Proofs.Text.Lines
import HostGlue.Text.Quoted

/-!
# Brackets and indentation of script text

Braces inside a literal are no braces of the program. This file fixes

* `bare`, a text without its single-quoted literals; whatever a literal holds, nothing of it is left
  (`bare_encode`);
* `nest`, the brackets that are open behind a text, given those that are open in front of it, or
  nothing if one is closed that was not opened last;
* `Fits`, that a line begins with four blanks for every open brace, a closing one at its start left out;
* `Turns`, a piece of text in which every literal ends, with the brackets open in front of it and
  behind it: such pieces are put together by `Turns.append`;
* `Laid`, lines that fit one behind another, and what that says of the text they make
  (`Laid.nest_bare`, `Laid.lines_bare`, `Laid.fits`).
-/

namespace HostGlue.Text

/-! ## 1. Texts without their literals -/

/-- Where a reader of script text is: outside of literals, inside one, or behind a backslash inside
    one. -/
inductive Place where
  | outside
  | inside
  | escaped

/-- What is left of a text, read from a place, without its literals. A literal goes from a quote to the
    next quote behind no backslash. -/
def bareFrom : Place → List Char → List Char
  | _, [] => []
  | .outside, c :: cs => if c = '\x27' then bareFrom .inside cs else c :: bareFrom .outside cs
  | .inside, c :: cs =>
    if c = '\\' then bareFrom .escaped cs
    else if c = '\x27' then bareFrom .outside cs
    else bareFrom .inside cs
  | .escaped, _ :: cs => bareFrom .inside cs

/-- A text without its single-quoted literals. -/
def bare (cs : List Char) : List Char := bareFrom .outside cs

/-- Leaving out literals adds nothing. -/
theorem bareFrom_sublist : ∀ (p : Place) (cs : List Char), List.Sublist (bareFrom p cs) cs
  | _, [] => by rw [bareFrom]
  | .outside, c :: cs => by
      rw [bareFrom]
      split
      · exact (bareFrom_sublist .inside cs).cons c
      · exact (bareFrom_sublist .outside cs).cons_cons c
  | .inside, c :: cs => by
      rw [bareFrom]
      split
      · exact (bareFrom_sublist .escaped cs).cons c
      · split
        · exact (bareFrom_sublist .outside cs).cons c
        · exact (bareFrom_sublist .inside cs).cons c
  | .escaped, c :: cs => (bareFrom_sublist .inside cs).cons c

theorem not_mem_bare {c : Char} {cs : List Char} (h : c ∉ cs) : c ∉ bare cs :=
  fun hm => h ((bareFrom_sublist .outside cs).subset hm)

theorem bare_nil : bare [] = [] := rfl

theorem bare_cons {c : Char} (h : c ≠ '\x27') (cs : List Char) : bare (c :: cs) = c :: bare cs := by
  rw [bare, bareFrom, if_neg h]
  rfl

/-- What holds no quote is left as it is. -/
theorem bare_append_of_not_mem : ∀ {cs : List Char}, '\x27' ∉ cs →
    ∀ rest, bare (cs ++ rest) = cs ++ bare rest
  | [], _, _ => rfl
  | c :: cs, h, rest => by
      have hc : c ≠ '\x27' := fun e => h (e ▸ List.mem_cons_self)
      have ih := bare_append_of_not_mem (fun hm => h (List.mem_cons_of_mem c hm)) rest
      rw [List.cons_append, bare_cons hc, ih, List.cons_append]

/-- **The characters of a value do not end its literal**: a reading that goes on behind each character
    in a literal, and behind an escape, goes on behind the value. -/
theorem skip_encodeBody {α : Type} {read : List Char → α}
    (hplain : ∀ c cs, c ≠ '\\' → c ≠ '\x27' → read (c :: cs) = read cs)
    (hescape : ∀ c cs, read ('\\' :: c :: cs) = read cs) :
    ∀ value rest : List Char, read (Quoted.encodeBody value ++ rest) = read rest
  | [], _ => rfl
  | c :: value, rest => by
      have ih := skip_encodeBody hplain hescape value rest
      rw [Quoted.encodeBody, List.flatMap_cons, List.append_assoc, ← Quoted.encodeBody]
      unfold Quoted.encodeChar
      split
      case h_5 hb hq hn hr => exact (hplain c _ hb hq).trans ih
      all_goals exact (hescape _ _).trans ih

/-- **Nothing is left of a literal**, whatever value it has. -/
theorem bare_encode (value : String) (rest : List Char) :
    bare ((Quoted.encode value).toList ++ rest) = bare rest := by
  have hplain : ∀ c cs, c ≠ '\\' → c ≠ '\x27' →
      bareFrom .inside (c :: cs) = bareFrom .inside cs := by
    intro c cs hb hq
    rw [bareFrom, if_neg hb, if_neg hq]
  rw [Quoted.encode, String.toList_ofList, List.cons_append, List.cons_append, List.append_assoc]
  exact skip_encodeBody hplain (fun _ _ => rfl) value.toList ('\x27' :: rest)

/-! ## 2. Open brackets -/

/-- Takes an opening bracket off the open ones, if it is the last of them. -/
def close (o : Char) : List Char → Option (List Char)
  | [] => none
  | t :: stack => if t = o then some stack else none

/-- The brackets that are open behind a character, the last one first. -/
def nestChar (stack : List Char) : Char → Option (List Char)
  | '(' => some ('(' :: stack)
  | '[' => some ('[' :: stack)
  | '\x7b' => some ('\x7b' :: stack)
  | ')' => close '(' stack
  | ']' => close '[' stack
  | '\x7d' => close '\x7b' stack
  | _ => some stack

/-- The brackets that are open behind a text, or nothing if they are not nested. -/
def nest (stack : List Char) (cs : List Char) : Option (List Char) :=
  cs.foldlM nestChar stack

/-- The characters that begin a literal, open or close something. -/
def specials : List Char := ['\x27', '(', ')', '[', ']', '\x7b', '\x7d']

/-- A character that is neither a quote nor a bracket. -/
def isPlain (c : Char) : Bool := !specials.contains c

theorem nest_append (stack as bs : List Char) :
    nest stack (as ++ bs) = (nest stack as).bind (nest · bs) :=
  List.foldlM_append ..

/-- Characters of a sort that has no quote and no bracket are plain. -/
theorem all_isPlain {sort : Char → Bool} (hs : specials.any sort = false) {cs : List Char}
    (h : ∀ c ∈ cs, sort c = true) : cs.all isPlain = true := by
  rw [List.all_eq_true]
  intro c hc
  cases hp : isPlain c with
  | true => rfl
  | false =>
    have hmem : c ∈ specials := by simpa [isPlain] using hp
    exact absurd (h c hc) (List.any_eq_false.mp hs c hmem)

theorem nestChar_of_isPlain {c : Char} (h : isPlain c = true) (stack : List Char) :
    nestChar stack c = some stack := by
  unfold nestChar
  split <;> first | rfl | exact absurd h (by decide)

/-- A plain text leaves the open brackets as they are. -/
theorem nest_of_all_isPlain : ∀ {cs : List Char}, cs.all isPlain = true →
    ∀ stack, nest stack cs = some stack
  | [], _, _ => rfl
  | c :: cs, h, stack => by
      rw [List.all_cons, Bool.and_eq_true] at h
      have ih := nest_of_all_isPlain h.2 stack
      show (nestChar stack c).bind (nest · cs) = _
      rw [nestChar_of_isPlain h.1]
      exact ih

/-! ## 3. Pieces of text -/

/-- A piece of text in which every literal ends, with the brackets that are open in front of it and
    behind it. -/
structure Turns (cs before after : List Char) : Prop where
  settled : ∀ rest, bare (cs ++ rest) = bare cs ++ bare rest
  nested : nest before (bare cs) = some after

namespace Turns

variable {as bs s t u : List Char}

theorem append (ha : Turns as s t) (hb : Turns bs t u) : Turns (as ++ bs) s u := by
  refine ⟨fun rest => ?_, ?_⟩
  · rw [List.append_assoc, ha.settled, hb.settled, ha.settled, List.append_assoc]
  · rw [ha.settled, nest_append, ha.nested]
    exact hb.nested

theorem of_plain (h : as.all isPlain = true) (s : List Char) : Turns as s s := by
  have hq : '\x27' ∉ as := fun hm => absurd (List.all_eq_true.mp h _ hm) (by decide)
  have e : bare as = as := by
    have hb := bare_append_of_not_mem hq []
    rwa [List.append_nil, bare_nil, List.append_nil] at hb
  refine ⟨fun rest => ?_, ?_⟩
  · rw [bare_append_of_not_mem hq, e]
  · rw [e, nest_of_all_isPlain h]

theorem encode (value : String) (s : List Char) : Turns (Quoted.encode value).toList s s := by
  have e : bare (Quoted.encode value).toList = [] := by
    have h := bare_encode value []
    rwa [List.append_nil] at h
  exact ⟨fun rest => by rw [bare_encode, e, List.nil_append], by rw [e]; rfl⟩

end Turns

/-! ## 4. Lines -/

/-- The blanks a line begins with. -/
def blanks (line : List Char) : Nat := (line.takeWhile (· == ' ')).length

/-- A line that begins, behind its blanks, with a closing brace. -/
def closes (line : List Char) : Bool := (line.dropWhile (· == ' ')).head? == some '\x7d'

/-- **A line begins with four blanks for every open brace**, less one brace if it begins with a closing
    one. -/
def Fits (stack line : List Char) : Prop :=
  blanks line + (if closes line then indentWidth else 0) = indentWidth * stack.count '\x7b'

/-- A text that begins with a character that is no blank, no quote and no closing brace. -/
def Leads (cs : List Char) : Prop :=
  ∃ c rest, cs = c :: rest ∧ c ≠ ' ' ∧ c ≠ '\x27' ∧ c ≠ '\x7d'

theorem Leads.append {as : List Char} (h : Leads as) (bs : List Char) : Leads (as ++ bs) := by
  obtain ⟨c, rest, rfl, hc⟩ := h
  exact ⟨c, rest ++ bs, rfl, hc⟩

/-- A line as it is written, without its line feed. -/
def indented (depth : Nat) (content : List Char) : List Char :=
  List.replicate (indentWidth * depth) ' ' ++ content

theorem bare_indented (depth : Nat) (content : List Char) :
    bare (indented depth content) = indented depth (bare content) := by
  refine bare_append_of_not_mem (fun hm => ?_) content
  exact absurd (List.eq_of_mem_replicate hm) (by decide)

/-- Blanks in front of a piece open and close nothing. -/
theorem Turns.indented {content s t : List Char} (h : Turns content s t) (depth : Nat) :
    Turns (indented depth content) s t := by
  have hblank : ∀ c ∈ List.replicate (indentWidth * depth) ' ', (c == ' ') = true := fun c hc =>
    beq_iff_eq.mpr (List.eq_of_mem_replicate hc)
  exact (Turns.of_plain (all_isPlain (by decide) hblank) s).append h

theorem takeWhile_replicate_append {c : Char} (hc : c ≠ ' ') (rest : List Char) : ∀ n : Nat,
    (List.replicate n ' ' ++ c :: rest).takeWhile (· == ' ') = List.replicate n ' ' ∧
      (List.replicate n ' ' ++ c :: rest).dropWhile (· == ' ') = c :: rest
  | 0 => by simp [hc]
  | n + 1 => by simpa [List.replicate_succ] using takeWhile_replicate_append hc rest n

/-- Whether a line fits is decided by its depth and the first character of its content. -/
theorem fits_indented {c : Char} (hblank : c ≠ ' ') (hquote : c ≠ '\x27') (rest : List Char)
    (depth : Nat) (stack : List Char) :
    Fits stack (bare (indented depth (c :: rest))) ↔
      indentWidth * depth + (if some c == some '\x7d' then indentWidth else 0) =
        indentWidth * stack.count '\x7b' := by
  obtain ⟨htake, hdrop⟩ := takeWhile_replicate_append hblank (bare rest) (indentWidth * depth)
  rw [bare_indented, bare_cons hquote, Fits, blanks, closes, indented, htake, hdrop,
    List.length_replicate]
  exact Iff.rfl

theorem fits_of_leads {content : List Char} (h : Leads content) (stack : List Char) :
    Fits stack (bare (indented (stack.count '\x7b') content)) := by
  obtain ⟨c, rest, rfl, hblank, hquote, hclose⟩ := h
  rw [fits_indented hblank hquote, if_neg (by simpa using hclose), Nat.add_zero]

/-- The line that closes a brace stands where the line that opened it stood. -/
theorem fits_close (rest stack : List Char) :
    Fits ('\x7b' :: stack) (bare (indented (stack.count '\x7b') ('\x7d' :: rest))) := by
  rw [fits_indented (by decide) (by decide), if_pos (by decide), List.count_cons_self, Nat.mul_succ]

/-- Lines that fit one behind another, with the brackets that are open in front of them and behind
    them. -/
inductive Laid : List Char → List (List Char) → List Char → Prop
  | nil (s : List Char) : Laid s [] s
  | cons {s t u l : List Char} {ls : List (List Char)} (fits : Fits s (bare l)) (turns : Turns l s t)
      (rest : Laid t ls u) : Laid s (l :: ls) u

namespace Laid

variable {s t u : List Char} {ls ms : List (List Char)}

theorem append (h : Laid s ls t) (hm : Laid t ms u) : Laid s (ls ++ ms) u := by
  induction h with
  | nil _ => exact hm
  | cons fits turns _ ih => exact .cons fits turns (ih hm)

/-- The lines without their literals make the text without its literals. -/
theorem bare_flatMap (h : Laid s ls t) :
    bare (ls.flatMap (· ++ ['\n'])) = (ls.map bare).flatMap (· ++ ['\n']) := by
  induction h with
  | nil _ => rfl
  | @cons s t u l ls _ turns _ ih =>
    rw [List.flatMap_cons, List.append_assoc, turns.settled, List.singleton_append,
      bare_cons (by decide), ih, List.map_cons, List.flatMap_cons, List.append_assoc,
      List.singleton_append]

/-- The lines of the text without its literals are its lines without theirs. -/
theorem lines_bare (h : Laid s ls t) (hn : ∀ l ∈ ls, '\n' ∉ l) :
    lines (bare (ls.flatMap (· ++ ['\n']))) = ls.map bare := by
  rw [h.bare_flatMap]
  refine lines_flatMap _ fun l hl => ?_
  obtain ⟨k, hk, rfl⟩ := List.mem_map.mp hl
  exact not_mem_bare (hn k hk)

/-- **The brackets of the text are nested**, and open behind it are those that are open behind its last
    line. -/
theorem nest_bare (h : Laid s ls t) : nest s ((ls.map bare).flatMap (· ++ ['\n'])) = some t := by
  induction h with
  | nil _ => rfl
  | @cons s t u l ls _ turns _ ih =>
    rw [List.map_cons, List.flatMap_cons, List.append_assoc, nest_append, turns.nested]
    exact ih

/-- **Every line fits** behind the brackets that are open in front of it. -/
theorem fits (h : Laid s ls t) : ∀ {before after : List (List Char)} {l : List Char},
    ls.map bare = before ++ l :: after →
    ∃ stack, nest s (before.flatMap (· ++ ['\n'])) = some stack ∧ Fits stack l := by
  induction h with
  | nil _ => exact fun e => absurd e.symm (List.append_ne_nil_of_right_ne_nil _ (List.cons_ne_nil _ _))
  | @cons s t u k ls hfits turns _ ih =>
    intro before after l e
    cases before with
    | nil =>
      obtain ⟨rfl, -⟩ := List.cons.inj e
      exact ⟨s, rfl, hfits⟩
    | cons b before =>
      obtain ⟨rfl, hrest⟩ := List.cons.inj e
      obtain ⟨stack, hnest, hl⟩ := ih hrest
      refine ⟨stack, ?_, hl⟩
      rw [List.flatMap_cons, List.append_assoc, nest_append, turns.nested]
      exact hnest

end Laid

end HostGlue.Text
