import HostGlue.Layout
import Mathlib.Data.List.Basic

/-!
# The lines of a text

Generated text is compared line by line. This file fixes

* `Text.lines`, the lines of a text: each ends with a line feed, which is no part of it;
* `Text.indent`, a text with blanks put before every line;
* `Text.Solid`, a text that is one line by itself: it begins with a character that is no blank and
  has no line feed;
* that solid lines are read back from what they are written as (`lines_text`), depth and content
  (`Line.text_inj`), and that going deeper is indenting (`join_deeper`).
-/

namespace HostGlue

namespace Text

/-! ## 1. Lines of a text -/

/-- The lines of a text, without the line feeds that end them. -/
def lines : List Char → List (List Char)
  | [] => []
  | c :: cs =>
    if c = '\n' then [] :: lines cs
    else match lines cs with
      | [] => [[c]]
      | l :: ls => (c :: l) :: ls

/-- A text with so many blanks put before every line. -/
def indent (n : Nat) (text : String) : String :=
  String.ofList ((lines text.toList).flatMap fun l => List.replicate n ' ' ++ l ++ ['\n'])

/-- A line ends at the first line feed. -/
theorem lines_append : ∀ (l rest : List Char), '\n' ∉ l →
    lines (l ++ '\n' :: rest) = l :: lines rest
  | [], _, _ => by simp [lines]
  | c :: l, rest, h => by
      have hc : c ≠ '\n' := fun e => h (e ▸ List.mem_cons_self)
      have hl : '\n' ∉ l := fun m => h (List.mem_cons_of_mem _ m)
      have ih := lines_append l rest hl
      simp [lines, hc, ih]

/-- **Lines that hold no line feed are read back** from their text. -/
theorem lines_flatMap : ∀ ls : List (List Char), (∀ l ∈ ls, '\n' ∉ l) →
    lines (ls.flatMap (· ++ ['\n'])) = ls
  | [], _ => rfl
  | l :: ls, h => by
      have hl := h l List.mem_cons_self
      have ih := lines_flatMap ls fun k hk => h k (List.mem_cons_of_mem _ hk)
      rw [List.flatMap_cons, List.append_assoc, List.singleton_append, lines_append l _ hl, ih]

/-- No line of a text holds a line feed. -/
theorem newline_not_mem_lines : ∀ cs : List Char, ∀ l ∈ lines cs, '\n' ∉ l
  | [], _, hl => absurd hl List.not_mem_nil
  | c :: cs, l, hl => by
      have ih := newline_not_mem_lines cs
      rw [lines] at hl
      split at hl
      · rcases List.mem_cons.mp hl with rfl | hl
        · exact List.not_mem_nil
        · exact ih l hl
      · rename_i hc
        split at hl
        · rw [List.mem_singleton.mp hl]
          exact List.not_mem_cons_of_ne_of_not_mem (Ne.symm hc) List.not_mem_nil
        · rename_i k ks e
          rw [e] at ih
          rcases List.mem_cons.mp hl with rfl | hl
          · exact List.not_mem_cons_of_ne_of_not_mem (Ne.symm hc) (ih k List.mem_cons_self)
          · exact ih l (List.mem_cons_of_mem _ hl)

/-! ## 2. Solid texts -/

/-- A text that is one line by itself, whatever stands in front of it or behind it. -/
structure Solid (cs : List Char) : Prop where
  starts : ∃ c rest, cs = c :: rest ∧ c ≠ ' '
  oneLine : '\n' ∉ cs

namespace Solid

variable {as bs : List Char}

theorem ne_nil (h : Solid as) : as ≠ [] := by
  obtain ⟨c, rest, rfl, -⟩ := h.starts
  exact List.cons_ne_nil c rest

/-- What follows a solid text has to be free of line feeds only. -/
theorem append (h : Solid as) (hb : '\n' ∉ bs) : Solid (as ++ bs) := by
  obtain ⟨⟨c, rest, rfl, hc⟩, ha⟩ := h
  refine ⟨⟨c, rest ++ bs, rfl, hc⟩, fun hm => ?_⟩
  rcases List.mem_append.mp hm with hm | hm
  · exact ha hm
  · exact hb hm

theorem cons {c : Char} (hc : c ≠ ' ') (hn : c ≠ '\n') (hb : '\n' ∉ bs) : Solid (c :: bs) := by
  refine ⟨⟨c, bs, rfl, hc⟩, fun hm => ?_⟩
  rcases List.mem_cons.mp hm with e | hm
  · exact hn e.symm
  · exact hb hm

end Solid

/-- A text that begins with no blank is told apart from the blanks before it. -/
theorem replicate_append_inj : ∀ {m n : Nat} {as bs : List Char}, Solid as → Solid bs →
    List.replicate m ' ' ++ as = List.replicate n ' ' ++ bs → m = n ∧ as = bs
  | 0, 0, _, _, _, _, h => ⟨rfl, by simpa using h⟩
  | 0, n + 1, as, bs, ha, _, h => by
      obtain ⟨c, rest, rfl, hc⟩ := ha.starts
      rw [List.replicate_succ] at h
      exact absurd (List.cons.inj h).1 hc
  | m + 1, 0, as, bs, _, hb, h => by
      obtain ⟨c, rest, rfl, hc⟩ := hb.starts
      rw [List.replicate_succ] at h
      exact absurd (List.cons.inj h).1.symm hc
  | m + 1, n + 1, as, bs, ha, hb, h => by
      rw [List.replicate_succ, List.replicate_succ] at h
      obtain ⟨e, hs⟩ := replicate_append_inj ha hb (List.cons.inj h).2
      exact ⟨by rw [e], hs⟩

end Text

/-! ## 3. Written lines -/

namespace Line

open Text (Solid)

/-- A line with something in it is its content behind the blanks of its depth. -/
theorem text_toList {l : Line} (h : Solid l.content.toList) :
    l.text.toList =
      (List.replicate (indentWidth * l.depth) ' ' ++ l.content.toList) ++ ['\n'] := by
  have hne : l.content ≠ "" := fun e => h.ne_nil (by rw [e]; rfl)
  simp [text, hne]

theorem newline_not_mem {l : Line} (h : Solid l.content.toList) :
    '\n' ∉ List.replicate (indentWidth * l.depth) ' ' ++ l.content.toList := by
  intro hm
  rcases List.mem_append.mp hm with hm | hm
  · exact absurd (List.eq_of_mem_replicate hm) (by decide)
  · exact h.oneLine hm

theorem join_toList (ls : List Line) : (join ls).toList = ls.flatMap (·.text.toList) := by
  rw [join, String.toList_join, List.flatMap_map]

theorem join_append (as bs : List Line) : join (as ++ bs) = join as ++ join bs := by
  apply String.toList_injective
  rw [String.toList_append, join_toList, join_toList, join_toList, List.flatMap_append]

theorem join_cons (l : Line) (ls : List Line) : join (l :: ls) = l.text ++ join ls := by
  apply String.toList_injective
  rw [String.toList_append, join_toList, join_toList, List.flatMap_cons]

/-- Solid lines are written as their contents behind their blanks, each with a line feed. -/
theorem join_toList_of_solid {ls : List Line} (h : ∀ l ∈ ls, Solid l.content.toList) :
    (join ls).toList =
      (ls.map fun l => List.replicate (indentWidth * l.depth) ' ' ++ l.content.toList).flatMap
        (· ++ ['\n']) := by
  rw [join_toList, List.flatMap_map]
  exact List.flatMap_congr fun l hl => text_toList (h l hl)

/-- The lines of a text that was written from solid lines are these lines, with their blanks. -/
theorem lines_join {ls : List Line} (h : ∀ l ∈ ls, Solid l.content.toList) :
    Text.lines (join ls).toList =
      ls.map fun l => List.replicate (indentWidth * l.depth) ' ' ++ l.content.toList := by
  rw [join_toList_of_solid h]
  refine Text.lines_flatMap _ fun k hk => ?_
  obtain ⟨l, hl, rfl⟩ := List.mem_map.mp hk
  exact newline_not_mem (h l hl)

/-- What was written from solid lines is its lines, each with a line feed. -/
theorem flatMap_lines_join {ls : List Line} (h : ∀ l ∈ ls, Solid l.content.toList) :
    (Text.lines (join ls).toList).flatMap (· ++ ['\n']) = (join ls).toList := by
  rw [lines_join h, join_toList_of_solid h]

/-- **Going deeper is indenting**: solid lines so many levels deeper are their text with that many
    levels of blanks before every line. -/
theorem join_deeper (d : Nat) {ls : List Line} (h : ∀ l ∈ ls, Solid l.content.toList) :
    join (ls.map (deeper d)) = Text.indent (indentWidth * d) (join ls) := by
  apply String.toList_injective
  rw [Text.indent, String.toList_ofList, lines_join h, join_toList, List.flatMap_map,
    List.flatMap_map]
  refine List.flatMap_congr fun l hl => ?_
  have hs : Solid (deeper d l).content.toList := h l hl
  rw [text_toList hs]
  show List.replicate (indentWidth * (l.depth + d)) ' ' ++ l.content.toList ++ ['\n'] = _
  rw [Nat.mul_add, Nat.add_comm, List.replicate_add, List.append_assoc]
  simp only [List.append_assoc]

/-- **Solid lines are determined by the text they are written as**, depth and content. -/
theorem join_inj : ∀ {as bs : List Line}, (∀ l ∈ as, Solid l.content.toList) →
    (∀ l ∈ bs, Solid l.content.toList) → join as = join bs → as = bs := by
  intro as bs ha hb h
  have e : as.map (fun l => List.replicate (indentWidth * l.depth) ' ' ++ l.content.toList) =
      bs.map fun l => List.replicate (indentWidth * l.depth) ' ' ++ l.content.toList := by
    rw [← lines_join ha, ← lines_join hb, h]
  clear h
  induction as generalizing bs with
  | nil =>
    cases bs with
    | nil => rfl
    | cons b bs => simp at e
  | cons a as ih =>
    cases bs with
    | nil => simp at e
    | cons b bs =>
      rw [List.map_cons, List.map_cons] at e
      obtain ⟨hd, hc⟩ := Text.replicate_append_inj (ha a List.mem_cons_self)
        (hb b List.mem_cons_self) (List.cons.inj e).1
      have hrest := ih (fun l hl => ha l (List.mem_cons_of_mem _ hl))
        (fun l hl => hb l (List.mem_cons_of_mem _ hl)) (List.cons.inj e).2
      have hab : a = b := by
        cases a
        cases b
        simp only [Line.mk.injEq]
        exact ⟨Nat.eq_of_mul_eq_mul_left (by decide) hd, String.toList_injective hc⟩
      rw [hab, hrest]

end Line

end HostGlue
