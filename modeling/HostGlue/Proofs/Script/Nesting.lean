import HostGlue.Proofs.Script.Scope
import HostGlue.Proofs.Text.Brackets

/-!
# Brackets of written programs

A program is written with every bracket closed on the line that opened it, but for the braces of
blocks. This file shows that

* a well-named expression leaves the open brackets as they are (`Expr.turns_spell`), whatever texts it
  holds;
* every line of a well-named program fits behind the brackets that are open in front of it
  (`Stmt.nested_code`, `Property.nested_code`), provided that none begins with a text.
-/

namespace HostGlue

open Text (Turns Leads Laid)

/-! ## 1. Nested code -/

/-- Trees of code whose lines fit at the depth of the braces open in front of them, and which leave the
    open brackets as they are. -/
def Code.Nested (cs : List Code) : Prop :=
  ∀ stack, Laid stack ((Code.bodyLines (stack.count '\x7b') cs).map fun l =>
    Text.indented l.depth l.content.toList) stack

namespace Code

theorem nested_nil : Nested [] := fun stack => .nil stack

theorem nested_append {as bs : List Code} (ha : Nested as) (hb : Nested bs) : Nested (as ++ bs) := by
  intro stack
  rw [bodyLines_append, List.map_append]
  exact (ha stack).append (hb stack)

theorem nested_line {content : String} (hl : Leads content.toList)
    (ht : ∀ stack, Turns content.toList stack stack) : Nested [.line content] := by
  intro stack
  exact .cons (Text.fits_of_leads hl stack) ((ht stack).indented _) (.nil stack)

theorem nested_lines {contents : List String} (hl : ∀ c ∈ contents, Leads c.toList)
    (ht : ∀ c ∈ contents, ∀ stack, Turns c.toList stack stack) : Nested (contents.map .line) := by
  induction contents with
  | nil => exact nested_nil
  | cons c contents ih =>
    exact nested_append (nested_line (hl c List.mem_cons_self) (ht c List.mem_cons_self))
      (ih (fun x hx => hl x (List.mem_cons_of_mem _ hx)) fun x hx => ht x (List.mem_cons_of_mem _ hx))

/-- A block may open other brackets in front of its brace, and close them behind it. -/
theorem nested_block {header suffix : String} {body : List Code} (opened : List Char)
    (ho : '\x7b' ∉ opened) (hl : Leads header.toList)
    (hh : ∀ stack, Turns header.toList stack (opened ++ stack))
    (hs : ∀ stack, Turns suffix.toList (opened ++ stack) stack) (hb : Nested body) :
    Nested [.block header suffix body] := by
  have hne : header ≠ "" := by
    rintro rfl
    obtain ⟨_, _, e, -⟩ := hl
    cases e
  have hopen : (openLine header).toList = header.toList ++ [' ', '\x7b'] := by
    rw [openLine, if_neg hne, String.toList_append]
    rfl
  have hclose : (closeLine suffix).toList = '\x7d' :: suffix.toList := by
    rw [closeLine, String.toList_append]
    rfl
  have hcount : ∀ stack, (opened ++ stack).count '\x7b' = stack.count '\x7b' := by
    intro stack
    rw [List.count_append, List.count_eq_zero_of_not_mem ho, Nat.zero_add]
  intro stack
  have hinner := hb ('\x7b' :: (opened ++ stack))
  have hend := Text.fits_close suffix.toList (opened ++ stack)
  have hfirst := Text.fits_of_leads (hl.append [' ', '\x7b']) stack
  have hbrace : Turns [' ', '\x7b'] (opened ++ stack) ('\x7b' :: (opened ++ stack)) :=
    ⟨fun _ => rfl, rfl⟩
  have hunbrace : Turns ['\x7d'] ('\x7b' :: (opened ++ stack)) (opened ++ stack) :=
    ⟨fun _ => rfl, rfl⟩
  rw [List.count_cons_self, hcount] at hinner
  rw [hcount] at hend
  simp only [bodyLines, lines, List.append_nil, List.cons_append, List.map_cons, List.map_append,
    List.map_nil, hopen, hclose]
  exact .cons hfirst (((hh stack).append hbrace).indented _)
    (hinner.append (.cons hend ((hunbrace.append (hs stack)).indented _) (.nil stack)))

end Code

namespace Script

/-! ## 2. Pieces of spelled text -/

theorem turns_append {a b : String} {s t u : List Char} (ha : Turns a.toList s t)
    (hb : Turns b.toList t u) : Turns (a ++ b).toList s u := by
  rw [String.toList_append]
  exact ha.append hb

theorem leads_append {a : String} (ha : Leads a.toList) (b : String) : Leads (a ++ b).toList := by
  rw [String.toList_append]
  exact ha.append b.toList

theorem turns_plain {a : String} (h : a.toList.all Text.isPlain = true) (s : List Char) :
    Turns a.toList s s :=
  Turns.of_plain h s

theorem turns_parens (s : List Char) :
    Turns "(".toList s ('(' :: s) ∧ Turns ")".toList ('(' :: s) s :=
  ⟨⟨fun _ => rfl, rfl⟩, ⟨fun _ => rfl, rfl⟩⟩

theorem turns_squares (s : List Char) :
    Turns "[".toList s ('[' :: s) ∧ Turns "]".toList ('[' :: s) s :=
  ⟨⟨fun _ => rfl, rfl⟩, ⟨fun _ => rfl, rfl⟩⟩

theorem turns_name {x : String} (h : Ident.isIdentifier x = true) (s : List Char) :
    Turns x.toList s s :=
  turns_plain (Text.all_isPlain (by decide) ((Ident.spellsIdentifier_iff x.toList).mp h).2) s

theorem turns_ofInt (n : Int) (s : List Char) : Turns (Digits.ofInt n).toList s s := by
  have hdigits : Turns (String.ofList (Nat.toDigits 10 n.natAbs)).toList s s := by
    rw [String.toList_ofList]
    exact Turns.of_plain (Text.all_isPlain (by decide) fun c hc => Digits.isDigit_of_mem hc) s
  unfold Digits.ofInt
  split
  · exact turns_append (turns_plain (by decide) s) hdigits
  · exact hdigits

/-- Pieces of text with commas between them. -/
theorem turns_commaList (s : List Char) : ∀ {xs : List String}, (∀ x ∈ xs, Turns x.toList s s) →
    Turns (commaList xs).toList s s
  | [], _ => by
      rw [commaList, String.intercalate_nil]
      exact turns_plain (by decide) s
  | [x], h => by
      rw [commaList, String.intercalate_singleton]
      exact h x (List.mem_singleton_self x)
  | x :: y :: xs, h => by
      have ih : Turns (commaList (y :: xs)).toList s s :=
        turns_commaList s fun z hz => h z (List.mem_cons_of_mem x hz)
      rw [commaList, String.intercalate_cons_cons]
      exact turns_append (turns_append (h x List.mem_cons_self)
        (turns_plain (by decide) s)) ih

theorem turns_functionHead {params : List String} (h : ∀ x ∈ params, Ident.isIdentifier x = true)
    (s : List Char) : Turns (functionHead params).toList s s := by
  have hopen : Turns "function (".toList s ('(' :: s) := ⟨fun _ => rfl, rfl⟩
  exact turns_append (turns_append hopen (turns_commaList _ fun x hx => turns_name (h x hx) _))
    (turns_parens s).2

/-! ## 3. Expressions -/

mutual

/-- **An expression leaves the open brackets as they are**, whatever texts it holds. -/
theorem Expr.turns_spell : ∀ (e : Expr), e.Named → ∀ s, Turns e.spell.toList s s
  | .name _, h, s => turns_name h s
  | .text value, _, s => Turns.encode value s
  | .number n, _, s => turns_ofInt n s
  | .member e _, h, s =>
      turns_append (turns_append (e.turns_spell h.1 s) (turns_plain (by decide) s))
        (turns_name h.2 s)
  | .item e key, h, s =>
      turns_append (turns_append (turns_append (e.turns_spell h.1 s) (turns_squares s).1)
        (key.turns_spell h.2 _)) (turns_squares s).2
  | .call f args, h, s =>
      turns_append (turns_append (turns_append (f.turns_spell h.1 s) (turns_parens s).1)
        (turns_commaList _ (Expr.turns_spellings args h.2 _))) (turns_parens s).2
  | .construct f args, h, s =>
      turns_append (turns_append (turns_append (turns_append
        (turns_plain (by decide) s) (f.turns_spell h.1 s)) (turns_parens s).1)
        (turns_commaList _ (Expr.turns_spellings args h.2 _))) (turns_parens s).2
  | .sum a b, h, s =>
      turns_append (turns_append (a.turns_spell h.1 s) (turns_plain (by decide) s))
        (b.turns_spell h.2 s)
  | .list items, h, s =>
      turns_append (turns_append (turns_squares s).1
        (turns_commaList _ (Expr.turns_spellings items h _))) (turns_squares s).2
  | .lambda params result, h, s => by
      have hopen : Turns " \x7b return ".toList s ('\x7b' :: s) := ⟨fun _ => rfl, rfl⟩
      have hclose : Turns "; \x7d".toList ('\x7b' :: s) s := ⟨fun _ => rfl, rfl⟩
      exact turns_append (turns_append (turns_append (turns_functionHead h.1 s) hopen)
        (result.turns_spell h.2 _)) hclose

theorem Expr.turns_spellings : ∀ es : List Expr, Expr.AllNamed es → ∀ s,
    ∀ x ∈ Expr.spellings es, Turns x.toList s s
  | [], _, _, _, hx => absurd hx List.not_mem_nil
  | e :: es, h, s, x, hx => by
      rw [Expr.spellings] at hx
      rcases List.mem_cons.mp hx with rfl | hx
      · exact e.turns_spell h.1 s
      · exact Expr.turns_spellings es h.2 s x hx

end

/-! ## 4. What lines begin with -/

/-- Whether an expression is written with a text at its start. -/
def Expr.startsWithText : Expr → Bool
  | .text _ => true
  | .member e _ | .item e _ | .call e _ | .sum e _ => e.startsWithText
  | .name _ | .number _ | .construct _ _ | .list _ | .lambda _ _ => false

theorem leads_name {x : String} (h : Ident.isIdentifier x = true) : Leads x.toList := by
  obtain ⟨⟨c, rest, e, hc⟩, -⟩ := (Ident.spellsIdentifier_iff x.toList).mp h
  refine ⟨c, rest, e, ?_, ?_, ?_⟩ <;> (rintro rfl; exact absurd hc (by decide))

theorem leads_ofInt (n : Int) : Leads (Digits.ofInt n).toList := by
  unfold Digits.ofInt
  split
  · exact leads_append ⟨'-', [], rfl, by decide, by decide, by decide⟩ _
  · obtain ⟨c, rest, hfirst, hdigit⟩ := Digits.exists_toDigits n.natAbs
    rw [String.toList_ofList, hfirst]
    exact ⟨c, rest, rfl, digit_ne hdigit (by decide), digit_ne hdigit (by decide),
      digit_ne hdigit (by decide)⟩

/-- An expression that begins with no text begins with a name, a number, or a mark that opens
    something. -/
theorem Expr.leads_spell : ∀ e : Expr, e.Named → e.startsWithText = false → Leads e.spell.toList
  | .name _, h, _ => leads_name h
  | .number n, _, _ => leads_ofInt n
  | .member e _, h, hs => leads_append (leads_append (e.leads_spell h.1 hs) _) _
  | .item e _, h, hs => leads_append (leads_append (leads_append (e.leads_spell h.1 hs) _) _) _
  | .call f _, h, hs => leads_append (leads_append (leads_append (f.leads_spell h.1 hs) _) _) _
  | .sum a _, h, hs => leads_append (leads_append (a.leads_spell h.1 hs) _) _
  | .construct _ _, _, _ =>
      leads_append (leads_append (leads_append (leads_append
        ⟨'n', _, rfl, by decide, by decide, by decide⟩ _) _) _) _
  | .list _, _, _ =>
      leads_append (leads_append ⟨'[', _, rfl, by decide, by decide, by decide⟩ _) _
  | .lambda _ _, _, _ =>
      leads_append (leads_append (leads_append (leads_append (leads_append
        ⟨'f', _, rfl, by decide, by decide, by decide⟩ _) _) _) _) _

/-- A statement that is written with a text at its start. -/
def Stmt.startsWithText : Stmt → Bool
  | .run e | .assign e _ => e.startsWithText
  | _ => false

/-! ## 5. Statements -/

theorem turns_caseText (c : Int × Expr) (h : c.2.Named) (s : List Char) :
    Turns (caseText c).toList s s :=
  turns_append (turns_append (turns_append (turns_append (turns_plain (by decide) s)
    (turns_ofInt c.1 s)) (turns_plain (by decide) s)) (c.2.turns_spell h s))
    (turns_plain (by decide) s)

/-- The lines of the cases of a choice fit. -/
theorem nested_cases {cases : List (Int × Expr)} (h : ∀ c ∈ cases, c.2.Named) :
    Code.Nested ((cases.map caseText).map .line) := by
  refine Code.nested_lines (fun c hc => ?_) fun c hc => ?_
  · obtain ⟨k, -, rfl⟩ := List.mem_map.mp hc
    exact leads_append (leads_append (leads_append (leads_append
      ⟨'c', _, rfl, by decide, by decide, by decide⟩ _) _) _) _
  · obtain ⟨k, hk, rfl⟩ := List.mem_map.mp hc
    exact turns_caseText k (h k hk)

theorem turns_catchHead {caught : String} (h : Ident.isIdentifier caught = true) (s : List Char) :
    Turns ("catch (" ++ caught ++ ")").toList s s := by
  have hopen : Turns "catch (".toList s ('(' :: s) := ⟨fun _ => rfl, rfl⟩
  exact turns_append (turns_append hopen (turns_name h _)) (turns_parens s).2

theorem turns_switchHead {scrutinee : Expr} (h : scrutinee.Named) (s : List Char) :
    Turns ("switch (" ++ scrutinee.spell ++ ")").toList s s := by
  have hopen : Turns "switch (".toList s ('(' :: s) := ⟨fun _ => rfl, rfl⟩
  exact turns_append (turns_append hopen (scrutinee.turns_spell h _)) (turns_parens s).2

mutual

/-- **Every line of a statement fits**, and behind it the brackets are open that were open in front. -/
theorem Stmt.nested_code : ∀ s : Stmt, s.Named → s.lacks Stmt.startsWithText = true →
    Code.Nested s.code
  | .run e, h, hs => by
      have hstart : e.startsWithText = false := by simpa [Stmt.lacks, Stmt.startsWithText] using hs
      exact Code.nested_line (leads_append (e.leads_spell h hstart) _) fun s =>
        turns_append (e.turns_spell h s) (turns_plain (by decide) s)
  | .declare x e, h, _ =>
      Code.nested_line (leads_append (leads_append (leads_append (leads_append
        ⟨'v', _, rfl, by decide, by decide, by decide⟩ _) _) _) _) fun s =>
        turns_append (turns_append (turns_append (turns_append
          (turns_plain (by decide) s) (turns_name h.1 s))
          (turns_plain (by decide) s)) (e.turns_spell h.2 s))
          (turns_plain (by decide) s)
  | .assign target e, h, hs => by
      have hstart : target.startsWithText = false := by
        simpa [Stmt.lacks, Stmt.startsWithText] using hs
      exact Code.nested_line
        (leads_append (leads_append (leads_append (target.leads_spell h.1 hstart) _) _) _) fun s =>
        turns_append (turns_append (turns_append (target.turns_spell h.1 s)
          (turns_plain (by decide) s)) (e.turns_spell h.2 s))
          (turns_plain (by decide) s)
  | .give e, h, _ =>
      Code.nested_line (leads_append (leads_append
        ⟨'r', _, rfl, by decide, by decide, by decide⟩ _) _) fun s =>
        turns_append (turns_append (turns_plain (by decide) s) (e.turns_spell h s))
          (turns_plain (by decide) s)
  | .attempt body caught handler, h, hs => by
      rw [Stmt.lacks, Bool.and_eq_true] at hs
      show Code.Nested ([.block "try" "" (Stmt.bodyCode body)] ++
        [.block ("catch (" ++ caught ++ ")") "" (Stmt.bodyCode handler)])
      exact Code.nested_append
        (Code.nested_block [] List.not_mem_nil ⟨'t', _, rfl, by decide, by decide, by decide⟩
          (turns_plain (by decide)) (turns_plain (by decide))
          (Stmt.nested_bodyCode body h.1 hs.1))
        (Code.nested_block [] List.not_mem_nil
          (leads_append (leads_append ⟨'c', _, rfl, by decide, by decide, by decide⟩ _) _)
          (turns_catchHead h.2.1) (turns_plain (by decide))
          (Stmt.nested_bodyCode handler h.2.2 hs.2))
  | .declareFunction x params body, h, hs =>
      Code.nested_block [] List.not_mem_nil
        (leads_append (leads_append (leads_append
          ⟨'v', _, rfl, by decide, by decide, by decide⟩ _) _) _)
        (fun s => turns_append (turns_append (turns_append (turns_plain (by decide) s)
          (turns_name h.1 s)) (turns_plain (by decide) s))
          (turns_functionHead h.2.1 s))
        (turns_plain (by decide)) (Stmt.nested_bodyCode body h.2.2 hs)
  | .choose scrutinee cases, h, _ => by
      have hcases := nested_cases h.2
      rw [List.map_map] at hcases
      exact Code.nested_block [] List.not_mem_nil
        (leads_append (leads_append ⟨'s', _, rfl, by decide, by decide, by decide⟩ _) _)
        (turns_switchHead h.1) (turns_plain (by decide)) hcases

theorem Stmt.nested_bodyCode : ∀ ss : List Stmt, Stmt.AllNamed ss →
    Stmt.lacksAll Stmt.startsWithText ss = true → Code.Nested (Stmt.bodyCode ss)
  | [], _, _ => Code.nested_nil
  | s :: ss, h, hs => by
      rw [Stmt.lacksAll, Bool.and_eq_true] at hs
      exact Code.nested_append (s.nested_code h.1 hs.1) (Stmt.nested_bodyCode ss h.2 hs.2)

end

/-! ## 6. Properties -/

/-- **Every line of a property fits** behind the brackets that are open in front of it. -/
theorem Property.nested_code (p : Property) (h : p.Named)
    (hs : Stmt.lacksAll Stmt.startsWithText p.body = true) : Code.Nested [p.code] :=
  Code.nested_block [] List.not_mem_nil (leads_append (leads_append (leads_name h.name) _) _)
    (fun s => turns_append (turns_append (turns_name h.name s)
      (turns_plain (by decide) s)) (turns_functionHead h.params s))
    (turns_plain (by decide)) (Stmt.nested_bodyCode p.body h.body hs)

end Script

end HostGlue
