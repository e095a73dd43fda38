import HostGlue.Proofs.Script.Nesting

/-!
# The assignments of a program

A line of a program that assigns something has an equals sign outside of its literals. This file finds
these signs, whatever names and texts a program holds:

* `Silent`, a piece of text that has no such sign; expressions are silent (`Expr.silent_spell`);
* `Stmt.stores`, the lines of a statement that store a value without declaring a variable for it;
* `LineStores`, that of some lines these are the ones that store something, while all others are silent or
  declare a variable; **`Stmt.stores_code`, that this is so for the lines of a program**;
* `Assigning`, the same for lines of text: at most one such sign in each, and which of them store
  something (`LineStores.assigning`).
-/

namespace HostGlue

namespace Text

/-! ## 1. Silent pieces -/

/-- A piece of text in which every literal ends and no equals sign stands outside of a literal. -/
structure Silent (cs : List Char) : Prop where
  settled : ∀ rest, bare (cs ++ rest) = bare cs ++ bare rest
  silent : '=' ∉ bare cs

namespace Silent

variable {as bs : List Char}

theorem append (ha : Silent as) (hb : Silent bs) : Silent (as ++ bs) := by
  refine ⟨fun rest => ?_, ?_⟩
  · rw [List.append_assoc, ha.settled, hb.settled, ha.settled, List.append_assoc]
  · rw [ha.settled]
    intro hm
    rcases List.mem_append.mp hm with hm | hm
    · exact ha.silent hm
    · exact hb.silent hm

/-- A text without quotes and equals signs. -/
theorem of_not_mem (hquote : '\x27' ∉ as) (hsign : '=' ∉ as) : Silent as := by
  have hbare : bare as = as := by
    have h := bare_append_of_not_mem hquote []
    rwa [List.append_nil, bare_nil, List.append_nil] at h
  exact ⟨fun rest => by rw [bare_append_of_not_mem hquote, hbare], by rwa [hbare]⟩

theorem encode (value : String) : Silent (Quoted.encode value).toList := by
  have hbare : bare (Quoted.encode value).toList = [] := by
    have h := bare_encode value []
    rwa [List.append_nil] at h
  exact ⟨fun rest => by rw [bare_encode, hbare, List.nil_append],
    by rw [hbare]; exact List.not_mem_nil⟩

end Silent

end Text

namespace Script

open Text (Silent)

theorem silent_append {a b : String} (ha : Silent a.toList) (hb : Silent b.toList) :
    Silent (a ++ b).toList := by
  rw [String.toList_append]
  exact ha.append hb

/-- A fixed piece of text. -/
theorem silent_plain {a : String} (h : a.toList.all (fun c => c != '\x27' && c != '=') = true) :
    Silent a.toList := by
  rw [List.all_eq_true] at h
  exact .of_not_mem (fun hm => absurd (h _ hm) (by decide)) fun hm => absurd (h _ hm) (by decide)

theorem silent_name {x : String} (h : Ident.isIdentifier x = true) : Silent x.toList :=
  .of_not_mem (Ident.not_mem_of_isIdentifier h (by decide))
    (Ident.not_mem_of_isIdentifier h (by decide))

theorem silent_ofInt (n : Int) : Silent (Digits.ofInt n).toList := by
  have hdigits : Silent (String.ofList (Nat.toDigits 10 n.natAbs)).toList := by
    rw [String.toList_ofList]
    exact .of_not_mem (fun hm => digit_ne (Digits.isDigit_of_mem hm) (by decide) rfl)
      fun hm => digit_ne (Digits.isDigit_of_mem hm) (by decide) rfl
  unfold Digits.ofInt
  split
  · exact silent_append (silent_plain (by decide)) hdigits
  · exact hdigits

theorem silent_commaList : ∀ {xs : List String}, (∀ x ∈ xs, Silent x.toList) →
    Silent (commaList xs).toList
  | [], _ => by
      rw [commaList, String.intercalate_nil]
      exact silent_plain (by decide)
  | [x], h => by
      rw [commaList, String.intercalate_singleton]
      exact h x (List.mem_singleton_self x)
  | x :: y :: xs, h => by
      have ih : Silent (commaList (y :: xs)).toList :=
        silent_commaList fun z hz => h z (List.mem_cons_of_mem x hz)
      rw [commaList, String.intercalate_cons_cons]
      exact silent_append (silent_append (h x List.mem_cons_self) (silent_plain (by decide))) ih

theorem silent_functionHead {params : List String} (h : ∀ x ∈ params, Ident.isIdentifier x = true) :
    Silent (functionHead params).toList :=
  silent_append (silent_append (silent_plain (by decide)) (silent_commaList fun x hx =>
    silent_name (h x hx))) (silent_plain (by decide))

mutual

/-- **An expression assigns nothing**, whatever texts it holds. -/
theorem Expr.silent_spell : ∀ e : Expr, e.Named → Silent e.spell.toList
  | .name _, h => silent_name h
  | .text value, _ => Silent.encode value
  | .number n, _ => silent_ofInt n
  | .member e _, h =>
      silent_append (silent_append (e.silent_spell h.1) (silent_plain (by decide))) (silent_name h.2)
  | .item e key, h =>
      silent_append (silent_append (silent_append (e.silent_spell h.1) (silent_plain (by decide)))
        (key.silent_spell h.2)) (silent_plain (by decide))
  | .call f args, h =>
      silent_append (silent_append (silent_append (f.silent_spell h.1) (silent_plain (by decide)))
        (silent_commaList (Expr.silent_spellings args h.2))) (silent_plain (by decide))
  | .construct f args, h =>
      silent_append (silent_append (silent_append (silent_append (silent_plain (by decide))
        (f.silent_spell h.1)) (silent_plain (by decide)))
        (silent_commaList (Expr.silent_spellings args h.2))) (silent_plain (by decide))
  | .sum a b, h =>
      silent_append (silent_append (a.silent_spell h.1) (silent_plain (by decide)))
        (b.silent_spell h.2)
  | .list items, h =>
      silent_append (silent_append (silent_plain (by decide))
        (silent_commaList (Expr.silent_spellings items h))) (silent_plain (by decide))
  | .lambda _ result, h =>
      silent_append (silent_append (silent_append (silent_functionHead h.1)
        (silent_plain (by decide))) (result.silent_spell h.2)) (silent_plain (by decide))

theorem Expr.silent_spellings : ∀ es : List Expr, Expr.AllNamed es →
    ∀ s ∈ Expr.spellings es, Silent s.toList
  | [], _, _, hs => absurd hs List.not_mem_nil
  | e :: es, h, s, hs => by
      rw [Expr.spellings] at hs
      rcases List.mem_cons.mp hs with rfl | hs
      · exact e.silent_spell h.1
      · exact Expr.silent_spellings es h.2 s hs

end

theorem silent_caseText (c : Int × Expr) (h : c.2.Named) : Silent (caseText c).toList :=
  silent_append (silent_append (silent_append (silent_append (silent_plain (by decide))
    (silent_ofInt c.1)) (silent_plain (by decide))) (c.2.silent_spell h)) (silent_plain (by decide))

/-! ## 2. Lines that store something -/

/-- The line that stores a value. -/
def storeText (target e : Expr) : String := target.spell ++ " = " ++ e.spell ++ ";"

mutual

/-- The lines of a statement at a depth that store a value in what was there before. -/
def Stmt.stores (d : Nat) : Stmt → List Line
  | .assign target e => [⟨d, storeText target e⟩]
  | .attempt body _ handler => Stmt.allStores (d + 1) body ++ Stmt.allStores (d + 1) handler
  | .declareFunction _ _ body => Stmt.allStores (d + 1) body
  | .run _ | .declare _ _ | .give _ | .choose _ _ => []
termination_by structural s => s

/-- The lines of statements at a depth that store a value in what was there before. -/
def Stmt.allStores (d : Nat) : List Stmt → List Line
  | [] => []
  | s :: ss => s.stores d ++ Stmt.allStores d ss
termination_by structural ss => ss

end

theorem Stmt.allStores_append (d : Nat) : ∀ as bs : List Stmt,
    allStores d (as ++ bs) = allStores d as ++ allStores d bs
  | [], _ => rfl
  | a :: as, bs => by
      rw [List.cons_append, allStores, allStores, allStores_append d as bs, List.append_assoc]

/-- A statement that looks like a declaration, but stores a value. -/
def Stmt.looksDeclared : Stmt → Bool
  | .assign target e => "var ".toList.isPrefixOf (storeText target e).toList
  | _ => false

/-- Of some lines the latter are those that store a value in what was there before. All others are
    silent, or declare a variable with the value. -/
inductive LineStores : List Line → List Line → Prop where
  | nil : LineStores [] []
  | silent {l : Line} {ls ss : List Line} (quiet : Silent l.content.toList) (others : LineStores ls ss) :
      LineStores (l :: ls) ss
  | declares {d : Nat} {x value : String} {ls ss : List Line} (named : Ident.isIdentifier x = true)
      (quiet : Silent value.toList) (others : LineStores ls ss) :
      LineStores (⟨d, "var " ++ x ++ " = " ++ value⟩ :: ls) ss
  | stores {d : Nat} {target value : String} {ls ss : List Line} (place : Silent target.toList)
      (quiet : Silent value.toList)
      (undeclared : "var ".toList.isPrefixOf (target ++ " = " ++ value).toList = false)
      (others : LineStores ls ss) :
      LineStores (⟨d, target ++ " = " ++ value⟩ :: ls) (⟨d, target ++ " = " ++ value⟩ :: ss)

namespace LineStores

theorem append {ls ss ls' ss' : List Line} (h : LineStores ls ss) (h' : LineStores ls' ss') :
    LineStores (ls ++ ls') (ss ++ ss') := by
  induction h with
  | nil => exact h'
  | silent quiet _ ih => exact .silent quiet ih
  | declares named quiet _ ih => exact .declares named quiet ih
  | stores place quiet undeclared _ ih => exact .stores place quiet undeclared ih

theorem mem {ls ss : List Line} (h : LineStores ls ss) : ∀ l ∈ ss, l ∈ ls := by
  induction h with
  | nil => exact List.forall_mem_nil _
  | silent _ _ ih | declares _ _ _ ih => exact fun l hl => List.mem_cons_of_mem _ (ih l hl)
  | stores _ _ _ _ ih =>
    exact List.forall_mem_cons.mpr ⟨List.mem_cons_self, fun l hl => List.mem_cons_of_mem _ (ih l hl)⟩

/-- Silent lines. -/
theorem lines {d : Nat} {contents : List String} (h : ∀ c ∈ contents, Silent c.toList) :
    LineStores (Code.bodyLines d (contents.map .line)) [] := by
  induction contents with
  | nil => exact .nil
  | cons c contents ih =>
    exact .silent (h c List.mem_cons_self) (ih fun k hk => h k (List.mem_cons_of_mem c hk))

/-- A block with a silent head. -/
theorem block {d : Nat} {header suffix : String} {body : List Code} {ss : List Line}
    (hh : Silent header.toList) (hs : Silent suffix.toList)
    (hb : LineStores (Code.bodyLines (d + 1) body) ss) :
    LineStores (Code.lines d (.block header suffix body)) ss := by
  have hopen : Silent (openLine header).toList := by
    rw [openLine]
    split
    · exact silent_plain (by decide)
    · exact silent_append hh (silent_plain (by decide))
  have hclose : LineStores [⟨d, closeLine suffix⟩] [] :=
    .silent (silent_append (silent_plain (by decide)) hs) .nil
  have h := hb.append hclose
  rw [List.append_nil] at h
  exact .silent hopen h

/-- A block that declares a function. -/
theorem function {d : Nat} {x : String} {params : List String} {suffix : String} {body : List Code}
    {ss : List Line} (named : Ident.isIdentifier x = true)
    (hp : ∀ y ∈ params, Ident.isIdentifier y = true) (hs : Silent suffix.toList)
    (hb : LineStores (Code.bodyLines (d + 1) body) ss) :
    LineStores (Code.lines d (.block ("var " ++ x ++ " = " ++ functionHead params) suffix body)) ss := by
  have hne : "var " ++ x ++ " = " ++ functionHead params ≠ "" := by
    intro e
    have h := congrArg (·.toList.length) e
    simp at h
  have hopen : openLine ("var " ++ x ++ " = " ++ functionHead params) =
      "var " ++ x ++ " = " ++ (functionHead params ++ " \x7b") := by
    rw [openLine, if_neg hne, String.append_assoc]
  have hclose : LineStores [⟨d, closeLine suffix⟩] [] :=
    .silent (silent_append (silent_plain (by decide)) hs) .nil
  have h := hb.append hclose
  rw [List.append_nil] at h
  rw [Code.lines, hopen]
  exact .declares named (silent_append (silent_functionHead hp) (silent_plain (by decide))) h

end LineStores

mutual

/-- **The lines of a statement that assign something** are its assignments, and declarations. -/
theorem Stmt.stores_code : ∀ (d : Nat) (s : Stmt), s.Named →
    s.lacks Stmt.looksDeclared = true → LineStores (Code.bodyLines d s.code) (s.stores d)
  | _, .run e, h, _ => .silent (silent_append (e.silent_spell h) (silent_plain (by decide))) .nil
  | _, .declare x e, h, _ => by
      have hvalue := silent_append (e.silent_spell h.2) (silent_plain (by decide) : Silent ";".toList)
      rw [Stmt.code, String.append_assoc]
      exact .declares h.1 hvalue .nil
  | d, .assign target e, h, hs => by
      have hvalue := silent_append (e.silent_spell h.2) (silent_plain (by decide) : Silent ";".toList)
      have hlooks : "var ".toList.isPrefixOf (storeText target e).toList = false := by
        simpa [Stmt.lacks, Stmt.looksDeclared] using hs
      rw [Stmt.code, Stmt.stores]
      rw [storeText, String.append_assoc] at hlooks ⊢
      exact .stores (target.silent_spell h.1) hvalue hlooks .nil
  | _, .give e, h, _ =>
      .silent (silent_append (silent_append (silent_plain (by decide)) (e.silent_spell h))
        (silent_plain (by decide))) .nil
  | d, .attempt body caught handler, h, hs => by
      rw [Stmt.lacks, Bool.and_eq_true] at hs
      have hcatch : Silent ("catch (" ++ caught ++ ")").toList :=
        silent_append (silent_append (silent_plain (by decide)) (silent_name h.2.1))
          (silent_plain (by decide))
      have htry := LineStores.block (silent_plain (by decide) : Silent "try".toList)
        (silent_plain (by decide) : Silent "".toList) (Stmt.stores_bodyCode (d + 1) body h.1 hs.1)
      have hhandler := LineStores.block hcatch (silent_plain (by decide) : Silent "".toList)
        (Stmt.stores_bodyCode (d + 1) handler h.2.2 hs.2)
      rw [Stmt.code, Code.bodyLines, Code.bodyLines, Code.bodyLines, List.append_nil]
      exact htry.append hhandler
  | d, .declareFunction x params body, h, hs => by
      rw [Stmt.code, Code.bodyLines, Code.bodyLines, List.append_nil]
      exact LineStores.function h.1 h.2.1 (silent_plain (by decide))
        (Stmt.stores_bodyCode (d + 1) body h.2.2 hs)
  | d, .choose scrutinee cases, h, _ => by
      have hswitch : Silent ("switch (" ++ scrutinee.spell ++ ")").toList :=
        silent_append (silent_append (silent_plain (by decide)) (scrutinee.silent_spell h.1))
          (silent_plain (by decide))
      have hcases : ∀ x ∈ cases.map caseText, Silent x.toList :=
        List.forall_mem_map.mpr fun c hc => silent_caseText c (h.2 c hc)
      have hlines := LineStores.lines (d := d + 1) hcases
      rw [List.map_map] at hlines
      rw [Stmt.code, Code.bodyLines, Code.bodyLines, List.append_nil]
      exact LineStores.block hswitch (silent_plain (by decide)) hlines

theorem Stmt.stores_bodyCode : ∀ (d : Nat) (ss : List Stmt), Stmt.AllNamed ss →
    Stmt.lacksAll Stmt.looksDeclared ss = true →
    LineStores (Code.bodyLines d (Stmt.bodyCode ss)) (Stmt.allStores d ss)
  | _, [], _, _ => .nil
  | d, s :: ss, h, hs => by
      rw [Stmt.lacksAll, Bool.and_eq_true] at hs
      rw [Stmt.bodyCode, Code.bodyLines_append]
      exact (s.stores_code d h.1 hs.1).append (Stmt.stores_bodyCode d ss h.2 hs.2)

end

/-- The lines of a property that assign something are those of its body. -/
theorem Property.stores_code (p : Property) (h : p.Named)
    (hs : Stmt.lacksAll Stmt.looksDeclared p.body = true) (d : Nat) :
    LineStores (p.code.lines d) (Stmt.allStores (d + 1) p.body) :=
  LineStores.block (silent_append (silent_append (silent_name h.name) (silent_plain (by decide)))
    (silent_functionHead h.params)) (silent_plain (by decide))
    (Stmt.stores_bodyCode (d + 1) p.body h.body hs)

/-! ## 3. Lines of text -/

/-- A line as it is written, without its line feed. -/
def written (l : Line) : List Char := Text.indented l.depth l.content.toList

/-- Whether a line of text begins as a declaration does. -/
def declaring (line : List Char) : Bool := "var ".toList.isPrefixOf (line.dropWhile (· == ' '))

/-- Whether a line of text stores a value in what was there before: there is an equals sign outside of
    its literals, and the line is no declaration. -/
def storing (line : List Char) : Bool := (Text.bare line).contains '=' && !declaring line

/-- What the assignments of some lines of text are. No line has two, those that begin as declarations
    do give their variable a value, and the others are the latter lines. -/
structure Assigning (ls ss : List (List Char)) : Prop where
  single : ∀ l ∈ ls, (Text.bare l).count '=' ≤ 1
  declared : ∀ l ∈ ls, '=' ∈ Text.bare l → declaring l = true → ∃ d x value,
    Ident.isIdentifier x = true ∧ l = written ⟨d, "var " ++ x ++ " = " ++ value⟩
  stored : ls.filter storing = ss

theorem Assigning.append {ls ss ls' ss' : List (List Char)} (h : Assigning ls ss)
    (h' : Assigning ls' ss') : Assigning (ls ++ ls') (ss ++ ss') :=
  ⟨List.forall_mem_append.mpr ⟨h.single, h'.single⟩,
    List.forall_mem_append.mpr ⟨h.declared, h'.declared⟩,
    by rw [List.filter_append, h.stored, h'.stored]⟩

theorem bare_written (l : Line) :
    Text.bare (written l) = Text.indented l.depth (Text.bare l.content.toList) :=
  Text.bare_indented l.depth l.content.toList

/-- Blanks in front of a line are no signs. -/
theorem count_written (l : Line) :
    (Text.bare (written l)).count '=' = (Text.bare l.content.toList).count '=' := by
  rw [bare_written, Text.indented, List.count_append, List.count_replicate]
  exact Nat.zero_add _

theorem count_of_silent {cs : List Char} (h : Silent cs) : (Text.bare cs).count '=' = 0 :=
  List.count_eq_zero_of_not_mem h.silent

/-- A sign between silent pieces is the only one. -/
theorem count_assignment {a b : String} (ha : Silent a.toList) (hb : Silent b.toList) :
    (Text.bare (a ++ " = " ++ b).toList).count '=' = 1 := by
  have hsign : ∀ rest, Text.bare (" = ".toList ++ rest) = " = ".toList ++ Text.bare rest :=
    Text.bare_append_of_not_mem (by decide)
  rw [String.toList_append, String.toList_append, List.append_assoc, ha.settled, hsign,
    List.count_append, List.count_append, count_of_silent ha, count_of_silent hb]
  decide

/-- A line begins as its content does. -/
theorem declaring_written {l : Line} (h : Text.Solid l.content.toList) :
    declaring (written l) = "var ".toList.isPrefixOf l.content.toList := by
  obtain ⟨c, rest, hcontent, hc⟩ := h.starts
  rw [declaring, written, Text.indented, hcontent,
    (Text.takeWhile_replicate_append hc rest (indentWidth * l.depth)).2]

theorem storing_written_of_silent {l : Line} (h : Silent l.content.toList) :
    '=' ∉ Text.bare (written l) ∧ storing (written l) = false := by
  have hsign : '=' ∉ Text.bare (written l) := by
    rw [← List.count_eq_zero, count_written, count_of_silent h]
  refine ⟨hsign, ?_⟩
  rw [storing, Bool.and_eq_false_iff]
  exact Or.inl (by simpa using hsign)

/-- A line without an assignment. -/
theorem assigning_silent {l : Line} (quiet : Silent l.content.toList) :
    Assigning [written l] [] := by
  obtain ⟨hsign, hstoring⟩ := storing_written_of_silent quiet
  refine ⟨List.forall_mem_singleton.mpr ?_, List.forall_mem_singleton.mpr fun h => ?_, ?_⟩
  · rw [count_written, count_of_silent quiet]
    exact Nat.zero_le 1
  · exact absurd h hsign
  · rw [List.filter_singleton, hstoring]
    rfl

/-- A declaration assigns, and stores nothing. -/
theorem assigning_declares {d : Nat} {x value : String}
    (hl : Text.Solid ("var " ++ x ++ " = " ++ value).toList) (named : Ident.isIdentifier x = true)
    (quiet : Silent value.toList) : Assigning [written ⟨d, "var " ++ x ++ " = " ++ value⟩] [] := by
  have hvar : Silent ("var " ++ x).toList :=
    silent_append (silent_plain (by decide)) (silent_name named)
  have hdeclaring : declaring (written ⟨d, "var " ++ x ++ " = " ++ value⟩) = true := by
    rw [declaring_written hl, List.isPrefixOf_iff_prefix]
    simp only [String.toList_append, List.append_assoc]
    exact List.prefix_append _ _
  refine ⟨List.forall_mem_singleton.mpr ?_, List.forall_mem_singleton.mpr fun _ _ => ?_, ?_⟩
  · exact Nat.le_of_eq ((count_written _).trans (count_assignment hvar quiet))
  · exact ⟨d, x, value, named, rfl⟩
  · rw [List.filter_singleton, storing, hdeclaring, Bool.not_true, Bool.and_false]
    rfl

/-- An assignment to a place stores. -/
theorem assigning_stores {d : Nat} {target value : String}
    (hl : Text.Solid (target ++ " = " ++ value).toList) (place : Silent target.toList)
    (quiet : Silent value.toList)
    (undeclared : "var ".toList.isPrefixOf (target ++ " = " ++ value).toList = false) :
    Assigning [written ⟨d, target ++ " = " ++ value⟩] [written ⟨d, target ++ " = " ++ value⟩] := by
  have hcount : (Text.bare (written ⟨d, target ++ " = " ++ value⟩)).count '=' = 1 :=
    (count_written _).trans (count_assignment place quiet)
  have hdeclaring : declaring (written ⟨d, target ++ " = " ++ value⟩) = false := by
    rw [declaring_written hl, undeclared]
  have hsign : '=' ∈ Text.bare (written ⟨d, target ++ " = " ++ value⟩) :=
    List.count_pos_iff.mp (hcount ▸ Nat.one_pos)
  refine ⟨List.forall_mem_singleton.mpr (Nat.le_of_eq hcount),
    List.forall_mem_singleton.mpr fun _ h => ?_, ?_⟩
  · rw [hdeclaring] at h
    cases h
  · rw [List.filter_singleton, storing, hdeclaring, List.contains_iff_mem.mpr hsign]
    rfl

/-- **The assignments of lines that are written**, if every line is solid. -/
theorem LineStores.assigning {ls ss : List Line} (h : LineStores ls ss) :
    (∀ l ∈ ls, Text.Solid l.content.toList) → Assigning (ls.map written) (ss.map written) := by
  induction h with
  | nil => exact fun _ => ⟨List.forall_mem_nil _, List.forall_mem_nil _, rfl⟩
  | silent quiet _ ih =>
    intro hsolid
    exact (assigning_silent quiet).append (ih (List.forall_mem_cons.mp hsolid).2)
  | declares named quiet _ ih =>
    intro hsolid
    obtain ⟨hl, hothers⟩ := List.forall_mem_cons.mp hsolid
    exact (assigning_declares hl named quiet).append (ih hothers)
  | stores place quiet undeclared _ ih =>
    intro hsolid
    obtain ⟨hl, hothers⟩ := List.forall_mem_cons.mp hsolid
    exact (assigning_stores hl place quiet undeclared).append (ih hothers)

end Script

end HostGlue
