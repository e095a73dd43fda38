import HostGlue.Proofs.Names
import HostGlue.Proofs.Text.Literals

/-!
# How well-named programs are spelled

A program is *well-named* if every name in it is an identifier; texts and numbers may be any. This
file shows that

* a path is spelled as it was given (`Expr.spell_ofPath`) and is well-named if it was checked;
* a well-named expression is spelled as a solid text (`Expr.solid_spell`), whatever texts it holds;
* every line of a well-named program is solid (`Stmt.solid_code`, `Property.solid_code`).
-/

namespace HostGlue

/-! ## 1. Solid code -/

/-- Trees of code whose lines are solid. -/
def Code.Solid (cs : List Code) : Prop :=
  ∀ d, ∀ l ∈ Code.bodyLines d cs, Text.Solid l.content.toList

namespace Code

theorem solid_nil : Solid [] := fun _ _ h => absurd h List.not_mem_nil

theorem solid_append {as bs : List Code} (ha : Solid as) (hb : Solid bs) : Solid (as ++ bs) := by
  intro d l hl
  rw [bodyLines_append] at hl
  rcases List.mem_append.mp hl with hl | hl
  · exact ha d l hl
  · exact hb d l hl

theorem solid_line {content : String} (h : Text.Solid content.toList) : Solid [.line content] := by
  intro d l hl
  have e : l = ⟨d, content⟩ := by simpa [bodyLines, lines] using hl
  rw [e]
  exact h

theorem solid_lines {contents : List String} (h : ∀ c ∈ contents, Text.Solid c.toList) :
    Solid (contents.map .line) := by
  induction contents with
  | nil => exact solid_nil
  | cons c contents ih =>
    exact solid_append (solid_line (h c List.mem_cons_self))
      (ih fun x hx => h x (List.mem_cons_of_mem _ hx))

theorem solid_block {header suffix : String} {body : List Code}
    (hh : Text.Solid header.toList) (hs : '\n' ∉ suffix.toList) (hb : Solid body) :
    Solid [.block header suffix body] := by
  have ho : Text.Solid (openLine header).toList := by
    have hne : header ≠ "" := fun e => hh.ne_nil (by rw [e]; rfl)
    rw [openLine, if_neg hne, String.toList_append]
    exact hh.append (by decide)
  have hc : Text.Solid (closeLine suffix).toList := by
    rw [closeLine, String.toList_append]
    exact Text.Solid.cons (by decide) (by decide) hs
  intro d l hl
  simp only [bodyLines, lines, List.append_nil, List.cons_append, List.mem_cons, List.mem_append,
    List.not_mem_nil, or_false] at hl
  rcases hl with rfl | hl | rfl
  · exact ho
  · exact hb (d + 1) l hl
  · exact hc

end Code

namespace Script

open Text (Solid)

/-! ## 2. Pieces of spelled text -/

theorem solid_append {a b : String} (ha : Solid a.toList) (hb : '\n' ∉ b.toList) :
    Solid (a ++ b).toList := by
  rw [String.toList_append]
  exact ha.append hb

theorem newline_not_mem_append {a b : String} (ha : '\n' ∉ a.toList) (hb : '\n' ∉ b.toList) :
    '\n' ∉ (a ++ b).toList := by
  rw [String.toList_append]
  intro hm
  rcases List.mem_append.mp hm with hm | hm
  · exact ha hm
  · exact hb hm

/-- What stands in a list of texts with commas stands in one of them, or is a comma or a blank. -/
theorem mem_commaList {c : Char} : ∀ {xs : List String}, c ∈ (commaList xs).toList →
    c = ',' ∨ c = ' ' ∨ ∃ x ∈ xs, c ∈ x.toList
  | [], h => absurd h (by rw [commaList, String.intercalate_nil]; exact List.not_mem_nil)
  | [x], h => by
      rw [commaList, String.intercalate_singleton] at h
      exact Or.inr (Or.inr ⟨x, List.mem_singleton_self x, h⟩)
  | x :: y :: xs, h => by
      rw [commaList, String.intercalate_cons_cons, String.toList_append, String.toList_append] at h
      rcases List.mem_append.mp h with h | h
      · rcases List.mem_append.mp h with h | h
        · exact Or.inr (Or.inr ⟨x, List.mem_cons_self, h⟩)
        · rcases List.mem_cons.mp h with h | h
          · exact Or.inl h
          · exact Or.inr (Or.inl (List.mem_singleton.mp h))
      · have ih : _ ∨ _ ∨ ∃ z ∈ y :: xs, c ∈ z.toList := mem_commaList h
        rcases ih with h | h | ⟨z, hz, h⟩
        · exact Or.inl h
        · exact Or.inr (Or.inl h)
        · exact Or.inr (Or.inr ⟨z, List.mem_cons_of_mem x hz, h⟩)

theorem newline_not_mem_commaList {xs : List String} (h : ∀ x ∈ xs, '\n' ∉ x.toList) :
    '\n' ∉ (commaList xs).toList := by
  intro hm
  rcases mem_commaList hm with e | e | ⟨x, hx, hm⟩
  · exact absurd e (by decide)
  · exact absurd e (by decide)
  · exact h x hx hm

theorem newline_not_mem_encode (value : String) :
    '\n' ∉ (Text.Quoted.encode value).toList :=
  (Text.Quoted.breaks_not_mem_encode value).1

theorem solid_encode (value : String) : Solid (Text.Quoted.encode value).toList := by
  refine ⟨?_, newline_not_mem_encode value⟩
  rw [Text.Quoted.encode, String.toList_ofList]
  exact ⟨'\x27', Text.Quoted.encodeBody value.toList ++ ['\x27'], rfl, by decide⟩

/-- The digits of a number are digits. -/
theorem digit_ne {c d : Char} (hc : c.isDigit = true) (hd : d.isDigit = false) : c ≠ d := by
  rintro rfl
  rw [hd] at hc
  cases hc

theorem solid_ofInt (n : Int) : Solid (Digits.ofInt n).toList := by
  have hdigits : '\n' ∉ (String.ofList (Nat.toDigits 10 n.natAbs)).toList := by
    rw [String.toList_ofList]
    exact fun hm => digit_ne (Digits.isDigit_of_mem hm) (by decide) rfl
  unfold Digits.ofInt
  split
  · exact solid_append ⟨⟨'-', [], rfl, by decide⟩, by decide⟩ hdigits
  · refine ⟨?_, hdigits⟩
    obtain ⟨c, rest, hfirst, hdigit⟩ := Digits.exists_toDigits n.natAbs
    rw [String.toList_ofList, hfirst]
    exact ⟨c, rest, rfl, digit_ne hdigit (by decide)⟩

/-! ## 3. Expressions -/

mutual

/-- Every name in an expression is an identifier. -/
def Expr.Named : Expr → Prop
  | .name x => Ident.isIdentifier x = true
  | .text _ => True
  | .number _ => True
  | .member e field => e.Named ∧ Ident.isIdentifier field = true
  | .item e key => e.Named ∧ key.Named
  | .call f args => f.Named ∧ Expr.AllNamed args
  | .construct f args => f.Named ∧ Expr.AllNamed args
  | .sum a b => a.Named ∧ b.Named
  | .list items => Expr.AllNamed items
  | .lambda params result => (∀ x ∈ params, Ident.isIdentifier x = true) ∧ result.Named
termination_by structural e => e

/-- Every name in a list of expressions is an identifier. -/
def Expr.AllNamed : List Expr → Prop
  | [] => True
  | e :: es => e.Named ∧ Expr.AllNamed es
termination_by structural es => es

end

theorem Expr.allNamed_names : ∀ {xs : List String}, (∀ x ∈ xs, Ident.isIdentifier x = true) →
    Expr.AllNamed (Expr.names xs)
  | [], _ => trivial
  | x :: _, h =>
      ⟨h x List.mem_cons_self, Expr.allNamed_names fun y hy => h y (List.mem_cons_of_mem _ hy)⟩

theorem newline_not_mem_functionHead {params : List String}
    (h : ∀ x ∈ params, Ident.isIdentifier x = true) : '\n' ∉ (functionHead params).toList := by
  have hp : '\n' ∉ (commaList params).toList :=
    newline_not_mem_commaList fun x hx => Ident.not_mem_of_isIdentifier (h x hx) (by decide)
  exact newline_not_mem_append (newline_not_mem_append (by decide) hp) (by decide)

mutual

/-- **A well-named expression is spelled as a solid text.** -/
theorem Expr.solid_spell : ∀ e : Expr, e.Named → Solid e.spell.toList
  | .name _, h => Ident.solid_of_isIdentifier h
  | .text value, _ => solid_encode value
  | .number n, _ => solid_ofInt n
  | .member e _, h =>
      solid_append (solid_append (e.solid_spell h.1) (by decide))
        (Ident.solid_of_isIdentifier h.2).oneLine
  | .item e key, h =>
      solid_append (solid_append (solid_append (e.solid_spell h.1) (by decide))
        (key.solid_spell h.2).oneLine) (by decide)
  | .call f args, h =>
      solid_append (solid_append (solid_append (f.solid_spell h.1) (by decide))
        (newline_not_mem_commaList (Expr.newline_not_mem_spellings args h.2))) (by decide)
  | .construct f args, h =>
      solid_append (solid_append (solid_append
        (solid_append (Solid.cons (by decide) (by decide) (by decide)) (f.solid_spell h.1).oneLine)
        (by decide)) (newline_not_mem_commaList (Expr.newline_not_mem_spellings args h.2)))
        (by decide)
  | .sum a b, h =>
      solid_append (solid_append (a.solid_spell h.1) (by decide)) (b.solid_spell h.2).oneLine
  | .list items, h =>
      solid_append (solid_append (Solid.cons (by decide) (by decide) (by decide))
        (newline_not_mem_commaList (Expr.newline_not_mem_spellings items h))) (by decide)
  | .lambda params result, h => by
      have hhead : Solid (functionHead params).toList :=
        ⟨by simp [functionHead], newline_not_mem_functionHead h.1⟩
      exact solid_append (solid_append (solid_append hhead (by decide))
        (result.solid_spell h.2).oneLine) (by decide)

theorem Expr.newline_not_mem_spellings : ∀ es : List Expr, Expr.AllNamed es →
    ∀ s ∈ Expr.spellings es, '\n' ∉ s.toList
  | [], _, _, hs => absurd hs List.not_mem_nil
  | e :: es, h, s, hs => by
      rw [Expr.spellings] at hs
      rcases List.mem_cons.mp hs with rfl | hs
      · exact (e.solid_spell h.1).oneLine
      · exact Expr.newline_not_mem_spellings es h.2 s hs

end

/-- Names are spelled as they are. -/
theorem Expr.spellings_names : ∀ xs : List String, Expr.spellings (Expr.names xs) = xs
  | [] => rfl
  | x :: xs => congrArg (x :: ·) (Expr.spellings_names xs)

/-! ## 4. Paths -/

/-- Members behind an expression are spelled with points between them. -/
theorem Expr.spell_foldl_member : ∀ (fields : List String) (e : Expr),
    (fields.foldl .member e).spell = ".".intercalate (e.spell :: fields)
  | [], e => by rw [String.intercalate_singleton]; rfl
  | f :: fields, e => by
      rw [List.foldl_cons, Expr.spell_foldl_member fields, Expr.spell]
      cases fields with
      | nil =>
        rw [String.intercalate_singleton, String.intercalate_cons_cons, String.intercalate_singleton]
      | cons g fields =>
        simp only [String.intercalate_cons_cons, String.append_assoc]

theorem join_eq_intercalate (sep : Char) : ∀ parts : List (List Char),
    Text.join sep parts = [sep].intercalate parts
  | [] => rfl
  | [p] => by rw [Text.join, List.intercalate_singleton]
  | p :: q :: parts => by
      have ih := join_eq_intercalate sep (q :: parts)
      simp only [Text.join, List.intercalate_cons_cons, ih, List.append_assoc, List.singleton_append]

/-- The segments of a path, joined again, are the path. -/
theorem intercalate_pathSegments (path : String) : ".".intercalate (Ident.pathSegments path) = path := by
  apply String.toList_injective
  rw [String.toList_intercalate, Ident.pathSegments, List.map_map]
  have hid : (String.toList ∘ String.ofList) = id := by
    funext cs
    exact String.toList_ofList
  rw [hid, List.map_id]
  show ['.'].intercalate _ = _
  rw [← join_eq_intercalate, Text.join_split]

/-- **A path is spelled as it was given.** -/
theorem Expr.spell_ofPath (path : String) : (Expr.ofPath path).spell = path := by
  unfold Expr.ofPath
  split
  · rfl
  · rename_i root fields e
    rw [Expr.spell_foldl_member, Expr.spell, ← e, intercalate_pathSegments]

theorem Expr.named_foldl_member : ∀ (fields : List String) (e : Expr), e.Named →
    (∀ f ∈ fields, Ident.isIdentifier f = true) → (fields.foldl .member e).Named
  | [], _, he, _ => he
  | f :: fields, e, he, h =>
      Expr.named_foldl_member fields (.member e f) ⟨he, h f List.mem_cons_self⟩
        fun g hg => h g (List.mem_cons_of_mem _ hg)

/-- A path with a root is the root and a member for every further segment. -/
theorem Expr.ofPath_eq {path root : String} {fields : List String}
    (h : Ident.pathSegments path = root :: fields) :
    Expr.ofPath path = fields.foldl .member (.name root) := by
  unfold Expr.ofPath
  rw [h]

theorem Expr.named_ofPath {path : String} (h : Ident.IsPath path) : (Expr.ofPath path).Named := by
  obtain ⟨root, fields, e⟩ := h.segments
  have hall := h.identifiers
  rw [e] at hall
  rw [Expr.ofPath_eq e]
  exact Expr.named_foldl_member fields (.name root) (hall root List.mem_cons_self)
    fun f hf => hall f (List.mem_cons_of_mem _ hf)

/-! ## 5. Statements -/

mutual

/-- Every name in a statement is an identifier. -/
def Stmt.Named : Stmt → Prop
  | .run e => e.Named
  | .declare x e => Ident.isIdentifier x = true ∧ e.Named
  | .assign target e => target.Named ∧ e.Named
  | .give e => e.Named
  | .attempt body caught handler =>
    Stmt.AllNamed body ∧ Ident.isIdentifier caught = true ∧ Stmt.AllNamed handler
  | .declareFunction x params body =>
    Ident.isIdentifier x = true ∧ (∀ y ∈ params, Ident.isIdentifier y = true) ∧ Stmt.AllNamed body
  | .choose scrutinee cases => scrutinee.Named ∧ ∀ c ∈ cases, c.2.Named
termination_by structural s => s

/-- Every name in a list of statements is an identifier. -/
def Stmt.AllNamed : List Stmt → Prop
  | [] => True
  | s :: ss => s.Named ∧ Stmt.AllNamed ss
termination_by structural ss => ss

end

theorem Stmt.allNamed_append : ∀ {as bs : List Stmt}, Stmt.AllNamed as → Stmt.AllNamed bs →
    Stmt.AllNamed (as ++ bs)
  | [], _, _, hb => hb
  | _ :: _, _, ha, hb => ⟨ha.1, Stmt.allNamed_append ha.2 hb⟩

theorem Stmt.allNamed_map {α : Type} {f : α → Stmt} : ∀ {xs : List α}, (∀ x ∈ xs, (f x).Named) →
    Stmt.AllNamed (xs.map f)
  | [], _ => trivial
  | x :: _, h =>
      ⟨h x List.mem_cons_self, Stmt.allNamed_map fun y hy => h y (List.mem_cons_of_mem _ hy)⟩

theorem solid_caseText (c : Int × Expr) (h : c.2.Named) : Solid (caseText c).toList := by
  have hcase : Solid "case ".toList := ⟨⟨'c', _, rfl, by decide⟩, by decide⟩
  exact solid_append (solid_append (solid_append (solid_append hcase (solid_ofInt c.1).oneLine)
    (by decide)) (c.2.solid_spell h).oneLine) (by decide)

mutual

/-- **Every line of a well-named statement is solid.** -/
theorem Stmt.solid_code : ∀ s : Stmt, s.Named → Code.Solid s.code
  | .run e, h => Code.solid_line (solid_append (e.solid_spell h) (by decide))
  | .declare x e, h => by
      have hvar : Solid "var ".toList := ⟨⟨'v', _, rfl, by decide⟩, by decide⟩
      exact Code.solid_line (solid_append (solid_append (solid_append (solid_append hvar
        (Ident.solid_of_isIdentifier h.1).oneLine) (by decide)) (e.solid_spell h.2).oneLine)
        (by decide))
  | .assign target e, h =>
      Code.solid_line (solid_append (solid_append (solid_append (target.solid_spell h.1)
        (by decide)) (e.solid_spell h.2).oneLine) (by decide))
  | .give e, h => by
      have hreturn : Solid "return ".toList := ⟨⟨'r', _, rfl, by decide⟩, by decide⟩
      exact Code.solid_line (solid_append (solid_append hreturn (e.solid_spell h).oneLine)
        (by decide))
  | .attempt body caught handler, h => by
      have htry : Solid "try".toList := ⟨⟨'t', _, rfl, by decide⟩, by decide⟩
      have hcatch : Solid "catch (".toList := ⟨⟨'c', _, rfl, by decide⟩, by decide⟩
      have hhead := solid_append (solid_append hcatch
        (Ident.solid_of_isIdentifier h.2.1).oneLine) (b := ")") (by decide)
      exact Code.solid_append (Code.solid_block htry (by decide) (Stmt.solid_bodyCode body h.1))
        (Code.solid_block hhead (by decide) (Stmt.solid_bodyCode handler h.2.2))
  | .declareFunction x params body, h => by
      have hvar : Solid "var ".toList := ⟨⟨'v', _, rfl, by decide⟩, by decide⟩
      exact Code.solid_block (solid_append (solid_append (solid_append hvar
        (Ident.solid_of_isIdentifier h.1).oneLine) (by decide)) (newline_not_mem_functionHead h.2.1))
        (by decide) (Stmt.solid_bodyCode body h.2.2)
  | .choose scrutinee cases, h => by
      have hswitch : Solid "switch (".toList := ⟨⟨'s', _, rfl, by decide⟩, by decide⟩
      have hcases : ∀ c ∈ cases.map caseText, Solid c.toList := by
        intro c hc
        obtain ⟨k, hk, rfl⟩ := List.mem_map.mp hc
        exact solid_caseText k (h.2 k hk)
      have hbody := Code.solid_lines hcases
      rw [List.map_map] at hbody
      exact Code.solid_block (solid_append (solid_append hswitch (scrutinee.solid_spell h.1).oneLine)
        (by decide)) (by decide) hbody

theorem Stmt.solid_bodyCode : ∀ ss : List Stmt, Stmt.AllNamed ss → Code.Solid (Stmt.bodyCode ss)
  | [], _ => Code.solid_nil
  | s :: ss, h => Code.solid_append (s.solid_code h.1) (Stmt.solid_bodyCode ss h.2)

end

/-! ## 6. Properties -/

/-- Every name in a property is an identifier. -/
structure Property.Named (p : Property) : Prop where
  name : Ident.isIdentifier p.name = true
  params : ∀ x ∈ p.params, Ident.isIdentifier x = true
  body : Stmt.AllNamed p.body

/-- Every line of a well-named property is solid. -/
theorem Property.solid_code (p : Property) (h : p.Named) : Code.Solid [p.code] :=
  Code.solid_block (solid_append (solid_append (Ident.solid_of_isIdentifier h.name) (by decide))
    (newline_not_mem_functionHead h.params)) (by decide) (Stmt.solid_bodyCode p.body h.body)

end Script

end HostGlue
