import HostGlue.Proofs.Script.Spelling
import HostGlue.Proofs.Text.Reading

/-!
# Reading a program from what it is spelled as

Programs are not read back in full here: only where a name, a list of names or the head of a function
ends. This file shows that

* an identifier is read up to the next character that is none of a name (`Ident.read`);
* a list of identifiers between brackets is read back (`commaList_read`), and so is the head of a
  function (`functionHead_read`);
* a property shows its name, its parameters and the lines of its body (`Property.read`).
-/

namespace HostGlue

/-- **An identifier is as long as it can be.** -/
theorem Ident.read {x y : String} {c d : Char} {s t : List Char} (hx : isIdentifier x = true)
    (hy : isIdentifier y = true) (hc : isPart c = false) (hd : isPart d = false)
    (h : x.toList ++ c :: s = y.toList ++ d :: t) : x = y ∧ c :: s = d :: t := by
  obtain ⟨hxy, rfl, rfl⟩ := @Text.append_cons_inj Char (fun a => isPart a = true) c d (by simp [hc])
    (by simp [hd]) _ _ _ _ ((spellsIdentifier_iff x.toList).mp hx).2
    ((spellsIdentifier_iff y.toList).mp hy).2 h
  exact ⟨String.toList_injective hxy, rfl⟩

/-- Lines are written one below the other. -/
theorem Code.bodyLines_lines {α : Type} (d : Nat) (f : α → String) : ∀ xs : List α,
    bodyLines d (xs.map fun x => .line (f x)) = xs.map fun x => ⟨d, f x⟩
  | [] => rfl
  | x :: xs => by
      have ih := bodyLines_lines d f xs
      rw [List.map_cons, bodyLines, ih]
      rfl

namespace Script

/-! ## 1. Lists of names -/

/-- What stands behind the first name of a list. -/
def commaTail (xs : List String) : List Char := xs.flatMap fun x => ',' :: ' ' :: x.toList

theorem commaTail_cons (x : String) (xs : List String) :
    commaTail (x :: xs) = ',' :: ' ' :: (x.toList ++ commaTail xs) := rfl

theorem commaList_cons_toList : ∀ (x : String) (xs : List String),
    (commaList (x :: xs)).toList = x.toList ++ commaTail xs
  | x, [] => by
      rw [commaList, String.intercalate_singleton, commaTail, List.flatMap_nil, List.append_nil]
  | x, y :: ys => by
      have ih := commaList_cons_toList y ys
      rw [commaList] at ih ⊢
      rw [String.intercalate_cons_cons, String.toList_append, String.toList_append, ih,
        List.append_assoc]
      rfl

variable {xs ys : List String} {c : Char}

/-- Behind a name of a list comes a comma or what ends the list, and neither is of a name. -/
theorem commaTail_stops (hc : Ident.isPart c = false) (s : List Char) :
    ∃ d rest, commaTail xs ++ c :: s = d :: rest ∧ Ident.isPart d = false := by
  cases xs with
  | nil => exact ⟨c, s, rfl, hc⟩
  | cons x xs => exact ⟨',', _, rfl, by decide⟩

theorem commaTail_read (hc : Ident.isPart c = false) (hcomma : c ≠ ',') {s t : List Char} :
    ∀ {xs ys : List String}, (∀ x ∈ xs, Ident.isIdentifier x = true) →
      (∀ y ∈ ys, Ident.isIdentifier y = true) →
      commaTail xs ++ c :: s = commaTail ys ++ c :: t → xs = ys ∧ s = t
  | [], [], _, _, h => ⟨rfl, (List.cons.inj h).2⟩
  | [], _ :: _, _, _, h => absurd (List.cons.inj h).1 hcomma
  | _ :: _, [], _, _, h => absurd (List.cons.inj h).1.symm hcomma
  | x :: xs, y :: ys, hx, hy, h => by
      have hrest : x.toList ++ (commaTail xs ++ c :: s) = y.toList ++ (commaTail ys ++ c :: t) := by
        rw [commaTail_cons, commaTail_cons, List.cons_append, List.cons_append, List.cons_append,
          List.cons_append, List.append_assoc, List.append_assoc] at h
        exact (List.cons.inj (List.cons.inj h).2).2
      obtain ⟨d, rest, ed, hd⟩ := @commaTail_stops xs c hc s
      obtain ⟨d', rest', ed', hd'⟩ := @commaTail_stops ys c hc t
      rw [ed, ed'] at hrest
      obtain ⟨hxy, htail⟩ := Ident.read (hx x List.mem_cons_self) (hy y List.mem_cons_self) hd hd' hrest
      rw [← ed, ← ed'] at htail
      obtain ⟨hxs, hst⟩ := commaTail_read hc hcomma (fun z hz => hx z (List.mem_cons_of_mem x hz))
        (fun z hz => hy z (List.mem_cons_of_mem y hz)) htail
      exact ⟨by rw [hxy, hxs], hst⟩

/-- What ends a list does not begin one. -/
theorem commaList_ne (hc : Ident.isPart c = false) {y : String} (hy : Ident.isIdentifier y = true)
    (s rest : List Char) : c :: s ≠ (commaList (y :: ys)).toList ++ rest := by
  intro h
  obtain ⟨⟨a, as, e, ha⟩, -⟩ := (Ident.spellsIdentifier_iff y.toList).mp hy
  rw [commaList_cons_toList, e] at h
  have hca : c = a := (List.cons.inj h).1
  rw [hca, Ident.isPart_of_isStart ha] at hc
  cases hc

/-- **A list of identifiers is read back** up to a character that ends it. -/
theorem commaList_read (hc : Ident.isPart c = false) (hcomma : c ≠ ',') {s t : List Char}
    (hx : ∀ x ∈ xs, Ident.isIdentifier x = true) (hy : ∀ y ∈ ys, Ident.isIdentifier y = true)
    (h : (commaList xs).toList ++ c :: s = (commaList ys).toList ++ c :: t) : xs = ys ∧ s = t := by
  cases xs with
  | nil =>
    cases ys with
    | nil => exact ⟨rfl, (List.cons.inj h).2⟩
    | cons y ys => exact absurd h (commaList_ne hc (hy y List.mem_cons_self) s _)
  | cons x xs =>
    cases ys with
    | nil => exact absurd h.symm (commaList_ne hc (hx x List.mem_cons_self) t _)
    | cons y ys =>
      -- A comma before the first name makes a list all tail.
      have htail : commaTail (x :: xs) ++ c :: s = commaTail (y :: ys) ++ c :: t := by
        rw [commaList_cons_toList, commaList_cons_toList] at h
        exact congrArg (fun l => ',' :: ' ' :: l) h
      exact commaTail_read hc hcomma hx hy htail

/-- **The head of a function is read back.** -/
theorem functionHead_read {s t : String} (hx : ∀ x ∈ xs, Ident.isIdentifier x = true)
    (hy : ∀ y ∈ ys, Ident.isIdentifier y = true) (h : functionHead xs ++ s = functionHead ys ++ t) :
    xs = ys ∧ s = t := by
  have e := congrArg String.toList h
  simp only [functionHead, String.toList_append, List.append_assoc, List.append_cancel_left_eq] at e
  obtain ⟨hxy, hst⟩ := commaList_read (by decide) (by decide) hx hy e
  exact ⟨hxy, String.toList_injective hst⟩

/-! ## 2. Properties -/

theorem Stmt.bodyCode_append : ∀ as bs : List Stmt,
    Stmt.bodyCode (as ++ bs) = Stmt.bodyCode as ++ Stmt.bodyCode bs
  | [], _ => rfl
  | a :: as, bs => by
      have ih := Stmt.bodyCode_append as bs
      rw [List.cons_append, Stmt.bodyCode, ih, Stmt.bodyCode, List.append_assoc]

/-- Statements of one line each are these lines. -/
theorem Stmt.bodyCode_map {α : Type} {g : α → Stmt} {f : α → String}
    (h : ∀ x, (g x).code = [.line (f x)]) : ∀ xs : List α,
    Stmt.bodyCode (xs.map g) = xs.map fun x => .line (f x)
  | [] => rfl
  | x :: xs => by
      have ih := Stmt.bodyCode_map h xs
      rw [List.map_cons, Stmt.bodyCode, h, ih]
      rfl

/-- **A property is read back** from its lines: its name, its parameters, the lines of its body, and
    what follows it. -/
theorem Property.read {p q : Property} (hp : p.Named) (hq : q.Named) {d : Nat} {ls ms : List Line}
    (h : p.code.lines d ++ ls = q.code.lines d ++ ms) :
    p.name = q.name ∧ p.params = q.params ∧
      Code.bodyLines (d + 1) (Stmt.bodyCode p.body) = Code.bodyLines (d + 1) (Stmt.bodyCode q.body) ∧
      ls = ms := by
  obtain ⟨hhead, hbody, hls⟩ := Code.block_read h
  have hcolon : p.name.toList ++ ':' :: (" " ++ functionHead p.params).toList =
      q.name.toList ++ ':' :: (" " ++ functionHead q.params).toList := by
    have e := congrArg String.toList hhead
    simpa [String.toList_append] using e
  obtain ⟨hname, hrest⟩ := Ident.read hp.name hq.name (by decide) (by decide) hcolon
  have hfun : functionHead p.params ++ "" = functionHead q.params ++ "" := by
    have e := String.toList_injective (List.cons.inj hrest).2
    rw [(String.append_right_inj " ").mp e]
  exact ⟨hname, (functionHead_read hp.params hq.params hfun).1, hbody, hls⟩

end Script

end HostGlue
