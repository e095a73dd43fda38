import HostGlue.Proofs.Json.Growing

/-!
# How deep a text is nested

The brackets of a text are counted without reading it: a bracket inside a string is no bracket. This
file fixes

* `nesting`, the greatest number of brackets of a text that are open at once;
* `Tree.depth`, the greatest number of containers of a tree that are inside one another;
* **`nesting_of_spelled`: the nesting of a text is the depth of the tree it spells.** The link are the
  brackets of a row of tokens, `depthFrom`.
-/

namespace HostGlue.Json

/-! ## 1. Brackets of texts, of rows of tokens, and of trees -/

/-- The greatest number of brackets open at once from a place on, where `d` are open. The place is
    inside a string or outside of strings. -/
def nestingFrom : Bool → Nat → List Char → Nat
  | _, d, [] => d
  | true, d, '\\' :: _ :: cs => nestingFrom true d cs
  | true, d, c :: cs => nestingFrom (!(c == '\x22')) d cs
  | false, d, c :: cs =>
    if c = '\x22' then nestingFrom true d cs
    else if c = '[' ∨ c = '\x7b' then nestingFrom false (d + 1) cs
    else if c = ']' ∨ c = '\x7d' then max d (nestingFrom false (d - 1) cs)
    else nestingFrom false d cs

/-- The greatest number of brackets of a text that are open at once. -/
def nesting (text : String) : Nat := nestingFrom false 0 text.toList

/-- The greatest number of brackets open at once along a row of tokens, where `d` are open. -/
def depthFrom : Nat → List Token → Nat
  | d, [] => d
  | d, .openArray :: toks | d, .openObject :: toks => depthFrom (d + 1) toks
  | d, .closeArray :: toks | d, .closeObject :: toks => max d (depthFrom (d - 1) toks)
  | d, _ :: toks => depthFrom d toks

mutual

/-- How many containers of a tree are inside one another at most. -/
def Tree.depth : Tree → Nat
  | .null | .bool _ | .numeral _ | .text _ | .brokenWord _ | .brokenNumeral _ | .nothing _ => 0
  | .array items _ => Tree.itemsDepth items + 1
  | .object members _ => Tree.membersDepth members + 1
termination_by structural t => t

/-- How deep the elements of an array are at most. -/
def Tree.itemsDepth : List Tree → Nat
  | [] => 0
  | t :: ts => max t.depth (Tree.itemsDepth ts)
termination_by structural ts => ts

/-- How deep the members of an object are at most. -/
def Tree.membersDepth : List (Tree × Tree) → Nat
  | [] => 0
  | m :: ms => max (Tree.memberDepth m) (Tree.membersDepth ms)
termination_by structural ms => ms

/-- How deep the value of a member is. A key is no container. -/
def Tree.memberDepth : Tree × Tree → Nat
  | (_, value) => value.depth
termination_by structural m => m

end

/-! ## 2. From texts to rows of tokens -/

/-- A character that is neither a quote nor a bracket. -/
def isBare (c : Char) : Bool :=
  !(c == '\x22' || c == '[' || c == '\x7b' || c == ']' || c == '\x7d')

theorem nestingFrom_bare {cs : List Char} (h : ∀ c ∈ cs, isBare c = true) (d : Nat)
    (rest : List Char) : nestingFrom false d (cs ++ rest) = nestingFrom false d rest := by
  induction cs with
  | nil => rfl
  | cons c cs ih =>
    have hc := h c List.mem_cons_self
    simp only [isBare, Bool.not_eq_true', Bool.or_eq_false_iff, beq_eq_false_iff_ne] at hc
    obtain ⟨⟨⟨⟨hq, ha⟩, ho⟩, ha'⟩, ho'⟩ := hc
    rw [List.cons_append, nestingFrom, if_neg hq, if_neg (not_or.mpr ⟨ha, ho⟩),
      if_neg (not_or.mpr ⟨ha', ho'⟩)]
    exact ih fun c hc => h c (List.mem_cons_of_mem _ hc)

theorem isBare_of_isDigit {c : Char} (h : c.isDigit = true) : isBare c = true := by
  have hne : ∀ d : Char, d.isDigit = false → c ≠ d := by
    rintro d hd rfl
    exact absurd (hd.symm.trans h) (by decide)
  simp only [isBare, Bool.not_eq_true', Bool.or_eq_false_iff, beq_eq_false_iff_ne]
  exact ⟨⟨⟨⟨hne _ (by decide), hne _ (by decide)⟩, hne _ (by decide)⟩, hne _ (by decide)⟩,
    hne _ (by decide)⟩

theorem bare_append {as bs : List Char} (ha : ∀ c ∈ as, isBare c = true)
    (hb : ∀ c ∈ bs, isBare c = true) : ∀ c ∈ as ++ bs, isBare c = true :=
  List.forall_mem_append.mpr ⟨ha, hb⟩

theorem bare_of_digital {ds : List Char} (h : Digital ds) : ∀ c ∈ ds, isBare c = true :=
  fun c hc => isBare_of_isDigit (h.digits c hc)

/-- No character of a numeral is a quote or a bracket. -/
theorem bare_of_numeral {x : Numeral} {cs : List Char} (h : x.Spelled cs) :
    ∀ c ∈ cs, isBare c = true := by
  cases h with
  | @mk negative whole f e fraction exponent leading point power =>
    have hminus : ∀ c ∈ minusOf negative, isBare c = true := by
      cases negative <;> simp [minusOf, isBare]
    have hpoint : ∀ c ∈ f, isBare c = true := by
      cases point with
      | none => exact nofun
      | some digital => exact List.forall_mem_cons.mpr ⟨by decide, bare_of_digital digital⟩
    have hpower : ∀ c ∈ e, isBare c = true := by
      cases power with
      | none => exact nofun
      | some letter signed digital =>
        refine List.forall_mem_cons.mpr ⟨?_, bare_append ?_ (bare_of_digital digital)⟩
        · rcases letter with rfl | rfl <;> decide
        · cases signed <;> simp [isBare]
    exact bare_append hminus
      (bare_append (bare_of_digital leading.digital) (bare_append hpoint hpower))

theorem nestingFrom_inside {c : Char} (h : c ≠ '\\') (d : Nat) (cs : List Char) :
    nestingFrom true d (c :: cs) = nestingFrom (!(c == '\x22')) d cs := by
  rw [nestingFrom]
  exact fun _ _ hc => absurd hc h

/-- A hexadecimal digit is neither a quote nor a backslash. -/
theorem inside_of_isHex {c : Char} (h : Digits.isHex c = true) : c ≠ '\\' ∧ (c == '\x22') = false := by
  constructor
  · rintro rfl
    exact absurd h (by decide)
  · cases hc : c == '\x22' with
    | false => rfl
    | true =>
      rw [beq_iff_eq] at hc
      subst hc
      exact absurd h (by decide)

/-- The content of a string is passed over. -/
theorem nestingFrom_content {ps : List Piece} {cs : List Char} (h : PiecesSpelled ps cs) (d : Nat)
    (rest : List Char) : nestingFrom true d (cs ++ rest) = nestingFrom true d rest := by
  induction h with
  | nil => rfl
  | @cons p ps cs ds head _ ih =>
    rw [List.append_assoc, ← ih]
    cases head with
    | @plain c printable quote backslash =>
      rw [List.singleton_append, nestingFrom_inside backslash, beq_false_of_ne quote]
      rfl
    | short escape => rfl
    | @code a b c e n digits =>
      have hex : ∀ x ∈ [a, b, c, e], Digits.isHex x = true := by
        unfold Digits.hexNumber? at digits
        split at digits
        · rename_i hall
          exact List.all_eq_true.mp hall
        · cases digits
      have hstep : ∀ x ∈ [a, b, c, e], ∀ tail,
          nestingFrom true d (x :: tail) = nestingFrom true d tail := by
        intro x hx tail
        obtain ⟨hb, hq⟩ := inside_of_isHex (hex x hx)
        rw [nestingFrom_inside hb, hq]
        rfl
      simp only [List.cons_append, List.nil_append, nestingFrom]
      rw [hstep a (by simp), hstep b (by simp), hstep c (by simp), hstep e (by simp)]

/-- **The brackets of a text are the brackets of its tokens.** -/
theorem nestingFrom_lexed {toks : List Token} {cs : List Char} (h : Lexed toks cs) (d : Nat) :
    nestingFrom false d cs = depthFrom d toks := by
  have hblank : ∀ {ws : List Char}, Blank ws → ∀ c ∈ ws, isBare c = true :=
    fun hw c hc => of_isSpace (P := fun c => isBare c = true) (by decide) (hw c hc)
  induction h generalizing d with
  | nil blank =>
    have hw := nestingFrom_bare (hblank blank) d []
    rw [List.append_nil] at hw
    rw [hw]
    rfl
  | @cons ws cs rest tok toks blank spelled _ ih =>
    rw [nestingFrom_bare (hblank blank)]
    cases spelled with
    | openArray | openObject => exact ih (d + 1)
    | closeArray | closeObject => exact congrArg (max d) (ih (d - 1))
    | comma | colon => exact ih d
    | null | true | false => exact (nestingFrom_bare (by simp [isBare]) d rest).trans (ih d)
    | numeral numeral => exact (nestingFrom_bare (bare_of_numeral numeral) d rest).trans (ih d)
    | text content =>
      rw [List.cons_append, List.append_assoc]
      exact (nestingFrom_content content d _).trans (ih d)

/-! ## 3. From rows of tokens to trees -/

theorem le_depthFrom : ∀ (toks : List Token) (d : Nat), d ≤ depthFrom d toks
  | [], d => Nat.le_refl d
  | tok :: toks, d => by
      cases tok with
      | openArray | openObject => exact Nat.le_trans (Nat.le_succ d) (le_depthFrom toks (d + 1))
      | closeArray | closeObject => exact Nat.le_max_left d _
      | comma | colon | value | broken => exact le_depthFrom toks d

/-- Brackets around a row of tokens that is as deep as `n` inside. -/
theorem depthFrom_around {inner toks : List Token} {n d : Nat} {opening closing : Token}
    (hopen : ∀ d toks, depthFrom d (opening :: toks) = depthFrom (d + 1) toks)
    (hclose : ∀ d toks, depthFrom d (closing :: toks) = max d (depthFrom (d - 1) toks))
    (hinner : ∀ toks, depthFrom (d + 1) (inner ++ toks) = max (d + 1 + n) (depthFrom (d + 1) toks)) :
    depthFrom d (opening :: (inner ++ [closing]) ++ toks) = max (d + (n + 1)) (depthFrom d toks) := by
  rw [List.cons_append, List.append_assoc, hopen, hinner, List.singleton_append, hclose,
    Nat.add_sub_cancel]
  omega

mutual

/-- **The brackets of the tokens of a tree are as deep as the tree.** -/
theorem depthFrom_lexemes : ∀ (t : Tree), Sound t.lexemes → ∀ (d : Nat) (toks : List Token),
    depthFrom d (t.lexemes ++ toks) = max (d + t.depth) (depthFrom d toks)
  | .null, _, d, toks | .bool _, _, d, toks | .numeral _, _, d, toks | .text _, _, d, toks => by
      rw [Tree.lexemes, Tree.depth]
      exact (Nat.max_eq_right (le_depthFrom toks d)).symm
  | .brokenWord _, h, _, _ | .brokenNumeral _, h, _, _ | .nothing _, h, _, _
  | .array _ (some _), h, _, _ | .object _ (some _), h, _, _ => by
      rw [Tree.lexemes] at h
      exact absurd (h _ List.mem_cons_self) Bool.false_ne_true
  | .array items none, h, d, toks => by
      rw [Tree.lexemes, sound_cons, sound_append] at h
      have ih := depthFrom_itemLexemes items h.2.1 (d + 1)
      rw [Tree.lexemes, Tree.depth]
      exact depthFrom_around (fun _ _ => rfl) (fun _ _ => rfl) ih
  | .object members none, h, d, toks => by
      rw [Tree.lexemes, sound_cons, sound_append] at h
      have ih := depthFrom_memberLexemes members h.2.1 (d + 1)
      rw [Tree.lexemes, Tree.depth]
      exact depthFrom_around (fun _ _ => rfl) (fun _ _ => rfl) ih
termination_by structural t => t

theorem depthFrom_itemLexemes : ∀ (ts : List Tree), Sound (Tree.itemLexemes ts) →
    ∀ (d : Nat) (toks : List Token),
    depthFrom d (Tree.itemLexemes ts ++ toks) = max (d + Tree.itemsDepth ts) (depthFrom d toks)
  | [], _, d, toks => (Nat.max_eq_right (le_depthFrom toks d)).symm
  | t :: ts, h, d, toks => by
      rw [Tree.itemLexemes, sound_append] at h
      have ih := depthFrom_itemLexemes ts
      have hle := le_depthFrom toks d
      rw [Tree.itemLexemes, List.append_assoc, depthFrom_lexemes t h.1, Tree.itemsDepth]
      cases ts with
      | nil =>
        rw [Tree.itemsDepth]
        show max _ (depthFrom d toks) = _
        omega
      | cons u us =>
        have hothers := ih (sound_cons.mp h.2).2 d toks
        show max _ (depthFrom d (Tree.itemLexemes (u :: us) ++ toks)) = _
        rw [hothers]
        omega
termination_by structural ts => ts

theorem depthFrom_memberLexemes : ∀ (ms : List (Tree × Tree)), Sound (Tree.memberLexemes ms) →
    ∀ (d : Nat) (toks : List Token),
    depthFrom d (Tree.memberLexemes ms ++ toks) = max (d + Tree.membersDepth ms) (depthFrom d toks)
  | [], _, d, toks => (Nat.max_eq_right (le_depthFrom toks d)).symm
  | m :: ms, h, d, toks => by
      rw [Tree.memberLexemes, sound_append] at h
      have ih := depthFrom_memberLexemes ms
      have hle := le_depthFrom toks d
      rw [Tree.memberLexemes, List.append_assoc, depthFrom_memberLexeme m h.1, Tree.membersDepth]
      cases ms with
      | nil =>
        rw [Tree.membersDepth]
        show max _ (depthFrom d toks) = _
        omega
      | cons u us =>
        have hothers := ih (sound_cons.mp h.2).2 d toks
        show max _ (depthFrom d (Tree.memberLexemes (u :: us) ++ toks)) = _
        rw [hothers]
        omega
termination_by structural ms => ms

theorem depthFrom_memberLexeme : ∀ (m : Tree × Tree), Sound (Tree.memberLexeme m) →
    ∀ (d : Nat) (toks : List Token),
    depthFrom d (Tree.memberLexeme m ++ toks) = max (d + Tree.memberDepth m) (depthFrom d toks)
  | (key, value), h, d, toks => by
      rw [Tree.memberLexeme, sound_cons, sound_cons] at h
      have ih := depthFrom_lexemes value h.2.2 d toks
      rw [Tree.memberLexeme, Tree.memberDepth]
      cases key with
      | text t => exact ih
      | _ => exact absurd h.1 Bool.false_ne_true
termination_by structural m => m

end

/-- **A text is nested as deep as the tree it spells.** -/
theorem nesting_of_spelled {t : Tree} {text : String} (h : t.Spelled text) :
    nesting text = t.depth := by
  have hdepth := depthFrom_lexemes t (Lexed.sound h) 0 []
  rw [List.append_nil] at hdepth
  rw [nesting, nestingFrom_lexed h, hdepth]
  simp [depthFrom]

end HostGlue.Json
