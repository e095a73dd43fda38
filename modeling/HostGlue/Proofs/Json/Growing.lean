import HostGlue.Proofs.Json.Scanning

/-!
# Growing trees

The tree that is built over a row of tokens has those tokens:

* `grow_lexemes`: over the tokens of a tree the tree is built, whatever containers are open and
  whatever follows (by recursion on the tree);
* `accounts_grow`: at each step, the tokens that the open containers and the position account for,
  and the tokens that are left, are all tokens of the tree that is built in the end (by induction on
  the tokens). The invariant is what a stack stands for, `stackLexemes`;
* **`ofText_of_spelled` and `spelled_of_ofText`: a text is read as a tree, with nothing wrong and nothing
  behind it, exactly if the tree may be written as the text.**
-/

namespace HostGlue.Json

/-! ## 1. The tokens of a tree are read as the tree -/

/-- Whether a token may stand at the beginning of a value. -/
def Token.begins : Token → Bool
  | .openArray | .openObject | .value _ | .broken _ _ => true
  | _ => false

theorem lexemes_begin : ∀ t : Tree, ∃ tok rest, t.lexemes = tok :: rest ∧ tok.begins = true
  | .null | .bool _ | .numeral _ | .text _ | .brokenWord _ | .brokenNumeral _ | .nothing _
  | .array _ none | .array _ (some _) | .object _ none | .object _ (some _) => by
      rw [Tree.lexemes]
      exact ⟨_, _, rfl, rfl⟩

theorem grow_openArray {tok : Token} (h : tok.begins = true) (stack : List Frame)
    (toks : List Token) :
    grow .value stack (.openArray :: tok :: toks) = grow .value (.array [] :: stack) (tok :: toks) := by
  cases tok <;> first | rfl | cases h

theorem grow_openObject {tok : Token} (h : tok.begins = true) (stack : List Frame)
    (toks : List Token) :
    grow .value stack (.openObject :: tok :: toks) = grow (.key []) stack (tok :: toks) := by
  cases tok <;> first | rfl | cases h

/-- A row of tokens with nothing wrong in it. -/
def Sound (toks : List Token) : Prop := ∀ tok ∈ toks, tok.isSound = true

theorem sound_append {as bs : List Token} : Sound (as ++ bs) ↔ Sound as ∧ Sound bs :=
  List.forall_mem_append

theorem sound_cons {tok : Token} {toks : List Token} :
    Sound (tok :: toks) ↔ tok.isSound = true ∧ Sound toks :=
  List.forall_mem_cons

/-- Nothing is wrong with tokens that may be written. -/
theorem Lexed.sound {toks : List Token} {cs : List Char} (h : Lexed toks cs) : Sound toks := by
  intro tok hm
  obtain ⟨ds, hspelled⟩ := Lexed.exists_iff.mp ⟨cs, h⟩ tok hm
  cases hspelled <;> rfl

mutual

/-- **Over the tokens of a tree the tree is built.** -/
theorem grow_lexemes : ∀ (t : Tree), Sound t.lexemes → ∀ (stack : List Frame) (toks : List Token),
    grow .value stack (t.lexemes ++ toks) = grow (.behind t) stack toks
  | .null, _, _, _ | .bool _, _, _, _ | .numeral _, _, _, _ | .text _, _, _, _ => by
      rw [Tree.lexemes]
      rfl
  | .brokenWord _, h, _, _ | .brokenNumeral _, h, _, _ | .nothing _, h, _, _
  | .array _ (some _), h, _, _ | .object _ (some _), h, _, _ => by
      rw [Tree.lexemes] at h
      exact absurd (h _ List.mem_cons_self) Bool.false_ne_true
  | .array [] none, _, _, _ | .object [] none, _, _, _ => by
      rw [Tree.lexemes]
      rfl
  | .array (t :: ts) none, h, stack, toks => by
      rw [Tree.lexemes, sound_cons, sound_append] at h
      have ih := grow_itemLexemes (t :: ts) h.2.1 (List.cons_ne_nil t ts) [] stack toks
      obtain ⟨tok, rest, hbegin, hbegins⟩ := lexemes_begin t
      rw [Tree.lexemes, List.cons_append, List.append_assoc, List.singleton_append]
      rw [Tree.itemLexemes, hbegin] at ih ⊢
      exact (grow_openArray hbegins stack _).trans ih
  | .object (m :: ms) none, h, stack, toks => by
      rw [Tree.lexemes, sound_cons, sound_append] at h
      have ih := grow_memberLexemes (m :: ms) h.2.1 (List.cons_ne_nil m ms) [] stack toks
      rw [Tree.lexemes, List.cons_append, List.append_assoc, List.singleton_append]
      obtain ⟨key, value⟩ := m
      rw [Tree.memberLexemes, Tree.memberLexeme] at ih ⊢
      refine (grow_openObject ?_ stack _).trans ih
      cases key <;> rfl
termination_by structural t => t

theorem grow_itemLexemes : ∀ (ts : List Tree), Sound (Tree.itemLexemes ts) → ts ≠ [] →
    ∀ (done : List Tree) (stack : List Frame) (toks : List Token),
    grow .value (.array done :: stack) (Tree.itemLexemes ts ++ .closeArray :: toks) =
      grow (.behind (.array (done.reverse ++ ts) none)) stack toks
  | [], _, hne, _, _, _ => absurd rfl hne
  | t :: ts, h, _, done, stack, toks => by
      rw [Tree.itemLexemes, sound_append] at h
      have ih := grow_itemLexemes ts
      rw [Tree.itemLexemes, List.append_assoc, grow_lexemes t h.1]
      cases ts with
      | nil =>
        rw [← List.reverse_cons]
        rfl
      | cons u us =>
        have hothers := ih (sound_cons.mp h.2).2 (List.cons_ne_nil u us) (t :: done) stack toks
        rw [List.reverse_cons, List.append_assoc] at hothers
        exact hothers
termination_by structural ts => ts

theorem grow_memberLexemes : ∀ (ms : List (Tree × Tree)), Sound (Tree.memberLexemes ms) → ms ≠ [] →
    ∀ (done : List (Tree × Tree)) (stack : List Frame) (toks : List Token),
    grow (.key done) stack (Tree.memberLexemes ms ++ .closeObject :: toks) =
      grow (.behind (.object (done.reverse ++ ms) none)) stack toks
  | [], _, hne, _, _, _ => absurd rfl hne
  | m :: ms, h, _, done, stack, toks => by
      rw [Tree.memberLexemes, sound_append] at h
      have ih := grow_memberLexemes ms
      rw [Tree.memberLexemes, List.append_assoc, grow_memberLexeme m h.1]
      cases ms with
      | nil =>
        rw [← List.reverse_cons]
        rfl
      | cons u us =>
        have hothers := ih (sound_cons.mp h.2).2 (List.cons_ne_nil u us) (m :: done) stack toks
        rw [List.reverse_cons, List.append_assoc] at hothers
        exact hothers
termination_by structural ms => ms

theorem grow_memberLexeme : ∀ (m : Tree × Tree), Sound (Tree.memberLexeme m) →
    ∀ (done : List (Tree × Tree)) (stack : List Frame) (toks : List Token),
    grow (.key done) stack (Tree.memberLexeme m ++ toks) =
      grow (.behind m.2) (.object done m.1 :: stack) toks
  | (key, value), h, done, stack, toks => by
      rw [Tree.memberLexeme, sound_cons, sound_cons] at h
      have ih := grow_lexemes value h.2.2 (.object done key :: stack) toks
      rw [Tree.memberLexeme]
      cases key with
      | text t => exact ih
      | _ => exact absurd h.1 Bool.false_ne_true
termination_by structural m => m

end

/-! ## 2. The tree has the tokens it is built over -/

/-- The elements in front of the current one, with the commas behind them. -/
def frontLexemes (done : List Tree) : List Token :=
  done.reverse.flatMap fun t => t.lexemes ++ [.comma]

/-- The members in front of the current one, with the commas behind them. -/
def frontMemberLexemes (done : List (Tree × Tree)) : List Token :=
  done.reverse.flatMap fun m => Tree.memberLexeme m ++ [.comma]

/-- The tokens an open container accounts for. -/
def Frame.lexemes : Frame → List Token
  | .array done => .openArray :: frontLexemes done
  | .object done key => .openObject :: (frontMemberLexemes done ++ [key.keyLexeme, .colon])

/-- The tokens the open containers account for. -/
def stackLexemes : List Frame → List Token
  | [] => []
  | frame :: stack => stackLexemes stack ++ frame.lexemes

/-- The tokens a position accounts for, behind those of the open containers. -/
def Position.lexemes : Position → List Token
  | .value => []
  | .key done => .openObject :: frontMemberLexemes done
  | .behind t => t.lexemes

theorem itemLexemes_concat (t : Tree) : ∀ ts : List Tree,
    Tree.itemLexemes (ts ++ [t]) = ts.flatMap (fun u => u.lexemes ++ [.comma]) ++ t.lexemes
  | [] => by simp [Tree.itemLexemes]
  | u :: us => by
      have hne : (us ++ [t]).isEmpty = false := by simp
      rw [List.cons_append, Tree.itemLexemes, itemLexemes_concat t us, hne]
      simp

theorem memberLexemes_concat (m : Tree × Tree) : ∀ ms : List (Tree × Tree),
    Tree.memberLexemes (ms ++ [m]) =
      ms.flatMap (fun u => Tree.memberLexeme u ++ [.comma]) ++ Tree.memberLexeme m
  | [] => by simp [Tree.memberLexemes]
  | u :: us => by
      have hne : (us ++ [m]).isEmpty = false := by simp
      rw [List.cons_append, Tree.memberLexemes, memberLexemes_concat m us, hne]
      simp

theorem frontLexemes_cons (t : Tree) (done : List Tree) :
    frontLexemes (t :: done) = frontLexemes done ++ (t.lexemes ++ [.comma]) := by
  simp [frontLexemes]

theorem frontMemberLexemes_cons (m : Tree × Tree) (done : List (Tree × Tree)) :
    frontMemberLexemes (m :: done) =
      frontMemberLexemes done ++ (Tree.memberLexeme m ++ [.comma]) := by
  simp [frontMemberLexemes]

/-- The tokens of an array that is closed behind an element. -/
theorem lexemes_closed_array (t : Tree) (done : List Tree) :
    (Tree.array (done.reverse ++ [t]) none).lexemes =
      .openArray :: (frontLexemes done ++ (t.lexemes ++ [.closeArray])) := by
  rw [Tree.lexemes, itemLexemes_concat, List.append_assoc, frontLexemes]

/-- The tokens of an object that is closed behind a member. -/
theorem lexemes_closed_object (m : Tree × Tree) (done : List (Tree × Tree)) :
    (Tree.object (done.reverse ++ [m]) none).lexemes =
      .openObject :: (frontMemberLexemes done ++ (Tree.memberLexeme m ++ [.closeObject])) := by
  rw [Tree.lexemes, memberLexemes_concat, List.append_assoc, frontMemberLexemes]

/-- A tree that broke off somewhere shows it at its root. -/
theorem breakOff_skipFault (f : Fault) : ∀ {t : Tree} (stack : List Frame), t.skipFault ≠ none →
    (breakOff f t stack).tree.skipFault ≠ none
  | _, [], h => h
  | _, .array _ :: stack, _ => by
      rw [breakOff]
      exact breakOff_skipFault f stack (Option.some_ne_none f)
  | _, .object _ _ :: stack, _ => by
      rw [breakOff]
      exact breakOff_skipFault f stack (Option.some_ne_none f)

theorem breakOffMember_skipFault (f : Fault) (done : List (Tree × Tree)) (key value : Tree)
    (stack : List Frame) : (breakOffMember f done key value stack).tree.skipFault ≠ none :=
  breakOff_skipFault f stack (Option.some_ne_none f)

/-- What a scanner makes: a scalar is a token of its own, and a broken token has a fault to show. -/
def Token.Proper : Token → Prop
  | .value t => t.lexemes = [.value t]
  | .broken t _ => t.skipFault ≠ none
  | _ => True

theorem Token.Spelled.proper {tok : Token} {cs : List Char} (h : tok.Spelled cs) : tok.Proper := by
  cases h <;> first | rfl | trivial

theorem proper_scalarToken (c : Char) (cs : List Char) : (scalarToken c cs).1.Proper := by
  have hword : ∀ (t : Tree) (word : List Char), t.lexemes = [.value t] →
      (wordToken t word cs).1.Proper := by
    intro t word ht
    unfold wordToken
    split
    · exact ht
    · exact nofun
  unfold scalarToken
  split
  · exact hword .null _ rfl
  split
  · exact hword (.bool true) _ rfl
  split
  · exact hword (.bool false) _ rfl
  split
  · unfold textToken
    dsimp only
    split
    · exact rfl
    · rename_i hfault
      exact fun h => nomatch hfault.symm.trans h
  split
  · unfold numeralToken
    split
    · exact rfl
    · exact nofun
  · exact nofun

/-- What is read from a text is what a scanner makes. -/
theorem proper_tokens (cs : List Char) : ∀ tok ∈ tokens cs, tok.Proper := by
  fun_induction tokens cs with
  | case1 => exact List.forall_mem_nil _
  | case2 c rest _ ih => exact ih
  | case3 c rest _ tok hpunctuation ih =>
    exact List.forall_mem_cons.mpr ⟨(spelled_of_punctuation hpunctuation).proper, ih⟩
  | case4 c rest _ _ t f hbroken =>
    have hproper := proper_scalarToken c rest
    rw [hbroken] at hproper
    exact List.forall_mem_singleton.mpr hproper
  | case5 c rest _ _ _ ih => exact List.forall_mem_cons.mpr ⟨proper_scalarToken c rest, ih⟩

/-- What the stack and the position account for, and the tokens that are left, are tokens of a tree,
    and nothing is wrong with the tokens that are left. -/
def Accounts (pos : Position) (stack : List Frame) (toks : List Token) (t : Tree) : Prop :=
  stackLexemes stack ++ (pos.lexemes ++ toks) = t.lexemes ∧ Sound toks

/-- A step takes tokens off those that are left and accounts for them. -/
theorem accounts_step {pos pos' : Position} {stack stack' : List Frame} {toks : List Token} {t : Tree}
    (taken : List Token) (hsound : Sound taken)
    (hstep : stackLexemes stack ++ (pos.lexemes ++ taken) = stackLexemes stack' ++ pos'.lexemes)
    (h : Accounts pos' stack' toks t) : Accounts pos stack (taken ++ toks) t := by
  obtain ⟨heq, hothers⟩ := h
  refine ⟨?_, sound_append.mpr ⟨hsound, hothers⟩⟩
  rw [← heq, ← List.append_assoc (stackLexemes stack'), ← hstep]
  simp only [List.append_assoc]

/-- **The tree has the tokens it is built over**, if nothing is wrong with it and nothing is left over.
    What the open containers and the position account for comes first. -/
theorem accounts_grow {pos : Position} {stack : List Frame} {toks : List Token}
    (hproper : ∀ tok ∈ toks, tok.Proper) (hfault : (grow pos stack toks).tree.skipFault = none)
    (htrailing : (grow pos stack toks).trailing = false) :
    Accounts pos stack toks (grow pos stack toks).tree := by
  fun_induction grow pos stack toks with
  | case2 stack toks ih =>
    have taken : Sound [.openArray, .closeArray] := by simp [Sound, Token.isSound]
    refine accounts_step _ taken ?_ (ih (fun tok h => hproper tok (by simp [h])) hfault htrailing)
    simp [Position.lexemes, Tree.lexemes, Tree.itemLexemes]
  | case3 stack toks _ ih =>
    have taken : Sound [.openArray] := by simp [Sound, Token.isSound]
    refine accounts_step _ taken ?_ (ih (fun tok h => hproper tok (by simp [h])) hfault htrailing)
    simp [Position.lexemes, stackLexemes, Frame.lexemes, frontLexemes]
  | case4 stack toks ih =>
    have taken : Sound [.openObject, .closeObject] := by simp [Sound, Token.isSound]
    refine accounts_step _ taken ?_ (ih (fun tok h => hproper tok (by simp [h])) hfault htrailing)
    simp [Position.lexemes, Tree.lexemes, Tree.memberLexemes]
  | case5 stack toks _ ih =>
    have taken : Sound [.openObject] := by simp [Sound, Token.isSound]
    refine accounts_step _ taken ?_ (ih (fun tok h => hproper tok (by simp [h])) hfault htrailing)
    simp [Position.lexemes, frontMemberLexemes]
  | case6 stack t toks ih =>
    have taken : Sound [.value t] := by simp [Sound, Token.isSound]
    have hscalar : t.lexemes = [.value t] := hproper _ List.mem_cons_self
    refine accounts_step _ taken ?_ (ih (fun tok h => hproper tok (by simp [h])) hfault htrailing)
    simp [Position.lexemes, hscalar]
  | case7 stack t f _ => exact absurd hfault (breakOff_skipFault f stack (hproper _ List.mem_cons_self))
  | case10 done stack t toks ih =>
    have taken : Sound [.value (.text t), .colon] := by simp [Sound, Token.isSound]
    refine accounts_step _ taken ?_ (ih (fun tok h => hproper tok (by simp [h])) hfault htrailing)
    simp [Position.lexemes, stackLexemes, Frame.lexemes, Tree.keyLexeme]
  | case14 t toks =>
    obtain rfl : toks = [] := by simpa using htrailing
    exact ⟨by simp [stackLexemes, Position.lexemes], List.forall_mem_nil _⟩
  | case15 t done stack toks ih =>
    have taken : Sound [.comma] := by simp [Sound, Token.isSound]
    refine accounts_step _ taken ?_ (ih (fun tok h => hproper tok (by simp [h])) hfault htrailing)
    simp [Position.lexemes, stackLexemes, Frame.lexemes, frontLexemes_cons]
  | case16 t done stack toks ih =>
    have taken : Sound [.closeArray] := by simp [Sound, Token.isSound]
    refine accounts_step _ taken ?_ (ih (fun tok h => hproper tok (by simp [h])) hfault htrailing)
    simp [Position.lexemes, stackLexemes, Frame.lexemes, lexemes_closed_array]
  | case18 t done key stack toks ih =>
    have taken : Sound [.comma] := by simp [Sound, Token.isSound]
    refine accounts_step _ taken ?_ (ih (fun tok h => hproper tok (by simp [h])) hfault htrailing)
    simp [Position.lexemes, stackLexemes, Frame.lexemes, frontMemberLexemes_cons,
      Tree.memberLexeme]
  | case19 t done key stack toks ih =>
    have taken : Sound [.closeObject] := by simp [Sound, Token.isSound]
    refine accounts_step _ taken ?_ (ih (fun tok h => hproper tok (by simp [h])) hfault htrailing)
    simp [Position.lexemes, stackLexemes, Frame.lexemes, lexemes_closed_object, Tree.memberLexeme]
  | case9 | case11 | case12 | case13 =>
    exact absurd hfault (breakOffMember_skipFault _ _ _ _ _)
  | _ => exact absurd hfault (breakOff_skipFault _ _ (Option.some_ne_none _))

/-! ## 3. Whole texts -/

/-- **A tree is read from every text it may be written as.** -/
theorem ofText_of_spelled {t : Tree} {text : String} (h : t.Spelled text) :
    Document.ofText text = ⟨t, false⟩ := by
  have hapart : Apart (t.lexemes ++ []) := apart_lexemes t nofun trivial
  rw [List.append_nil] at hapart
  have hgrow := grow_lexemes t h.sound [] []
  rw [List.append_nil] at hgrow
  rw [Document.ofText, tokens_of_lexed h hapart, hgrow]
  rfl

/-- **A tree that is read may be written as the text**, if nothing is wrong with it and nothing stands
    behind it. -/
theorem spelled_of_ofText (text : String) (hfault : (Document.ofText text).tree.skipFault = none)
    (htrailing : (Document.ofText text).trailing = false) :
    (Document.ofText text).tree.Spelled text := by
  have haccounts := accounts_grow (proper_tokens text.toList) hfault htrailing
  obtain ⟨heq, hsound⟩ := haccounts
  have hlexed := lexed_of_tokens hsound
  rw [Tree.Spelled, Document.ofText, ← heq]
  exact hlexed

/-- Nothing is wrong with a tree that may be written. -/
theorem Tree.Spelled.skipFault {t : Tree} {text : String} (h : t.Spelled text) :
    t.skipFault = none := by
  have hsound := Lexed.sound h
  cases t with
  | text t =>
    rw [Tree.Spelled, Tree.lexemes] at h
    obtain ⟨ds, hspelled⟩ := Lexed.exists_iff.mp ⟨_, h⟩ _ List.mem_cons_self
    cases hspelled
    rfl
  | null | bool | numeral => rfl
  | brokenWord | brokenNumeral | nothing =>
    exact absurd (hsound _ List.mem_cons_self) Bool.false_ne_true
  | array _ ending | object _ ending =>
    cases ending with
    | none => rfl
    | some f =>
      rw [Tree.lexemes] at hsound
      exact absurd (hsound _ List.mem_cons_self) Bool.false_ne_true

/-- A text is written for one tree at most. -/
theorem Tree.Spelled.unique {t u : Tree} {text : String} (ht : t.Spelled text) (hu : u.Spelled text) :
    t = u :=
  (Document.mk.inj ((ofText_of_spelled ht).symm.trans (ofText_of_spelled hu))).1

end HostGlue.Json
