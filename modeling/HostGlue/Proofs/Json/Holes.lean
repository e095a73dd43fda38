import HostGlue.Proofs.Json.Growing

/-!
# Holes in a text

Where a value stands in a tree, the text of the tree has a hole that is filled with the text of the
value:

* `Embeds`, that the tokens around a value do not depend on it; elements of arrays and members of objects
  are embedded, and what is embedded in something embedded is (`Embeds.comp`);
* `Surrounds`, that two texts are the rim of a hole: whatever is written between them stands at that
  place in a tree;
* **`Embeds.literal`: a scalar that stands in a tree is written in a hole of the text**, without blanks
  around it.
-/

namespace HostGlue.Json

/-! ## 1. Tokens around a value -/

/-- The tokens around a value do not depend on it. -/
def Embeds (C : Tree → Tree) : Prop :=
  ∃ before after : List Token, ∀ v, (C v).lexemes = before ++ (v.lexemes ++ after)

variable {C D : Tree → Tree}

theorem Embeds.comp (hC : Embeds C) (hD : Embeds D) : Embeds fun v => C (D v) := by
  obtain ⟨as, bs, hC⟩ := hC
  obtain ⟨before, after, hD⟩ := hD
  refine ⟨as ++ before, after ++ bs, fun v => ?_⟩
  simp only [hC, hD, List.append_assoc]

theorem itemLexemes_around (after : List Tree) : ∀ before : List Tree, ∃ as bs, ∀ v : Tree,
    Tree.itemLexemes (before ++ v :: after) = as ++ (v.lexemes ++ bs)
  | [] => ⟨[], _, fun v => by rw [List.nil_append, List.nil_append, Tree.itemLexemes]⟩
  | u :: before => by
      obtain ⟨as, bs, h⟩ := itemLexemes_around after before
      refine ⟨u.lexemes ++ .comma :: as, bs, fun v => ?_⟩
      have hne : (before ++ v :: after).isEmpty = false := by simp
      rw [List.cons_append, Tree.itemLexemes, hne, h]
      simp

theorem memberLexemes_around (key : Tree) (after : List (Tree × Tree)) :
    ∀ before : List (Tree × Tree), ∃ as bs, ∀ v : Tree,
      Tree.memberLexemes (before ++ (key, v) :: after) = as ++ (v.lexemes ++ bs)
  | [] => ⟨[key.keyLexeme, .colon], _, fun v => by
      rw [List.nil_append, Tree.memberLexemes, Tree.memberLexeme]
      rfl⟩
  | m :: before => by
      obtain ⟨as, bs, h⟩ := memberLexemes_around key after before
      refine ⟨Tree.memberLexeme m ++ .comma :: as, bs, fun v => ?_⟩
      have hne : (before ++ (key, v) :: after).isEmpty = false := by simp
      rw [List.cons_append, Tree.memberLexemes, hne, h]
      simp

/-- An element of an array is embedded. -/
theorem embeds_array (before after : List Tree) :
    Embeds fun v => .array (before ++ v :: after) none := by
  obtain ⟨as, bs, h⟩ := itemLexemes_around after before
  refine ⟨.openArray :: as, bs ++ [.closeArray], fun v => ?_⟩
  rw [Tree.lexemes, h]
  simp

/-- The value of a member of an object is embedded. -/
theorem embeds_object (before : List (Tree × Tree)) (key : Tree) (after : List (Tree × Tree)) :
    Embeds fun v => .object (before ++ (key, v) :: after) none := by
  obtain ⟨as, bs, h⟩ := memberLexemes_around key after before
  refine ⟨.openObject :: as, bs ++ [.closeObject], fun v => ?_⟩
  rw [Tree.lexemes, h]
  simp

/-! ## 2. The text around a value -/

/-- Whatever is written between two texts stands at a place in a tree. -/
def Surrounds (C : Tree → Tree) (before after : String) : Prop :=
  ∀ (v : Tree) (text : String), v.Spelled text → (C v).Spelled (before ++ text ++ after)

/-- A text of tokens in a row can be cut between them. -/
theorem Lexed.split {bs : List Token} : ∀ {as : List Token} {cs : List Char}, Lexed (as ++ bs) cs →
    ∃ ds es, cs = ds ++ es ∧ Lexed as ds ∧ Lexed bs es
  | [], cs, h => ⟨[], cs, rfl, .nil nofun, h⟩
  | _ :: as, _, h => by
      cases h with
      | cons blank spelled others =>
        obtain ⟨ds, es, rfl, ha, hb⟩ := Lexed.split others
        refine ⟨_, es, ?_, .cons blank spelled ha, hb⟩
        simp only [List.append_assoc]

/-- **A scalar is written in a hole of the text.** -/
theorem Embeds.literal (h : Embeds C) {v : Tree} (hv : v.lexemes = [.value v]) {text : String}
    (hspelled : (C v).Spelled text) : ∃ before literal after : String,
      text = before ++ literal ++ after ∧ (Token.value v).Spelled literal.toList ∧
        Surrounds C before after := by
  obtain ⟨as, bs, h⟩ := h
  rw [Tree.Spelled, h, hv, List.singleton_append] at hspelled
  obtain ⟨ds, es, htext, hbefore, hrest⟩ := hspelled.split
  cases hrest with
  | @cons ws cs rest _ _ blank spelled others =>
    refine ⟨String.ofList (ds ++ ws), String.ofList cs, String.ofList rest, ?_, ?_, fun u s hu => ?_⟩
    · refine String.toList_injective ?_
      simp only [htext, String.toList_append, String.toList_ofList, List.append_assoc]
    · rwa [String.toList_ofList]
    · have hlexed := (hbefore.append (.nil blank)).append (Lexed.append hu others)
      rw [List.append_nil] at hlexed
      rw [Tree.Spelled, h]
      simpa only [String.toList_append, String.toList_ofList, List.append_assoc] using hlexed

end HostGlue.Json
