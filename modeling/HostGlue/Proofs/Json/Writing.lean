import HostGlue.Json.Reading
import HostGlue.Json.Written
import HostGlue.Proofs.Json.Growing

/-!
# Compact texts are read back

What is written without blanks is one of the texts a tree may be written as, and strings and integers
come back as they were:

* `Tree.spelled_spell`: a tree whose scalars are well written is spelled by its compact text
  (`Tree.Written`), and the parts a catalog is made of are well written;
* `Text.read_ofString`: a string of any characters is read back, controls, quotes and backslashes
  included;
* `readInt32_ofInt`: an integer of 32 bits is read back.
-/

namespace HostGlue.Json

/-! ## 1. Strings -/

theorem hexNumber?_codeDigits {n : Nat} (h : n < 65536) :
    Digits.hexNumber? (codeDigits n) = some n := by
  have hdigit : ∀ d < 16, Digits.isHex d.digitChar = true := by decide
  have h3 : n / 4096 % 16 < 16 := Nat.mod_lt _ (by decide)
  have h2 : n / 256 % 16 < 16 := Nat.mod_lt _ (by decide)
  have h1 : n / 16 % 16 < 16 := Nat.mod_lt _ (by decide)
  have h0 : n % 16 < 16 := Nat.mod_lt _ (by decide)
  have hall : (codeDigits n).all Digits.isHex = true := by
    simp [codeDigits, hdigit _ h3, hdigit _ h2, hdigit _ h1, hdigit _ h0]
  rw [Digits.hexNumber?, if_pos hall]
  simp only [codeDigits, List.map_cons, List.map_nil, Digits.number, Digits.numberFrom,
    Digits.value_digitChar h3, Digits.value_digitChar h2, Digits.value_digitChar h1,
    Digits.value_digitChar h0]
  congr 1
  omega

/-- The letter a character is escaped with stands for the character. -/
theorem shortEscape?_escapeLetter? {c letter : Char} (h : escapeLetter? c = some letter) :
    shortEscape? letter = some c := by
  unfold escapeLetter? at h
  split at h <;> cases h <;> rfl

theorem lt_of_lt_space {c : Char} (h : c < ' ') : c.toNat < 32 := h

/-- A character is well written, whatever it is. -/
theorem Piece.spelled_ofChar (c : Char) : (Piece.ofChar c).Spelled (Piece.ofChar c).spell := by
  unfold Piece.ofChar
  split
  · rename_i h
    have hlt := lt_of_lt_space h.1
    exact .code (hexNumber?_codeDigits (by omega))
  · rename_i h
    rw [Piece.spell]
    split
    · rename_i letter hletter
      exact .short (shortEscape?_escapeLetter? hletter)
    · rename_i hletter
      refine .plain (Char.not_lt.mp fun hlt => h ⟨hlt, hletter⟩) ?_ ?_
      · rintro rfl
        cases hletter
      · rintro rfl
        cases hletter

theorem piecesSpelled_of_forall {ps : List Piece} (h : ∀ p ∈ ps, p.Spelled p.spell) :
    PiecesSpelled ps (ps.flatMap Piece.spell) := by
  induction ps with
  | nil => exact .nil
  | cons p ps ih =>
    rw [List.flatMap_cons]
    exact .cons (h p List.mem_cons_self) (ih fun q hq => h q (List.mem_cons_of_mem p hq))

namespace Surrogate

theorem isLow_eq_true {n : Nat} : isLow n = true ↔ 0xDC00 ≤ n ∧ n ≤ 0xDFFF := by simp [isLow]

theorem isHigh_eq_true {n : Nat} : isHigh n = true ↔ 0xD800 ≤ n ∧ n ≤ 0xDBFF := by simp [isHigh]

theorem isLow_eq_false {n : Nat} : isLow n = false ↔ n < 0xDC00 ∨ 0xDFFF < n := by
  rw [Bool.eq_false_iff, ne_eq, isLow_eq_true]
  omega

theorem isHigh_eq_false {n : Nat} : isHigh n = false ↔ n < 0xD800 ∨ 0xDBFF < n := by
  rw [Bool.eq_false_iff, ne_eq, isHigh_eq_true]
  omega

/-- Characters are not among the surrogates. -/
theorem toNat_bounds (c : Char) : c.toNat < 0xD800 ∨ (0xDFFF < c.toNat ∧ c.toNat < 0x110000) :=
  c.valid

theorem isLow_toNat (c : Char) : isLow c.toNat = false := by
  have hbounds := toNat_bounds c
  rw [isLow_eq_false]
  omega

theorem isHigh_toNat (c : Char) : isHigh c.toNat = false := by
  have hbounds := toNat_bounds c
  rw [isHigh_eq_false]
  omega

end Surrogate

/-- A code that is no surrogate stands for its character. -/
theorem join?_code {n : Nat} (hlow : Surrogate.isLow n = false) (hhigh : Surrogate.isHigh n = false)
    (ps : List Piece) : join? (.code n :: ps) = (join? ps).map (Char.ofNat n :: ·) := by
  rw [join?.eq_def]
  simp [hlow, hhigh]

/-- The code of a character stands for the character. -/
theorem join?_toNat (c : Char) (ps : List Piece) :
    join? (.code c.toNat :: ps) = (join? ps).map (c :: ·) := by
  rw [join?_code (Surrogate.isLow_toNat c) (Surrogate.isHigh_toNat c), Char.ofNat_toNat]

/-- The piece of a character stands for the character. -/
theorem join?_cons_ofChar (c : Char) (ps : List Piece) :
    join? (Piece.ofChar c :: ps) = (join? ps).map (c :: ·) := by
  unfold Piece.ofChar
  split
  · exact join?_toNat c ps
  · rfl

/-- **A string is read back**, whatever its characters are. -/
theorem Text.read_ofString (s : String) : (Text.ofString s).read = .ok s := by
  have hjoin : ∀ cs : List Char, join? (cs.map Piece.ofChar) = some cs := by
    intro cs
    induction cs with
    | nil => rfl
    | cons c cs ih => rw [List.map_cons, join?_cons_ofChar, ih, Option.map_some]
  rw [Text.read, Text.ofString]
  simp only [hjoin, String.ofList_toList]

/-! ## 2. Integers -/

theorem head?_toDigits : ∀ n : Nat, (Nat.toDigits 10 n).head? = some '0' → n = 0 := by
  intro n
  induction n using Nat.strongRecOn with
  | ind n ih =>
    intro h
    by_cases hn : n < 10
    · rw [Nat.toDigits_of_lt_base hn] at h
      have hdigits : ∀ d < 10, some d.digitChar = some '0' → d = 0 := by decide
      exact hdigits n hn h
    · have hle : 10 ≤ n := Nat.le_of_not_lt hn
      rw [Nat.toDigits_of_base_le (by decide) hle, List.head?_append] at h
      cases hhead : (Nat.toDigits 10 (n / 10)).head? with
      | none => exact absurd (List.head?_eq_none_iff.mp hhead) Nat.toDigits_ne_nil
      | some c =>
        rw [hhead, Option.some_or] at h
        have hzero := ih (n / 10) (by omega) (hhead.trans h)
        omega

theorem whole_toDigits (n : Nat) : Whole (Nat.toDigits 10 n) := by
  refine ⟨⟨Nat.toDigits_ne_nil, fun d hd => Digits.isDigit_of_mem hd⟩, fun h => ?_⟩
  rw [head?_toDigits n h]
  decide

/-- An integer is well written. -/
theorem Numeral.spelled_ofInt (n : Int) : (Numeral.ofInt n).Spelled (Numeral.ofInt n).spell := by
  have hspell : (Numeral.ofInt n).spell =
      minusOf (decide (n < 0)) ++ (Nat.toDigits 10 n.natAbs ++ ([] ++ [])) := by
    simp [Numeral.spell, Numeral.ofInt, minusOf]
  rw [hspell]
  exact .mk (whole_toDigits n.natAbs) .none .none

/-- An integer of 64 bits denotes itself. -/
theorem Numeral.integer?_ofInt {n : Int} (hlow : -0x8000000000000000 ≤ n)
    (hhigh : n ≤ 0xFFFFFFFFFFFFFFFF) : (Numeral.ofInt n).integer? = some n := by
  have hnumber : Digits.number 10 (Nat.toDigits 10 n.natAbs) = n.natAbs :=
    Digits.number_toDigits (by decide) (by decide) n.natAbs
  unfold Numeral.integer? Numeral.ofInt
  simp only [Option.isSome_none, Bool.or_self, Bool.false_eq_true, if_false, hnumber,
    decide_eq_true_eq]
  by_cases hn : n < 0
  · have hbound : 0 < n.natAbs ∧ n.natAbs ≤ maxNegative := by
      unfold maxNegative
      omega
    rw [if_pos hn, if_pos hbound]
    congr 1
    omega
  · have hbound : n.natAbs ≤ maxWord := by
      unfold maxWord
      omega
    rw [if_neg hn, if_pos hbound]
    congr 1
    omega

/-- **An integer of 32 bits is read back.** -/
theorem readInt32_ofInt (k : Int32) : readInt32 (.numeral (.ofInt k.toInt)) = .ok k := by
  have hlow := k.le_toInt
  have hhigh := k.toInt_lt
  have hvalue : (Numeral.ofInt k.toInt).value? = some (.integer k.toInt) := by
    rw [Numeral.value?, Numeral.integer?_ofInt (by omega) (by omega)]
  rw [readInt32, hvalue]
  simp only
  rw [if_pos ⟨by omega, by omega⟩, Int32.ofInt_toInt]

/-! ## 3. Trees -/

/-- A token as it is written. -/
def Token.spell : Token → List Char
  | .openArray => ['[']
  | .closeArray => [']']
  | .openObject => ['\x7b']
  | .closeObject => ['\x7d']
  | .comma => [',']
  | .colon => [':']
  | .value t => t.spell
  | .broken _ _ => []

mutual

/-- The compact text of a tree is the text of its tokens. -/
theorem spell_eq : ∀ t : Tree, Sound t.lexemes → t.spell = t.lexemes.flatMap Token.spell
  | .null, _ | .numeral _, _ | .text _, _ | .bool true, _ | .bool false, _ => by
      rw [Tree.lexemes]
      simp [Token.spell]
  | .brokenWord _, h | .brokenNumeral _, h | .nothing _, h | .array _ (some _), h
  | .object _ (some _), h => by
      rw [Tree.lexemes] at h
      exact absurd (h _ List.mem_cons_self) Bool.false_ne_true
  | .array items none, h => by
      rw [Tree.lexemes, sound_cons, sound_append] at h
      rw [Tree.lexemes, Tree.spell, spellItems_eq items h.2.1]
      simp [Token.spell]
  | .object members none, h => by
      rw [Tree.lexemes, sound_cons, sound_append] at h
      rw [Tree.lexemes, Tree.spell, spellMembers_eq members h.2.1]
      simp [Token.spell]
termination_by structural t => t

theorem spellItems_eq : ∀ ts : List Tree, Sound (Tree.itemLexemes ts) →
    Tree.spellItems ts = (Tree.itemLexemes ts).flatMap Token.spell
  | [], _ => rfl
  | t :: ts, h => by
      rw [Tree.itemLexemes, sound_append] at h
      have ih := spellItems_eq ts
      rw [Tree.itemLexemes, Tree.spellItems, spell_eq t h.1, List.flatMap_append]
      cases ts with
      | nil => rfl
      | cons u us =>
        have hothers := ih (sound_cons.mp h.2).2
        show _ ++ (',' :: Tree.spellItems (u :: us)) = _
        rw [hothers]
        rfl
termination_by structural ts => ts

theorem spellMembers_eq : ∀ ms : List (Tree × Tree), Sound (Tree.memberLexemes ms) →
    Tree.spellMembers ms = (Tree.memberLexemes ms).flatMap Token.spell
  | [], _ => rfl
  | m :: ms, h => by
      rw [Tree.memberLexemes, sound_append] at h
      have ih := spellMembers_eq ms
      rw [Tree.memberLexemes, Tree.spellMembers, spellMember_eq m h.1, List.flatMap_append]
      cases ms with
      | nil => rfl
      | cons u us =>
        have hothers := ih (sound_cons.mp h.2).2
        show _ ++ (',' :: Tree.spellMembers (u :: us)) = _
        rw [hothers]
        rfl
termination_by structural ms => ms

theorem spellMember_eq : ∀ m : Tree × Tree, Sound (Tree.memberLexeme m) →
    Tree.spellMember m = (Tree.memberLexeme m).flatMap Token.spell
  | (key, value), h => by
      rw [Tree.memberLexeme, sound_cons, sound_cons] at h
      rw [Tree.memberLexeme, Tree.spellMember, spell_eq value h.2.2]
      cases key with
      | text t =>
        rw [Tree.spell, List.flatMap_cons, List.flatMap_cons]
        rfl
      | _ => exact absurd h.1 Bool.false_ne_true
termination_by structural m => m

end

/-- Every token of a row is well written. -/
def WellWritten (toks : List Token) : Prop := ∀ tok ∈ toks, tok.Spelled tok.spell

/-- A tree whose tokens are well written. -/
def Tree.Written (t : Tree) : Prop := WellWritten t.lexemes

theorem WellWritten.lexed {toks : List Token} (h : WellWritten toks) :
    Lexed toks (toks.flatMap Token.spell) := by
  induction toks with
  | nil =>
    have hblank : Blank [] := nofun
    exact .nil hblank
  | cons tok toks ih =>
    rw [List.flatMap_cons]
    exact .cons_spelled (h tok List.mem_cons_self) (ih fun u hu => h u (List.mem_cons_of_mem tok hu))

/-- **A tree that is well written is spelled by its compact text.** -/
theorem Tree.spelled_spell {t : Tree} (h : t.Written) : t.Spelled (String.ofList t.spell) := by
  have hlexed := h.lexed
  rw [Tree.Spelled, String.toList_ofList, spell_eq t hlexed.sound]
  exact hlexed

theorem wellWritten_append {as bs : List Token} :
    WellWritten (as ++ bs) ↔ WellWritten as ∧ WellWritten bs :=
  List.forall_mem_append

theorem wellWritten_cons {tok : Token} {toks : List Token} :
    WellWritten (tok :: toks) ↔ tok.Spelled tok.spell ∧ WellWritten toks :=
  List.forall_mem_cons

theorem Tree.spelled_ofString (s : String) :
    (Token.value (Tree.ofString s)).Spelled (Token.value (Tree.ofString s)).spell := by
  refine .text (piecesSpelled_of_forall fun p hp => ?_)
  obtain ⟨c, -, rfl⟩ := List.mem_map.mp hp
  exact Piece.spelled_ofChar c

theorem Tree.written_ofString (s : String) : (Tree.ofString s).Written :=
  List.forall_mem_singleton.mpr (Tree.spelled_ofString s)

theorem Tree.written_ofInt (n : Int) : (Tree.numeral (.ofInt n)).Written :=
  List.forall_mem_singleton.mpr (.numeral (Numeral.spelled_ofInt n))

theorem Tree.written_ofItems {ts : List Tree} (h : ∀ t ∈ ts, t.Written) :
    (Tree.ofItems ts).Written := by
  rw [Tree.Written, Tree.ofItems, Tree.lexemes, wellWritten_cons, wellWritten_append]
  exact ⟨.openArray, (forall_itemLexemes .comma).mpr h, List.forall_mem_singleton.mpr .closeArray⟩

theorem Tree.written_ofMembers {ms : List (String × Tree)} (h : ∀ m ∈ ms, m.2.Written) :
    (Tree.ofMembers ms).Written := by
  rw [Tree.Written, Tree.ofMembers, Tree.lexemes, wellWritten_cons, wellWritten_append]
  refine ⟨.openObject, (forall_memberLexemes .comma).mpr ?_, List.forall_mem_singleton.mpr .closeObject⟩
  refine List.forall_mem_map.mpr fun m hm => ?_
  rw [Tree.memberLexeme, List.forall_mem_cons, List.forall_mem_cons]
  exact ⟨Tree.spelled_ofString m.1, .colon, h m hm⟩

end HostGlue.Json
