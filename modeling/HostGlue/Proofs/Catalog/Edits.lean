import HostGlue.Proofs.Catalog.Places
import HostGlue.Proofs.Json.Writing
import Mathlib.Logic.Relation
import Mathlib.Tactic.Tauto

/-!
# Edits of a catalog text

What may be changed in a catalog text without changing the catalog, and what may not be missing:

* `Respelled`, a string with one of its characters written as a `\u` escape, and
  `join?_append_congr`: what stands in front of two contents that join alike does not tell them apart,
  surrogates included;
* `Edit`, one change of a tree: a string or a key is respelled, the members of a record change places,
  a member with an unknown key is put in, or something is changed at a place. **An edit does not
  change what is read** (`Edit.alike`, by induction on where the edit is), and what is edited may be
  written again (`Edit.writable`);
* `Defect`, what a record may not have: a known key twice, or a required key not at all;
* **`Catalog.ofJson_edits`: texts that are joined by edits, in either direction and any number of
  them, describe the same catalog or none, and a text with a defect somewhere is refused.**
-/

namespace HostGlue.Json

/-! ## 1. Respelled strings -/

namespace Surrogate

/-- The first half of the pair that a character is written as. -/
def high (c : Char) : Nat := 0xD800 + (c.toNat - 0x10000) / 0x400

/-- The second half of the pair that a character is written as. -/
def low (c : Char) : Nat := 0xDC00 + (c.toNat - 0x10000) % 0x400

theorem high_bounds (c : Char) : 0xD800 ≤ high c ∧ high c ≤ 0xDBFF := by
  have hbounds := toNat_bounds c
  unfold high
  omega

theorem low_bounds (c : Char) : 0xDC00 ≤ low c ∧ low c ≤ 0xDFFF := by
  unfold low
  omega

/-- The two halves make the character. -/
theorem pair_high_low {c : Char} (h : 0x10000 ≤ c.toNat) : pair (high c) (low c) = c := by
  have hcode : 0x10000 + (high c - 0xD800) * 0x400 + (low c - 0xDC00) = c.toNat := by
    unfold high low
    omega
  rw [pair, hcode, Char.ofNat_toNat]

end Surrogate

/-- The `\u` escapes of a character: one code, or the two of a surrogate pair. -/
def escapesOf (c : Char) : List Piece :=
  if c.toNat < 0x10000 then [.code c.toNat] else [.code (Surrogate.high c), .code (Surrogate.low c)]

/-- One character of a content is written as a `\u` escape. -/
inductive Respelled : List Piece → List Piece → Prop where
  | mk (before : List Piece) (c : Char) (after : List Piece) :
      Respelled (before ++ .char c :: after) (before ++ (escapesOf c ++ after))

/-- A content that does not begin with the second half of a surrogate pair. -/
def Unpaired (ps : List Piece) : Prop :=
  ∀ n, ps.head? = some (.code n) → Surrogate.isLow n = false

theorem join?_low {n : Nat} (h : Surrogate.isLow n = true) (ps : List Piece) :
    join? (.code n :: ps) = none := by
  rw [join?.eq_def]
  simp [h]

theorem join?_high {n : Nat} (hlow : Surrogate.isLow n = false) (hhigh : Surrogate.isHigh n = true)
    {ps : List Piece} (h : Unpaired ps) : join? (.code n :: ps) = none := by
  rw [join?.eq_def]
  simp only [hlow, hhigh, Bool.false_eq_true, if_false, if_true]
  split
  · rename_i m rest
    rw [h m rfl]
    rfl
  · rfl

theorem join?_pair {n m : Nat} (hlow : Surrogate.isLow n = false) (hhigh : Surrogate.isHigh n = true)
    (h : Surrogate.isLow m = true) (ps : List Piece) :
    join? (.code n :: .code m :: ps) = (join? ps).map (Surrogate.pair n m :: ·) := by
  rw [join?.eq_def]
  simp [hlow, hhigh, h]

/-- A content that is put in front completes no surrogate pair, or its first piece does. -/
theorem alone_or_pair (before : List Piece) :
    (∀ ps, Unpaired ps → Unpaired (before ++ ps)) ∨
      ∃ m rest, before = .code m :: rest ∧ Surrogate.isLow m = true := by
  cases before with
  | nil => exact .inl fun ps hps => hps
  | cons p rest =>
    cases p with
    | char c =>
      refine .inl fun ps _ n hn => ?_
      cases hn
    | code m =>
      cases hm : Surrogate.isLow m with
      | true => exact .inr ⟨m, rest, rfl, hm⟩
      | false =>
        refine .inl fun ps _ n hn => ?_
        cases hn
        exact hm

/-- **What stands in front does not tell contents apart that join alike.** Neither of them may
    complete a surrogate pair that begins in front. -/
theorem join?_append_congr {ps qs : List Piece} (hp : Unpaired ps) (hq : Unpaired qs)
    (h : join? ps = join? qs) : ∀ before : List Piece, join? (before ++ ps) = join? (before ++ qs)
  | [] => h
  | .char c :: before => by
      have ih := join?_append_congr hp hq h before
      rw [List.cons_append, List.cons_append, join?, join?, ih]
  | .code n :: before => by
      have ih := join?_append_congr hp hq h before
      rw [List.cons_append, List.cons_append]
      cases hlow : Surrogate.isLow n with
      | true => rw [join?_low hlow, join?_low hlow]
      | false =>
        cases hhigh : Surrogate.isHigh n with
        | false => rw [join?_code hlow hhigh, join?_code hlow hhigh, ih]
        | true =>
          -- a pair that begins here is completed by the next piece in front, or not at all
          rcases alone_or_pair before with halone | ⟨m, rest, rfl, hm⟩
          · have hp' := join?_high hlow hhigh (halone ps hp)
            have hq' := join?_high hlow hhigh (halone qs hq)
            exact hp'.trans hq'.symm
          · have ih' := join?_append_congr hp hq h rest
            rw [List.cons_append, List.cons_append, join?_pair hlow hhigh hm,
              join?_pair hlow hhigh hm, ih']

theorem unpaired_escapesOf (c : Char) (ps : List Piece) : Unpaired (escapesOf c ++ ps) := by
  intro n hn
  unfold escapesOf at hn
  split at hn
  · obtain rfl := Piece.code.inj (Option.some.inj hn)
    exact Surrogate.isLow_toNat c
  · obtain rfl := Piece.code.inj (Option.some.inj hn)
    have hbounds := Surrogate.high_bounds c
    exact Surrogate.isLow_eq_false.mpr (.inl (by omega))

/-- The escapes of a character stand for the character. -/
theorem join?_escapesOf (c : Char) (ps : List Piece) :
    join? (escapesOf c ++ ps) = (join? ps).map (c :: ·) := by
  unfold escapesOf
  split
  · exact join?_toNat c ps
  · rename_i hlarge
    have hbounds := Surrogate.high_bounds c
    have hlow := Surrogate.isLow_eq_false.mpr (.inl (show Surrogate.high c < 0xDC00 by omega))
    have hhigh := Surrogate.isHigh_eq_true.mpr hbounds
    have hsecond := Surrogate.isLow_eq_true.mpr (Surrogate.low_bounds c)
    rw [List.cons_append, List.singleton_append, join?_pair hlow hhigh hsecond,
      Surrogate.pair_high_low (Nat.le_of_not_lt hlarge)]

/-- **A respelled string is read as before.** -/
theorem Respelled.read_eq {ps qs : List Piece} (h : Respelled ps qs) :
    Text.read ⟨ps, none⟩ = Text.read ⟨qs, none⟩ := by
  obtain ⟨before, c, after⟩ := h
  have hchar : Unpaired (.char c :: after) := fun n hn => by cases hn
  have hjoin : join? (.char c :: after) = join? (escapesOf c ++ after) := by
    rw [join?_escapesOf, join?]
  have hwhole := join?_append_congr hchar (unpaired_escapesOf c after) hjoin before
  rw [Text.read, Text.read]
  simp only [hwhole]

/-! ## 2. Readers look at strings and keys for what they say only -/

namespace Role

/-- Strings that say the same are read alike, whatever is wanted. -/
theorem read_text {t t' : Text} (h : t.read = t'.read) (ρ : Role) (depth : Nat) :
    ρ.read depth (.text t) = ρ.read depth (.text t') := by
  have hmismatch : ∀ wanted, mismatch wanted (.text t) = mismatch wanted (.text t') := fun wanted => by
    rw [mismatch, mismatch, h]
  by_cases hρ : ρ.fields = []
  · cases ρ with
    | text => exact h
    | code => exact congrArg Except.error (hmismatch .int32)
    | direction => cases depth <;> simp only [read, readDirection, readVariant, h]
    | ty => cases depth <;> simp only [read, readTy, readVariant, h]
    | params => cases depth <;> exact congrArg Except.error (hmismatch .sequence)
    | externs => cases depth <;> exact congrArg Except.error (hmismatch .sequence)
    | kinds => cases depth <;> exact congrArg Except.error (hmismatch .sequence)
    | _ => cases hρ
  · obtain ⟨l⟩ := exists_layout hρ
    have hrecord := hmismatch (.record l.title)
    cases depth with
    | zero =>
      rw [l.read_zero, l.read_zero]
      exact congrArg Except.error hrecord
    | succ depth =>
      rw [l.read_succ, l.read_succ]
      exact congrArg (Except.error · >>= l.build) hrecord

/-- Keys that say the same are read alike, whatever is wanted. -/
theorem read_key {key key' : Tree} (h : readKey key = readKey key') (ρ : Role) (v : Tree)
    (before after : List (Tree × Tree)) (depth : Nat) :
    ρ.read depth (.object (before ++ (key, v) :: after) none) =
      ρ.read depth (.object (before ++ (key', v) :: after) none) := by
  have hvariant : ∀ {α : Type} (bare : String → Result α) (content : String → Tree → Result α),
      readVariant bare content (.object (before ++ (key, v) :: after) none) =
        readVariant bare content (.object (before ++ (key', v) :: after) none) := by
    intro α bare content
    cases before with
    | nil => rw [List.nil_append, List.nil_append, readVariant, readVariant, h]
    | cons m before =>
      rw [List.cons_append, List.cons_append, readVariant, readVariant]
      simp
  by_cases hρ : ρ.fields = []
  · cases ρ with
    | text | code => rfl
    | direction =>
      cases depth with
      | zero => rfl
      | succ depth => exact hvariant _ _
    | ty =>
      cases depth with
      | zero => rfl
      | succ depth => exact hvariant _ _
    | params | externs | kinds => cases depth <;> rfl
    | _ => cases hρ
  · obtain ⟨l⟩ := exists_layout hρ
    cases depth with
    | zero =>
      rw [l.read_zero, l.read_zero]
      rfl
    | succ depth =>
      rw [l.read_succ, l.read_succ, readRecord, readRecord, readMembers_append, readMembers_append]
      simp only [readMembers, h]

/-- Objects whose members do the same give the same. -/
theorem alike_object {ρ : Role} (hρ : ρ.fields ≠ []) {ms ms' : List (Tree × Tree)}
    (h : ∀ (l : Layout ρ) (depth : Nat) (d e : l.Draft),
      l.Steps depth ms d e ↔ l.Steps depth ms' d e) (depth : Nat) :
    Alike (ρ.read depth (.object ms none)) (ρ.read depth (.object ms' none)) := by
  obtain ⟨l⟩ := exists_layout hρ
  cases depth with
  | zero =>
    rw [l.read_zero, l.read_zero]
    exact Alike.errors _ _
  | succ depth =>
    intro a
    rw [l.read_object_iff, l.read_object_iff]
    exact exists_congr fun d => and_congr_left fun _ => h l depth l.start d

end Role

/-! ## 3. Edits of trees -/

/-- One change of the tree of a value that is read. A key that says nothing, because of a surrogate
    without its partner, is no unknown key: it is refused wherever it stands. -/
inductive Edit : Role → Tree → Tree → Prop where
  | respell {ρ : Role} {ps qs : List Piece} (respelled : Respelled ps qs) :
      Edit ρ (.text ⟨ps, none⟩) (.text ⟨qs, none⟩)
  | respellKey {ρ : Role} {ps qs : List Piece} {v : Tree} {before after : List (Tree × Tree)}
      (respelled : Respelled ps qs) :
      Edit ρ (.object (before ++ (.text ⟨ps, none⟩, v) :: after) none)
        (.object (before ++ (.text ⟨qs, none⟩, v) :: after) none)
  | reorder {ρ : Role} {ms ms' : List (Tree × Tree)} (record : ρ.fields ≠ []) (order : ms.Perm ms') :
      Edit ρ (.object ms none) (.object ms' none)
  | insert {ρ : Role} {name : String} {key v : Tree} {before after : List (Tree × Tree)}
      (record : ρ.fields ≠ []) (named : readKey key = .ok name) (unknown : ¬ ρ.Knows name)
      (grammatical : key.Writable ∧ v.Writable) :
      Edit ρ (.object (before ++ after) none) (.object (before ++ (key, v) :: after) none)
  | inside {ρ σ : Role} {C : Tree → Tree} {v v' : Tree} (place : Place ρ C σ) (edit : Edit σ v v') :
      Edit ρ (C v) (C v')

/-- **An edit does not change what is read**, at whatever depth. -/
theorem Edit.alike {ρ : Role} {t t' : Tree} (h : Edit ρ t t') :
    ∀ depth, Alike (ρ.read depth t) (ρ.read depth t') := by
  induction h with
  | @respell ρ ps qs respelled =>
    intro depth
    rw [Role.read_text respelled.read_eq]
    exact Alike.refl _
  | @respellKey ρ ps qs v before after respelled =>
    intro depth
    have hkey : readKey (.text ⟨ps, none⟩) = readKey (.text ⟨qs, none⟩) := respelled.read_eq
    rw [Role.read_key hkey]
    exact Alike.refl _
  | reorder record order =>
    exact Role.alike_object record fun _ _ _ _ =>
      ⟨Layout.Steps.perm order, Layout.Steps.perm order.symm⟩
  | @insert ρ name key v before after record named unknown grammatical =>
    obtain ⟨text, hspelled⟩ := grammatical.2
    exact Role.alike_object record fun l depth d e =>
      (Layout.Steps.insert (Layout.step_unknown named unknown hspelled.skipFault)).symm
  | inside place _ ih => exact place.alike ih

theorem Respelled.writable {ps qs : List Piece} (h : Respelled ps qs)
    (hps : (Tree.text ⟨ps, none⟩).Writable) : (Tree.text ⟨qs, none⟩).Writable := by
  obtain ⟨before, c, after⟩ := h
  have hcode : ∀ n < 65536, (Piece.code n).Writable :=
    fun n hn => ⟨_, .code (hexNumber?_codeDigits hn)⟩
  have hescapes : ∀ p ∈ escapesOf c, p.Writable := by
    have hhigh := Surrogate.high_bounds c
    have hlow := Surrogate.low_bounds c
    unfold escapesOf
    split
    · exact List.forall_mem_singleton.mpr (hcode _ ‹_›)
    · exact List.forall_mem_cons.mpr
        ⟨hcode _ (by omega), List.forall_mem_singleton.mpr (hcode _ (by omega))⟩
  rw [Tree.writable_text, List.forall_mem_append, List.forall_mem_cons] at hps
  rw [Tree.writable_text, List.forall_mem_append, List.forall_mem_append]
  exact ⟨hps.1, hescapes, hps.2.2⟩

/-- What has a place may be written exactly if the rest of it may and what stands at the place. -/
theorem Place.writable_iff {ρ σ : Role} {C : Tree → Tree} (h : Place ρ C σ) {v : Tree} :
    (C v).Writable ↔ (C .null).Writable ∧ v.Writable := by
  have hnull : Tree.null.Writable := Tree.writable_iff.mpr (List.forall_mem_singleton.mpr ⟨_, .null⟩)
  cases h with
  | member | content =>
    simp only [Tree.writable_object, List.forall_mem_append, List.forall_mem_cons, hnull]
    tauto
  | position | element =>
    simp only [Tree.writable_array, List.forall_mem_append, List.forall_mem_cons, hnull]
    tauto

/-- **What is edited may be written**, if it could be written before. -/
theorem Edit.writable {ρ : Role} {t t' : Tree} (h : Edit ρ t t') : t.Writable → t'.Writable := by
  induction h with
  | respell respelled => exact respelled.writable
  | @respellKey ρ ps qs v before after respelled =>
    have hkey := respelled.writable
    simp only [Tree.writable_object, List.forall_mem_append, List.forall_mem_cons, Tree.writable_key]
    tauto
  | reorder _ order =>
    simp only [Tree.writable_object]
    exact fun h m hm => h m (order.mem_iff.mpr hm)
  | @insert _ _ key v _ _ _ named _ grammatical =>
    have hmember : key.keyLexeme.Writable ∧ v.Writable := by
      cases key with
      | text t => exact ⟨Tree.writable_key.mpr grammatical.1, grammatical.2⟩
      | _ => cases named
    simp only [Tree.writable_object, List.forall_mem_append, List.forall_mem_cons]
    exact fun h => ⟨h.1, hmember, h.2⟩
  | inside place _ ih =>
    intro h
    obtain ⟨hrest, hv⟩ := place.writable_iff.mp h
    exact place.writable_iff.mpr ⟨hrest, ih hv⟩

/-! ## 4. Defects -/

/-- What is wrong with a record: a known key comes twice, or a required key does not come. -/
inductive Defect (ρ : Role) : Tree → Prop where
  | twice {name : String} {m m' : Tree × Tree} {before middle after : List (Tree × Tree)}
      (known : ρ.Knows name) (first : readKey m.1 = .ok name) (second : readKey m'.1 = .ok name) :
      Defect ρ (.object (before ++ m :: (middle ++ m' :: after)) none)
  | lacks {name : String} {ms : List (Tree × Tree)} (required : name ∈ ρ.required)
      (absent : ∀ m ∈ ms, readKey m.1 ≠ .ok name) : Defect ρ (.object ms none)

theorem Role.fields_ne_nil_of_required {ρ : Role} {name : String} (h : name ∈ ρ.required) :
    ρ.fields ≠ [] := by
  cases ρ <;> first | exact List.cons_ne_nil _ _ | cases h

/-- **A record with a defect is not read.** -/
theorem Defect.not_read {ρ : Role} {t : Tree} (h : Defect ρ t) (depth : Nat) (a : ρ.Value) :
    ρ.read depth t ≠ .ok a := by
  intro hread
  cases h with
  | twice known first second =>
    have hρ : ρ.fields ≠ [] := List.ne_nil_of_mem known.choose_spec
    exact (Role.of_read_object hρ hread).1 _ known _ _ _ _ _ rfl ⟨first, second⟩
  | lacks required absent =>
    have hρ := Role.fields_ne_nil_of_required required
    obtain ⟨m, hm, hkey⟩ := (Role.of_read_object hρ hread).2 _ required
    exact absent m hm hkey

/-! ## 5. Texts that are read are grammatical -/

/-- A catalog is read from a tree that did not break off. -/
theorem skipFault_of_readCatalog {t : Tree} {depth : Nat} {c : Catalog}
    (h : readCatalog depth t = .ok c) : t.skipFault = none := by
  cases depth with
  | zero => cases h
  | succ depth =>
    obtain ⟨d, hrecord, -⟩ := bind_eq_ok.mp h
    rcases closed_of_readRecord hrecord with ⟨ms, rfl⟩ | ⟨items, rfl⟩ <;> rfl

end HostGlue.Json

namespace HostGlue.Catalog

open Json

/-- **A text is accepted exactly if it is one of those that a tree may be written as** from which the
    catalog is read. -/
theorem ofJson_eq_ok_iff {text : String} {c : Catalog} :
    ofJson text = .ok c ↔ ∃ t, Tree.Spelled t text ∧ readCatalog maxDepth t = .ok c := by
  constructor
  · intro h
    obtain ⟨c', hread, hend⟩ := bind_eq_ok.mp h
    split at hend
    · cases hend
    · rename_i htrailing
      obtain rfl := Except.ok.inj hend
      have hspelled := spelled_of_ofText text (skipFault_of_readCatalog hread)
        (Bool.eq_false_iff.mpr htrailing)
      exact ⟨_, hspelled, hread⟩
  · rintro ⟨t, hspelled, hread⟩
    rw [ofJson, Json.read, ofText_of_spelled hspelled]
    dsimp only
    rw [hread]
    rfl

/-! ## 6. Edits of texts -/

/-- One change of a text: blanks are put between two tokens, in front of the first or behind the last,
    or the tree is edited and written in any way. -/
inductive Edited : String → String → Prop where
  | blanks {t : Tree} {front back : List Token} {as ws bs : List Char}
      (tokens : front ++ back = t.lexemes) (before : Lexed front as) (blank : Blank ws)
      (behind : Lexed back bs) : Edited (String.ofList (as ++ bs)) (String.ofList (as ++ (ws ++ bs)))
  | tree {t t' : Tree} {text text' : String} (before : t.Spelled text) (edit : Edit .catalog t t')
      (behind : t'.Spelled text') : Edited text text'

/-- Every edit of a tree is one of each text it is written as. -/
theorem Edited.exists_of_edit {t t' : Tree} {text : String} (h : t.Spelled text)
    (edit : Edit .catalog t t') : ∃ text', Edited text text' := by
  obtain ⟨text', h'⟩ := edit.writable ⟨text, h⟩
  exact ⟨text', .tree h edit h'⟩

/-- An edited text has a tree from which the same is read. -/
theorem Edited.exists_alike {text text' : String} (h : Edited text text') :
    ∃ t t', t.Spelled text ∧ t'.Spelled text' ∧
      Alike (readCatalog maxDepth t) (readCatalog maxDepth t') := by
  cases h with
  | @blanks t front back as ws bs tokens before blank behind =>
    have hplain : t.Spelled (String.ofList (as ++ bs)) := by
      rw [Tree.Spelled, String.toList_ofList, ← tokens]
      exact before.append behind
    have hspaced : t.Spelled (String.ofList (as ++ (ws ++ bs))) := by
      rw [Tree.Spelled, String.toList_ofList, ← tokens]
      exact before.append (Lexed.blank_append blank behind)
    exact ⟨t, t, hplain, hspaced, Alike.refl _⟩
  | tree before edit behind => exact ⟨_, _, before, behind, edit.alike maxDepth⟩

/-- One edit does not change the catalog. -/
theorem ofJson_edited {text text' : String} (h : Edited text text') (c : Catalog) :
    ofJson text = .ok c ↔ ofJson text' = .ok c := by
  obtain ⟨t, t', hspelled, hspelled', halike⟩ := h.exists_alike
  rw [ofJson_eq_ok_iff, ofJson_eq_ok_iff]
  constructor
  · rintro ⟨u, hu, hok⟩
    obtain rfl := hspelled.unique hu
    exact ⟨t', hspelled', (halike c).mp hok⟩
  · rintro ⟨u, hu, hok⟩
    obtain rfl := hspelled'.unique hu
    exact ⟨t, hspelled, (halike c).mpr hok⟩

/-- **Edits do not change the catalog, and defects are refused.** A text that is accepted is one that
    a tree may be written as. Texts that are joined by edits, in either direction and any number of
    them, describe the same catalog or none. A text is refused if a record with a defect stands
    anywhere in what is read of it. -/
theorem ofJson_edits :
    (∀ text c, ofJson text = .ok c → ∃ t, Tree.Spelled t text) ∧
    (∀ text text', Relation.EqvGen Edited text text' →
      ∀ c, ofJson text = .ok c ↔ ofJson text' = .ok c) ∧
    ∀ text t ρ u, Tree.Spelled t text → Part .catalog t ρ u → Defect ρ u →
      ∃ e, ofJson text = .error e := by
  refine ⟨fun text c h => ?_, fun text text' h => ?_, fun text t ρ u hspelled hpart hdefect => ?_⟩
  · obtain ⟨t, hspelled, -⟩ := ofJson_eq_ok_iff.mp h
    exact ⟨t, hspelled⟩
  · induction h with
    | rel text text' h => exact ofJson_edited h
    | refl text => exact fun c => Iff.rfl
    | symm text text' _ ih => exact fun c => (ih c).symm
    | trans text text' text'' _ _ ih ih' => exact fun c => (ih c).trans (ih' c)
  · cases h : ofJson text with
    | error e => exact ⟨e, rfl⟩
    | ok c =>
      obtain ⟨t', hspelled', hread⟩ := ofJson_eq_ok_iff.mp h
      obtain rfl := hspelled.unique hspelled'
      have hwhole : Role.catalog.read maxDepth t = .ok c := hread
      obtain ⟨depth, b, hb⟩ := hpart.of_read hwhole
      exact absurd hb (hdefect.not_read depth b)

end HostGlue.Catalog
