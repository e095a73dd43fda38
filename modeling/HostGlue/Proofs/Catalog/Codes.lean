import HostGlue.Proofs.Catalog.Edits
import HostGlue.Proofs.Catalog.Values
import HostGlue.Proofs.Json.Integers

/-!
# The codes of buffer kinds in a catalog text

A catalog text gives the code of each buffer kind by a literal. This file says where it stands and what
may stand there:

* `CodePlace`, the place of the code of the kind at a position, in a catalog with a list of kinds;
* `readCatalog_codes`, that the kinds of a catalog are read from such a list, code by code, or are the
  standard ones if there is none;
* `Catalog.CodeHole`, the text around the literal, and **`Catalog.ofJson_codes`: the literal is what the
  code is written as in decimal, byte for byte**;
* **`Catalog.ofJson_code_iff`: a text is accepted with another literal there exactly if that is one of an
  integer of 32 bits.**
-/

namespace HostGlue.Json

/-! ## 1. Places of codes -/

/-- The place of the code of the kind at a position in a list of so many kinds. The list is that of the
    kinds of a catalog. -/
inductive CodePlace (i n : Nat) : (Tree → Tree) → Prop where
  | mk {C D : Tree → Tree} {before after : List Tree} (kinds : Place .catalog C .kinds)
      (code : Place .kind D .code) (position : before.length = i)
      (size : before.length + 1 + after.length = n) :
      CodePlace i n fun v => C (.array (before ++ D v :: after) none)

namespace CodePlace

variable {i n : Nat} {C : Tree → Tree}

theorem embeds (h : CodePlace i n C) : Embeds C := by
  cases h with
  | @mk C D before after kinds code position size =>
    exact kinds.embeds.comp ((embeds_array before after).comp code.embeds)

/-- Where a catalog is read with some code, it is read with exactly those that are integers of 32
    bits. -/
theorem read_iff (h : CodePlace i n C) {depth : Nat} {v v' : Tree} {c : Catalog}
    (hread : readCatalog depth (C v) = .ok c) :
    (∃ c', readCatalog depth (C v') = .ok c') ↔ ∃ k, readInt32 v' = .ok k := by
  cases h with
  | @mk C D before after kinds code position size =>
    have helement : Place .kinds (fun u => .array (before ++ u :: after) none) .kind := .element rfl
    have hcatalog : Role.catalog.read depth (C (.array (before ++ D v :: after) none)) = .ok c := hread
    constructor
    · rintro ⟨c', hread'⟩
      have hcatalog' : Role.catalog.read depth (C (.array (before ++ D v' :: after) none)) = .ok c' :=
        hread'
      have hpart : Part .catalog (C (.array (before ++ D v' :: after) none)) .code v' :=
        .inside kinds (.inside helement (.inside code (.whole .code v')))
      obtain ⟨_, k, hk⟩ := hpart.of_read hcatalog'
      exact ⟨k, hk⟩
    · rintro ⟨k, hk⟩
      obtain ⟨_, rfl, ks, hks⟩ := kinds.of_read hcatalog
      obtain ⟨_, rfl, b, hb⟩ := helement.of_read hks
      obtain ⟨_, rfl, -⟩ := code.of_read hb
      obtain ⟨b', hb'⟩ := @Place.replace _ _ _ code _ _ _ _ k hb hk
      obtain ⟨ks', hks'⟩ := helement.replace hks hb'
      exact kinds.replace hcatalog hks'

end CodePlace

/-! ## 2. Kinds and their codes -/

/-- The slot of the buffer kinds of a catalog. -/
def kindsSlot : Slot CatalogDraft :=
  ⟨"buffer_kinds", .kinds, false, (·.bufferKinds.isSome), fun a d => { d with bufferKinds := some a }⟩

/-- The slot of the code of a buffer kind. -/
def codeSlot : Slot BufferKindDraft :=
  ⟨"code", .code, true, (·.code.isSome), fun a d => { d with code := some a }⟩

theorem seen_kinds : Layout.Seen .catalog kindsSlot CatalogDraft.bufferKinds where
  slot := List.mem_cons_of_mem _ List.mem_cons_self
  filled _ := rfl
  put _ _ := rfl
  others := by
    refine List.forall_mem_cons.mpr ⟨fun _ _ _ => rfl, List.forall_mem_singleton.mpr fun h => ?_⟩
    exact absurd rfl h

theorem seen_code : Layout.Seen .kind codeSlot BufferKindDraft.code where
  slot := List.mem_cons_self
  filled _ := rfl
  put _ _ := rfl
  others := by
    refine List.forall_mem_cons.mpr ⟨fun h => ?_, List.forall_mem_singleton.mpr fun _ _ _ => rfl⟩
    exact absurd rfl h

/-- A buffer kind has its code from the place of it. -/
theorem code_of_readBufferKind {depth : Nat} {t : Tree} {k : BufferKind}
    (h : readBufferKind depth t = .ok k) :
    ∃ D v, Place .kind D .code ∧ t = D v ∧ readInt32 v = .ok k.code := by
  cases depth with
  | zero => cases h
  | succ depth =>
    have hsole : ∀ name, (name, Role.code) ∈ Role.kind.fields → name = "code" := by
      simp [Role.fields]
    have hread : Role.kind.read (depth + 1) t = .ok k := h
    obtain ⟨d, hbuild, hheld⟩ := Layout.held_of_read seen_code hsole hread
    obtain ⟨code, hcode, hbuild⟩ := bind_eq_ok.mp hbuild
    obtain ⟨name, -, hbuild⟩ := bind_eq_ok.mp hbuild
    cases hbuild
    rcases hheld with ⟨hnone, -⟩ | ⟨D, v, b, hplace, rfl, hread, hsome⟩
    · rw [hnone] at hcode
      cases hcode
    · rw [hsome] at hcode
      cases hcode
      exact ⟨D, v, hplace, rfl, hread⟩

/-- **The buffer kinds of a catalog are read from a list, code by code**, or they are the standard ones
    and there is no list. -/
theorem readCatalog_codes {depth : Nat} {t : Tree} {c : Catalog} (h : readCatalog depth t = .ok c) :
    (c.bufferKinds = BufferKind.standard ∧ ∀ C, Place .catalog C .kinds → ∀ v, t ≠ C v) ∨
      ∃ C items, Place .catalog C .kinds ∧ t = C (.array items none) ∧
        List.Forall₂ (fun item k => ∃ D v, Place .kind D .code ∧ item = D v ∧
          readInt32 v = .ok k.code) items c.bufferKinds := by
  cases depth with
  | zero => cases h
  | succ depth =>
    have hsole : ∀ name, (name, Role.kinds) ∈ Role.catalog.fields → name = "buffer_kinds" := by
      simp [Role.fields]
    have hcatalog : Role.catalog.read (depth + 1) t = .ok c := h
    obtain ⟨d, hbuild, hheld⟩ := Layout.held_of_read seen_kinds hsole hcatalog
    obtain ⟨externs, -, hbuild⟩ := bind_eq_ok.mp hbuild
    cases hbuild
    rcases hheld with ⟨hnone, hplace⟩ | ⟨C, v, ks, hplace, rfl, hread, hsome⟩
    · exact .inl ⟨by rw [hnone]; rfl, hplace⟩
    · right
      cases depth with
      | zero => cases hread
      | succ depth =>
        obtain ⟨items, rfl, hall⟩ := readSequence_iff.mp hread
        refine ⟨C, items, hplace, rfl, ?_⟩
        rw [hsome]
        exact hall.imp fun _ _ hk => code_of_readBufferKind hk

end HostGlue.Json

namespace HostGlue.Catalog

open Json

/-! ## 3. Literals of codes -/

/-- The text around the literal of a code: whatever is written between these two texts is the code of the
    kind at a position in a list of so many kinds. -/
def CodeHole (i n : Nat) (before after : String) : Prop :=
  ∃ C, CodePlace i n C ∧ Surrounds C before after

/-- **Each code is written in a catalog text as in decimal, byte for byte**, if the text has a list of
    kinds. If it has none, the kinds are the standard ones. -/
theorem ofJson_codes {text : String} {c : Catalog} (h : ofJson text = .ok c) :
    (c.bufferKinds = BufferKind.standard ∧
      ∀ C, Place .catalog C .kinds → ∀ v : Tree, ¬(C v).Spelled text) ∨
    (∃ C items, Place .catalog C .kinds ∧ (C (.array items none)).Spelled text ∧
      items.length = c.bufferKinds.length) ∧
    ∀ i k, c.bufferKinds[i]? = some k → ∃ before after,
      text = before ++ Digits.ofInt k.code.toInt ++ after ∧
        CodeHole i c.bufferKinds.length before after := by
  obtain ⟨t, hspelled, hread⟩ := ofJson_eq_ok_iff.mp h
  rcases readCatalog_codes hread with ⟨hstandard, hnowhere⟩ | ⟨C, items, hplace, rfl, hall⟩
  · exact .inl ⟨hstandard, fun C hplace v hv => hnowhere C hplace v (hspelled.unique hv)⟩
  · refine .inr ⟨⟨C, items, hplace, hspelled, hall.length_eq⟩, fun i k hk => ?_⟩
    obtain ⟨hi, rfl⟩ := List.getElem?_eq_some_iff.mp hk
    have hi' : i < items.length := hall.length_eq ▸ hi
    obtain ⟨D, v, hcode, hitem, hvalue⟩ := hall.get hi' hi
    have hitems : items = items.take i ++ D v :: items.drop (i + 1) := by
      rw [← hitem, List.get_eq_getElem, ← List.drop_eq_getElem_cons hi', List.take_append_drop]
    have hlength : (items.take i).length = i := List.length_take_of_le (Nat.le_of_lt hi')
    have hhole : CodePlace i c.bufferKinds.length
        fun u => C (.array (items.take i ++ D u :: items.drop (i + 1)) none) := by
      refine .mk hplace hcode hlength ?_
      rw [hlength, List.length_drop, ← hall.length_eq]
      omega
    have hscalar : v.lexemes = [.value v] := by
      cases v with
      | numeral => rfl
      | _ => cases hvalue
    rw [hitems] at hspelled
    obtain ⟨before, literal, after, htext, hliteral, haround⟩ :=
      hhole.embeds.literal hscalar hspelled
    have hdigits := (readInt32_eq_ok_iff hliteral).mp hvalue
    rw [String.toList_injective hdigits] at htext
    exact ⟨before, after, htext, _, hhole, haround⟩

/-- **Another literal is accepted as a code exactly if it is one of an integer of 32 bits**: without
    fraction and exponent, not `-0`, and in range. -/
theorem ofJson_code_iff {i n : Nat} {before after : String} (hole : CodeHole i n before after)
    {v v' : Tree} {text literal : String} {c : Catalog} (hv : v.Spelled text)
    (haccepted : ofJson (before ++ text ++ after) = .ok c)
    (hliteral : (Token.value v').Spelled literal.toList) :
    (∃ c', ofJson (before ++ literal ++ after) = .ok c') ↔ Int32Literal literal.toList := by
  obtain ⟨C, hplace, haround⟩ := hole
  obtain ⟨t, hspelled, hread⟩ := ofJson_eq_ok_iff.mp haccepted
  obtain rfl := hspelled.unique (haround v text hv)
  have hspelled' := haround v' literal (by simpa only [String.ofList_toList] using hliteral.tree)
  have hiff : (∃ c', readCatalog maxDepth (C v') = .ok c') ↔ ∃ k, readInt32 v' = .ok k :=
    hplace.read_iff hread
  rw [← exists_readInt32_iff hliteral, ← hiff]
  constructor
  · rintro ⟨c', h⟩
    obtain ⟨t', ht', hread'⟩ := ofJson_eq_ok_iff.mp h
    obtain rfl := ht'.unique hspelled'
    exact ⟨c', hread'⟩
  · rintro ⟨c', h⟩
    exact ⟨c', ofJson_eq_ok_iff.mpr ⟨_, hspelled', h⟩⟩

end HostGlue.Catalog
