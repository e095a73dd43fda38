import HostGlue.Proofs.Catalog.Depth
import HostGlue.Proofs.Catalog.Edits

/-!
# The forms of records and of words

A record may be written by name, as an object, or by position, as an array of its leading fields. A type
or a direction that is one word may be written as the word, or as an object with the word for its only
key and `null` for its value. This file says that it makes no difference:

* `Recast`, a value written in the one form or the other at some place, and `Recast.means`, **that both
  mean the same**, by induction on where the place is;
* `Misfit`, what is neither form: an array with more elements than the record has fields, the word for
  types with a signature alone, and a variant with no entry or several. It is never read
  (`Misfit.not_read`);
* **`Catalog.ofJson_recast`: texts that are joined by such changes, any number of them and in either
  direction, describe the same catalog, as long as their brackets are nested at most 127 deep.** On the
  way they may be nested deeper, because what a value means does not depend on a depth.
-/

namespace HostGlue.Json

/-! ## 1. Both forms -/

/-- The words for the values of a role that have no content. -/
def Role.words : Role → List String
  | .ty => Plain.all.map Plain.name
  | .direction => directionNames
  | _ => []

/-- A member that a record does not know. -/
structure Role.Ignores (ρ : Role) (m : Tree × Tree) : Prop where
  named : ∃ name, readKey m.1 = .ok name ∧ ¬ ρ.Knows name
  sound : m.2.skipFault = none

/-- One place of a value is written in the other form. The object gives the leading fields of the record
    in any order, among members that the record does not know. The array is the row of their values, and
    the fields behind them are left out in both. -/
inductive Recast : Role → Tree → Tree → Prop where
  | positions {ρ : Role} {ms known unknown : List (Tree × Tree)} {left : List (String × Role)}
      (record : ρ.fields ≠ []) (order : ms.Perm (known ++ unknown))
      (leading : Leading ρ.fields known left) (optional : ∀ f ∈ left, f.1 ∉ ρ.required)
      (ignored : ∀ m ∈ unknown, ρ.Ignores m) :
      Recast ρ (.object ms none) (.array (known.map (·.2)) none)
  | word {ρ : Role} {w : String} {bare key : Text} (unit : w ∈ ρ.words) (alone : bare.read = .ok w)
      (named : key.read = .ok w) : Recast ρ (.text bare) (.object [(.text key, .null)] none)
  | inside {ρ σ : Role} {C : Tree → Tree} {v v' : Tree} (place : Place ρ C σ) (recast : Recast σ v v') :
      Recast ρ (C v) (C v')

/-- Members that a record does not know do nothing. -/
theorem Layout.steps_ignored {ρ : Role} {l : Layout ρ} {depth : Nat} {known : List (Tree × Tree)}
    {d e : l.Draft} : ∀ {unknown : List (Tree × Tree)}, (∀ m ∈ unknown, ρ.Ignores m) →
    (l.Steps depth (known ++ unknown) d e ↔ l.Steps depth known d e)
  | [], _ => by rw [List.append_nil]
  | m :: unknown, h => by
      obtain ⟨hm, hothers⟩ := List.forall_mem_cons.mp h
      obtain ⟨name, hkey, hunknown⟩ := hm.named
      rw [Steps.insert (step_unknown hkey hunknown hm.sound)]
      exact steps_ignored hothers

/-- The two forms of a record are read alike. -/
theorem Role.alike_positions {ρ : Role} {ms known unknown : List (Tree × Tree)}
    {left : List (String × Role)} (hρ : ρ.fields ≠ []) (order : ms.Perm (known ++ unknown))
    (leading : Leading ρ.fields known left) (optional : ∀ f ∈ left, f.1 ∉ ρ.required)
    (ignored : ∀ m ∈ unknown, ρ.Ignores m) (depth : Nat) :
    Alike (ρ.read depth (.object ms none)) (ρ.read depth (.array (known.map (·.2)) none)) := by
  obtain ⟨l⟩ := exists_layout hρ
  have hknown : Alike (ρ.read depth (.object ms none)) (ρ.read depth (.object known none)) :=
    alike_object hρ (fun _ _ _ _ => Iff.trans
      ⟨Layout.Steps.perm order, Layout.Steps.perm order.symm⟩ (Layout.steps_ignored ignored)) depth
  exact fun a => (hknown a).trans (l.alike_array leading optional depth a)

/-- The value of a word without content. -/
theorem Role.exists_word {ρ : Role} {w : String} (h : w ∈ ρ.words) : ∃ a : ρ.Value,
    (∀ {bare : Text} (depth : Nat), bare.read = .ok w → ρ.read depth (.text bare) = .ok a) ∧
    ∀ {key : Text} (depth : Nat), key.read = .ok w →
      ρ.read (depth + 1) (.object [(.text key, .null)] none) = .ok a := by
  cases ρ with
  | ty =>
    obtain ⟨p, -, rfl⟩ := List.mem_map.mp h
    have hname : tyOfName p.name = .ok (.plain p) := by rw [tyOfName, Plain.ofName?_name]
    have hcontent : ∀ depth, tyOfContent (readCallback depth) p.name .null = .ok (.plain p) := by
      intro depth
      rw [tyOfContent, Plain.ofName?_name]
      rfl
    refine ⟨.plain p, fun depth hbare => ?_, fun depth hkey => ?_⟩
    · cases depth <;> exact bind_eq_ok.mpr ⟨_, hbare, hname⟩
    · exact bind_eq_ok.mpr ⟨_, hkey, bind_eq_ok.mpr ⟨_, hcontent depth, rfl⟩⟩
  | direction =>
    have hname : ∃ d, directionOfName w = .ok d := by
      simp only [Role.words, directionNames, List.mem_cons, List.not_mem_nil, or_false] at h
      rcases h with rfl | rfl
      · exact ⟨.input, rfl⟩
      · exact ⟨.output, rfl⟩
    obtain ⟨d, hd⟩ := hname
    refine ⟨d, fun depth hbare => ?_, fun depth hkey => ?_⟩
    · cases depth <;> exact bind_eq_ok.mpr ⟨_, hbare, hd⟩
    · exact bind_eq_ok.mpr ⟨_, hkey, bind_eq_ok.mpr ⟨d, bind_eq_ok.mpr ⟨d, hd, rfl⟩, rfl⟩⟩
  | _ => cases h

/-- Values of which each is read as the same thing mean the same. -/
theorem Means.iff_of_read {ρ : Role} {t t' : Tree} {b : ρ.Value} {depth depth' : Nat}
    (h : ρ.read depth t = .ok b) (h' : ρ.read depth' t' = .ok b) (a : ρ.Value) :
    Means ρ t a ↔ Means ρ t' a := by
  constructor
  · intro ha
    obtain ⟨_, hb, hb'⟩ := Means.read_both ⟨depth, h⟩ ha
    obtain rfl := Except.ok.inj (hb.symm.trans hb')
    exact ⟨depth', h'⟩
  · intro ha
    obtain ⟨_, hb, hb'⟩ := Means.read_both ⟨depth', h'⟩ ha
    obtain rfl := Except.ok.inj (hb.symm.trans hb')
    exact ⟨depth, h⟩

/-- **Both forms mean the same**, at whatever place. -/
theorem Recast.means {ρ : Role} {t t' : Tree} (h : Recast ρ t t') :
    ∀ a, Means ρ t a ↔ Means ρ t' a := by
  induction h with
  | positions record order leading optional ignored =>
    exact fun a => exists_congr fun depth =>
      Role.alike_positions record order leading optional ignored depth a
  | word unit alone named =>
    obtain ⟨b, hbare, hkey⟩ := Role.exists_word unit
    exact Means.iff_of_read (hbare 0 alone) (hkey 0 named)
  | inside place _ ih =>
    exact fun a => ⟨place.means_congr fun b => (ih b).mp, place.means_congr fun b => (ih b).mpr⟩

/-! ## 2. Neither form -/

/-- What is neither form of a record, and neither form of a word. -/
inductive Misfit : Role → Tree → Prop where
  | overfull {ρ : Role} {items : List Tree} (record : ρ.fields ≠ [])
      (more : ρ.fields.length < items.length) : Misfit ρ (.array items none)
  | bareCallback {t : Text} (word : t.read = .ok callbackName) : Misfit .ty (.text t)
  | noEntry {ρ : Role} (variant : ρ.words ≠ []) : Misfit ρ (.object [] none)
  | entries {ρ : Role} {m m' : Tree × Tree} {ms : List (Tree × Tree)} (variant : ρ.words ≠ []) :
      Misfit ρ (.object (m :: m' :: ms) none)

/-- A variant has one entry. -/
theorem readVariant_entries {α : Type} {bare : String → Result α} {content : String → Tree → Result α}
    {ms : List (Tree × Tree)} {a : α} (h : readVariant bare content (.object ms none) = .ok a) :
    ms.length = 1 := by
  cases ms with
  | nil => cases h
  | cons m ms =>
    obtain ⟨word, -, h⟩ := bind_eq_ok.mp h
    obtain ⟨b, -, hend⟩ := bind_eq_ok.mp h
    split at hend
    · rename_i hempty
      rw [List.isEmpty_iff.mp hempty, List.length_singleton]
    · cases hend

theorem Role.length_of_read_variant {ρ : Role} (hρ : ρ.words ≠ []) {depth : Nat}
    {ms : List (Tree × Tree)} {a : ρ.Value} (h : ρ.read depth (.object ms none) = .ok a) :
    ms.length = 1 := by
  cases ρ with
  | ty | direction =>
    cases depth with
    | zero => cases h
    | succ depth => exact readVariant_entries h
  | _ => exact absurd rfl hρ

/-- **What is neither form is not read.** -/
theorem Misfit.not_read {ρ : Role} {t : Tree} (h : Misfit ρ t) (depth : Nat) (a : ρ.Value) :
    ρ.read depth t ≠ .ok a := by
  intro hread
  cases h with
  | overfull record more =>
    have hle := Role.length_le_of_read_array record hread
    omega
  | @bareCallback t word =>
    have hbare : ∀ depth, readTy depth (.text t) = .ok a → tyOfName callbackName = .ok a := by
      intro depth h
      cases depth <;>
      · obtain ⟨w, hw, h⟩ := bind_eq_ok.mp h
        obtain rfl := Except.ok.inj (word.symm.trans hw)
        exact h
    cases hbare depth hread
  | noEntry variant => cases Role.length_of_read_variant variant hread
  | entries variant => cases Role.length_of_read_variant variant hread

end HostGlue.Json

namespace HostGlue.Catalog

open Json

/-! ## 3. Texts -/

/-- A text describes a catalog, if any depth may be used to read it. -/
def Describes (text : String) (c : Catalog) : Prop := ∃ t, Tree.Spelled t text ∧ Means .catalog t c

/-- What a text describes is what is read from it, if its brackets are nested at most 127 deep. -/
theorem Describes.ofJson {text : String} {c : Catalog} (h : Describes text c)
    (hnesting : nesting text ≤ 127) : ofJson text = .ok c := by
  obtain ⟨t, hspelled, hmeans⟩ := h
  rw [nesting_of_spelled hspelled] at hnesting
  exact ofJson_eq_ok_iff.mpr ⟨t, hspelled, hmeans.read hnesting⟩

/-- One place of a text is written in the other form, and the whole in any way. -/
inductive Recast : String → String → Prop where
  | tree {t t' : Tree} {text text' : String} (before : t.Spelled text) (recast : Json.Recast .catalog t t')
      (behind : t'.Spelled text') : Recast text text'

theorem Recast.describes {text text' : String} (h : Recast text text') (c : Catalog) :
    Describes text c ↔ Describes text' c := by
  obtain ⟨before, recast, behind⟩ := h
  constructor
  · rintro ⟨u, hu, hmeans⟩
    obtain rfl := before.unique hu
    exact ⟨_, behind, (recast.means c).mp hmeans⟩
  · rintro ⟨u, hu, hmeans⟩
    obtain rfl := behind.unique hu
    exact ⟨_, before, (recast.means c).mpr hmeans⟩

/-- **Records may be written by name or by position, and words with or without `null`**, in any mixture.
    A text that is joined by such changes to one that is accepted describes the same catalog, if its
    brackets are nested at most 127 deep. A text is refused if something that is neither form stands
    anywhere in what is read of it. -/
theorem ofJson_recast :
    (∀ text text' c, Relation.EqvGen Recast text text' → ofJson text = .ok c → nesting text' ≤ 127 →
      ofJson text' = .ok c) ∧
    ∀ text t ρ u, Tree.Spelled t text → Part .catalog t ρ u → Misfit ρ u →
      ∃ e, ofJson text = .error e := by
  refine ⟨fun text text' c h hok hnesting => ?_, fun text t ρ u hspelled hpart hmisfit => ?_⟩
  · have hdescribes : ∀ c, Describes text c ↔ Describes text' c := by
      clear hok hnesting c
      induction h with
      | rel text text' h => exact h.describes
      | refl text => exact fun c => Iff.rfl
      | symm text text' _ ih => exact fun c => (ih c).symm
      | trans text text' text'' _ _ ih ih' => exact fun c => (ih c).trans (ih' c)
    obtain ⟨t, hspelled, hread⟩ := ofJson_eq_ok_iff.mp hok
    exact ((hdescribes c).mp ⟨t, hspelled, maxDepth, hread⟩).ofJson hnesting
  · cases h : ofJson text with
    | error e => exact ⟨e, rfl⟩
    | ok c =>
      obtain ⟨t', hspelled', hread⟩ := ofJson_eq_ok_iff.mp h
      obtain rfl := hspelled.unique hspelled'
      have hwhole : Role.catalog.read maxDepth t = .ok c := hread
      obtain ⟨depth, b, hb⟩ := hpart.of_read hwhole
      exact absurd hb (hmisfit.not_read depth b)

/-- The parts of an extern that is written by position. -/
def sampleParts (result : Tree) : List Tree := [.ofString "f", .ofString "o", .ofItems [], result]

theorem spelled_sample {result : Tree} (h : result.Written) :
    (Tree.ofMembers [("functions", .ofItems [.ofItems (sampleParts result)])]).Spelled
      (String.ofList (Tree.ofMembers [("functions", .ofItems [.ofItems (sampleParts result)])]).spell) ∧
    (Tree.ofItems [.ofItems [.ofItems (sampleParts result)]]).Spelled
      (String.ofList (Tree.ofItems [.ofItems [.ofItems (sampleParts result)]]).spell) := by
  have hparts : (Tree.ofItems [.ofItems (sampleParts result)]).Written := by
    refine Tree.written_ofItems (List.forall_mem_singleton.mpr (Tree.written_ofItems ?_))
    simp only [sampleParts, List.forall_mem_cons]
    exact ⟨Tree.written_ofString "f", Tree.written_ofString "o",
      Tree.written_ofItems (List.forall_mem_nil _), h, List.forall_mem_nil _⟩
  exact ⟨Tree.spelled_spell (Tree.written_ofMembers (List.forall_mem_singleton.mpr hparts)),
    Tree.spelled_spell (Tree.written_ofItems (List.forall_mem_singleton.mpr hparts))⟩

theorem ofJson_recast_sample :
    ofJson "[[[\"f\",\"o\",[],\x7b\"i32\":null\x7d]]]" =
      .ok ⟨[⟨"f", "o", [], .plain .i32⟩], BufferKind.standard⟩ ∧
    ∃ e, ofJson "[[],[],[]]" = .error e := by
  have hword : (Tree.ofMembers [("i32", .null)]).Written :=
    Tree.written_ofMembers (List.forall_mem_singleton.mpr (List.forall_mem_singleton.mpr .null))
  have hkey : readKey (.ofString "functions") = .ok "functions" := Text.read_ofString "functions"
  have hread : (Text.ofString "i32").read = .ok "i32" := Text.read_ofString "i32"
  obtain ⟨hplain, -⟩ := spelled_sample (Tree.written_ofString "i32")
  obtain ⟨hcontent, hrow⟩ := spelled_sample hword
  -- First the type of the result is written with its content, then the catalog as a row.
  have hresult : Place .external (fun v => .ofItems (sampleParts v)) .ty :=
    @Place.position _ _ _ [.ofString "f", .ofString "o", .ofItems []] [] rfl
  have hextern : Place .externs (fun v => .ofItems [v]) .external :=
    @Place.element _ _ [] [] rfl
  have hexterns : Place .catalog (fun v => .ofMembers [("functions", v)]) .externs :=
    @Place.member _ _ _ _ [] [] List.mem_cons_self hkey
  have hfirst := Recast.tree hplain
    (.inside hexterns (.inside hextern (.inside hresult (.word (by decide) hread hread)))) hcontent
  have hsecond := Recast.tree hcontent (@Json.Recast.positions .catalog _ _ [] _ nofun (List.Perm.refl _)
    (.cons hkey (.nil _)) (by decide) (List.forall_mem_nil _)) hrow
  refine ⟨ofJson_recast.1 "\x7b\"functions\":[[\"f\",\"o\",[],\"i32\"]]\x7d" _ _
    (.trans _ _ _ (.rel _ _ hfirst) (.rel _ _ hsecond)) (by decide +kernel)
    (by decide +kernel), ?_⟩
  have hempty : (Tree.ofItems []).Written := Tree.written_ofItems (List.forall_mem_nil _)
  have hrows : ∀ t ∈ List.replicate 3 (Tree.ofItems []), t.Written :=
    fun t ht => List.eq_of_mem_replicate ht ▸ hempty
  exact ofJson_recast.2 _ _ .catalog _ (Tree.spelled_spell (Tree.written_ofItems hrows)) (.whole _ _)
    (.overfull nofun (by decide))

end HostGlue.Catalog
