import HostGlue.Proofs.Catalog.Members

/-!
# Places in a value

A value that is read has places for the values it is made of: the value of a known key, the element of
a record that is written by position, the element of a list, the content of a type. This file says
where they are and how they are read:

* `Place`, a place in a value of one role where a value of another role stands;
* `Through`, a reading that reads a value on its way, and **`Place.through_succ`: what stands at a place
  is read on its own, by the reader of its role, one level deeper**;
* so values that give the same may stand for each other (`Place.alike`), and what is made of parts is
  read only if each part is (`Part.of_read`).
-/

namespace HostGlue.Json

open Shape (Field Problem Record)

/-! ## 1. Reading through a value -/

/-- A reading that reads a value with `inner` on its way. Nothing else looks at the value. -/
def Through {α β : Type} (inner : Tree → Result β) (f : Tree → Result α) : Prop :=
  ∃ (χ : Type) (before : Result χ) (after : χ → β → Result α),
    ∀ v, f v = before >>= fun x => inner v >>= after x

namespace Through

variable {α β γ : Type} {inner : Tree → Result β} {f : Tree → Result α}

/-- A reading that goes wrong before it gets to the value. -/
theorem of_error (e : Error) (h : ∀ v, f v = .error e) : Through inner f :=
  ⟨Unit, .error e, fun _ _ => .error e, h⟩

/-- A reading that begins with the value. -/
theorem first (after : β → Result α) : Through inner fun v => inner v >>= after :=
  ⟨Unit, .ok (), fun _ => after, fun _ => rfl⟩

/-- Something else may be read before. -/
theorem behind {g : γ → Tree → Result α} (x : Result γ) (h : ∀ c, Through inner (g c)) :
    Through inner fun v => x >>= fun c => g c v := by
  cases x with
  | error e => exact of_error e fun _ => rfl
  | ok c => exact h c

/-- Something else may be read afterwards. -/
theorem bind (h : Through inner f) (g : α → Result γ) : Through inner fun v => f v >>= g := by
  obtain ⟨χ, before, after, hf⟩ := h
  refine ⟨χ, before, fun x b => after x b >>= g, fun v => ?_⟩
  simp only [hf, bind_assoc]

/-- Values that give the same may stand for each other. -/
theorem alike (h : Through inner f) {v v' : Tree} (hv : Alike (inner v) (inner v')) :
    Alike (f v) (f v') := by
  obtain ⟨χ, before, after, hf⟩ := h
  rw [hf, hf]
  exact (Alike.refl before).bind fun x => hv.bind fun b => Alike.refl (after x b)

/-- The whole is read only if the value is. -/
theorem of_ok (h : Through inner f) {v : Tree} {a : α} (hok : f v = .ok a) : ∃ b, inner v = .ok b := by
  obtain ⟨χ, before, after, hf⟩ := h
  rw [hf] at hok
  obtain ⟨x, -, hok⟩ := bind_eq_ok.mp hok
  obtain ⟨b, hb, -⟩ := bind_eq_ok.mp hok
  exact ⟨b, hb⟩

end Through

/-! ## 2. The readers read through their parts -/

/-- Members are read in two goes. -/
theorem readMembers_append {δ : Type} (r : Record Tree Error δ) {ending : Option Fault} :
    ∀ (ms ms' : List (Tree × Tree)) (d : δ),
      readMembers r ending (ms ++ ms') d = readMembers r none ms d >>= readMembers r ending ms'
  | [], _, _ => rfl
  | (key, value) :: ms, ms', d => by
      rw [List.cons_append, readMembers, readMembers, bind_assoc]
      congr 1
      funext name
      cases r.field? name with
      | none =>
        cases value.skipFault with
        | none => exact readMembers_append r ms ms' d
        | some f => rfl
      | some field =>
        dsimp only
        split
        · rfl
        · rw [bind_assoc]
          congr 1
          funext d
          exact readMembers_append r ms ms' d

/-- The members of an object are read through the value of each known key. -/
theorem Layout.through_members {ρ : Role} {l : Layout ρ} (depth : Nat) {s : Slot l.Draft}
    (hs : s ∈ l.slots) {key : Tree} (hkey : readKey key = .ok s.name)
    (before after : List (Tree × Tree)) (d : l.Draft) :
    Through (s.role.read depth) fun v =>
      readMembers (l.record depth) none (before ++ (key, v) :: after) d := by
  simp only [readMembers_append]
  refine Through.behind _ fun d' => ?_
  by_cases hfree : (s.field depth).filled d' = true
  · refine Through.of_error (.shape (.duplicateField s.name)) fun v => ?_
    rw [readMembers, hkey]
    simp only [bind, Except.bind, field?_slot hs, hfree, if_true]
  · have hread : ∀ v, readMembers (l.record depth) none ((key, v) :: after) d' =
        (s.role.read depth v >>= fun a => .ok (s.put a d')) >>=
          readMembers (l.record depth) none after := by
      intro v
      rw [readMembers, hkey]
      simp only [bind, Except.bind, field?_slot hs, hfree]
      rfl
    simp only [hread]
    exact (Through.first _).bind _

/-- The elements of a sequence that fills a record are read through each that has a field. -/
theorem through_fillFrom {β δ : Type} {inner : Tree → Result β} (r : Record Tree Error δ)
    (lift : Problem → Error) {field : Field Tree Error δ}
    (hfield : ∀ d, Through inner fun v => field.fill v d) (after : List Tree) :
    ∀ (before : List Tree) (fs : List (Field Tree Error δ)) (i : Nat) (d : δ),
      fs[before.length]? = some field →
        Through inner fun v => r.fillFrom lift none i fs (before ++ v :: after) d
  | [], _ :: fs, i, d, rfl => (hfield d).bind fun d => r.fillFrom lift none (i + 1) fs after d
  | t :: before, f :: fs, i, d, h =>
      Through.behind (f.fill t d) fun d =>
        through_fillFrom r lift hfield after before fs (i + 1) d h

/-- The elements of a list are read through each of them. -/
theorem through_items {α : Type} (item : Tree → Result α) (after : List Tree) :
    ∀ before : List Tree, Through item fun v => readItems item none (before ++ v :: after)
  | [] => Through.first fun a => readItems item none after >>= fun as => .ok (a :: as)
  | t :: before =>
      Through.behind (item t) fun a =>
        (through_items item after before).bind fun as => .ok (a :: as)

/-- A type is read through its content. -/
theorem through_content {key : Tree} (hkey : readKey key = .ok callbackName)
    (others : List (Tree × Tree)) (depth : Nat) :
    Through (readCallback depth) fun v => readTy (depth + 1) (.object ((key, v) :: others) none) := by
  have hread : ∀ v, readTy (depth + 1) (.object ((key, v) :: others) none) =
      readCallback depth v >>= fun a => if others.isEmpty then .ok a else fail .malformed := by
    intro v
    rw [readTy, readVariant, hkey]
    rfl
  simp only [hread]
  exact Through.first _

/-! ## 3. Places -/

/-- A place in a value of one role where a value of another role stands. A place is given by what the
    whole value is for each value at the place. -/
inductive Place : Role → (Tree → Tree) → Role → Prop where
  | member {ρ σ : Role} {name : String} {key : Tree} {before after : List (Tree × Tree)}
      (known : (name, σ) ∈ ρ.fields) (named : readKey key = .ok name) :
      Place ρ (fun v => .object (before ++ (key, v) :: after) none) σ
  | position {ρ σ : Role} {name : String} {before after : List Tree}
      (field : ρ.fields[before.length]? = some (name, σ)) :
      Place ρ (fun v => .array (before ++ v :: after) none) σ
  | element {ρ σ : Role} {before after : List Tree} (item : ρ.item? = some σ) :
      Place ρ (fun v => .array (before ++ v :: after) none) σ
  | content {key : Tree} {others : List (Tree × Tree)} (named : readKey key = .ok callbackName) :
      Place .ty (fun v => .object ((key, v) :: others) none) .signature

namespace Place

variable {ρ σ : Role} {C : Tree → Tree}

/-- The value of a known key of an object. -/
theorem through_member {name : String} (hknown : (name, σ) ∈ ρ.fields) {key : Tree}
    (hkey : readKey key = .ok name) (before after : List (Tree × Tree)) (depth : Nat) :
    Through (σ.read depth) fun v => ρ.read (depth + 1) (.object (before ++ (key, v) :: after) none) := by
  obtain ⟨l⟩ := Role.exists_layout (List.ne_nil_of_mem hknown)
  obtain ⟨s, hs, rfl, rfl⟩ := l.exists_slot hknown
  simp only [l.read_succ]
  exact (l.through_members depth hs hkey before after l.start).bind l.build

/-- The element at the position of a field. -/
theorem through_position {name : String} {before : List Tree}
    (hfield : ρ.fields[before.length]? = some (name, σ)) (after : List Tree) (depth : Nat) :
    Through (σ.read depth) fun v => ρ.read (depth + 1) (.array (before ++ v :: after) none) := by
  obtain ⟨l⟩ := Role.exists_layout (List.ne_nil_of_mem (List.mem_of_getElem? hfield))
  rw [← l.fields, List.getElem?_map, Option.map_eq_some_iff] at hfield
  obtain ⟨s, hs, heq⟩ := hfield
  obtain ⟨rfl, rfl⟩ := Prod.mk.inj heq
  have hslot : (l.record depth).fields[before.length]? = some (s.field depth) := by
    rw [Layout.record, List.getElem?_map, hs]
    rfl
  have hfill : ∀ d, Through (s.role.read depth) fun v => (s.field depth).fill v d :=
    fun d => Through.first fun a => .ok (s.put a d)
  have hthrough := through_fillFrom (l.record depth) .shape hfill after before _ 0 l.start hslot
  simp only [l.read_succ]
  exact (hthrough.bind _).bind l.build

/-- **What stands at a place is read on its own**, by the reader of its role, one level deeper. -/
theorem through_succ (h : Place ρ C σ) (depth : Nat) :
    Through (σ.read depth) fun v => ρ.read (depth + 1) (C v) := by
  cases h with
  | member known named => exact through_member known named _ _ depth
  | position field => exact through_position field _ depth
  | @element _ _ before after item =>
    cases ρ with
    | params | externs | kinds =>
      cases item
      exact through_items _ after before
    | _ => cases item
  | content named => exact through_content named _ depth

/-- Where no depth is left, nothing that has a place is read. -/
theorem read_zero (h : Place ρ C σ) : ∃ e, ∀ v, ρ.read 0 (C v) = .error e := by
  cases h with
  | member known named =>
    obtain ⟨l⟩ := Role.exists_layout (List.ne_nil_of_mem known)
    exact ⟨.fault .malformed, fun _ => l.read_zero _⟩
  | position field =>
    obtain ⟨l⟩ := Role.exists_layout (List.ne_nil_of_mem (List.mem_of_getElem? field))
    exact ⟨.fault .malformed, fun _ => l.read_zero _⟩
  | element item =>
    cases ρ with
    | params | externs | kinds => exact ⟨.fault .malformed, fun _ => rfl⟩
    | _ => cases item
  | content named => exact ⟨.fault .malformed, fun _ => rfl⟩

theorem through (h : Place ρ C σ) (depth : Nat) :
    ∃ depth', Through (σ.read depth') fun v => ρ.read depth (C v) := by
  cases depth with
  | zero =>
    obtain ⟨e, he⟩ := h.read_zero
    exact ⟨0, Through.of_error e he⟩
  | succ depth => exact ⟨depth, h.through_succ depth⟩

/-- Values that give the same may stand for each other at a place. -/
theorem alike (h : Place ρ C σ) {v v' : Tree} (hv : ∀ depth, Alike (σ.read depth v) (σ.read depth v'))
    (depth : Nat) : Alike (ρ.read depth (C v)) (ρ.read depth (C v')) := by
  obtain ⟨depth', hthrough⟩ := h.through depth
  exact hthrough.alike (hv depth')

end Place

/-! ## 4. Parts -/

/-- A value of a role stands somewhere in another, the whole itself included. -/
inductive Part : Role → Tree → Role → Tree → Prop where
  | whole (ρ : Role) (t : Tree) : Part ρ t ρ t
  | inside {ρ σ τ : Role} {C : Tree → Tree} {v t : Tree} (place : Place ρ C σ) (part : Part σ v τ t) :
      Part ρ (C v) τ t

/-- **A value is read only if each of its parts is.** -/
theorem Part.of_read {ρ τ : Role} {t u : Tree} (h : Part ρ t τ u) : ∀ {depth : Nat} {a : ρ.Value},
    ρ.read depth t = .ok a → ∃ depth' b, τ.read depth' u = .ok b := by
  induction h with
  | whole ρ t => exact fun hread => ⟨_, _, hread⟩
  | inside place _ ih =>
    intro depth a hread
    obtain ⟨depth', hthrough⟩ := place.through depth
    obtain ⟨b, hb⟩ := hthrough.of_ok hread
    exact ih hb

end HostGlue.Json
