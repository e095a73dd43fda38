import HostGlue.Proofs.Catalog.Roles

/-!
# Reading the members of an object

An object is read member by member into a draft. This file says what that amounts to, for any layout:

* `Alike`, that two readings give the same values, whatever their errors are;
* `closed_of_readRecord`, that a record is read from an object or an array that was closed;
* `Layout.Step`, what one member does to a draft: it fills the free slot of its key, or it is unknown
  and does nothing. Two members may change places (`Layout.Step.swap`);
* `Layout.Steps`, what the members of an object do one after another, with what they leave filled
  (`Layout.Steps.filled_iff`): **no known key comes twice, and every required one comes**
  (`Role.of_read_object`), and the order does not matter (`Layout.Steps.perm`).
-/

namespace HostGlue.Json

/-! ## 1. Readings that give the same values -/

/-- Two readings give the same values. -/
def Alike {α : Type} (x y : Result α) : Prop := ∀ a, x = .ok a ↔ y = .ok a

namespace Alike

variable {α β : Type}

theorem refl (x : Result α) : Alike x x := fun _ => Iff.rfl

theorem symm {x y : Result α} (h : Alike x y) : Alike y x := fun a => (h a).symm

theorem errors (e e' : Error) : Alike (.error e : Result α) (.error e') :=
  fun _ => ⟨nofun, nofun⟩

theorem bind {x y : Result α} {f g : α → Result β} (h : Alike x y)
    (hf : ∀ a, Alike (f a) (g a)) : Alike (x >>= f) (y >>= g) := by
  intro b
  rw [bind_eq_ok, bind_eq_ok]
  exact exists_congr fun a => and_congr (h a) (hf a b)

end Alike

/-! ## 2. Records that broke off -/

open Shape (Field Record)

/-- The members of an object that broke off are not read to the end. -/
theorem readMembers_broken {δ : Type} (r : Record Tree Error δ) (f : Fault) :
    ∀ (ms : List (Tree × Tree)) (d e : δ), readMembers r (some f) ms d ≠ .ok e
  | [], _, _, h => by cases h
  | (key, value) :: ms, d, e, h => by
      rw [readMembers] at h
      obtain ⟨name, -, h⟩ := bind_eq_ok.mp h
      split at h
      · split at h
        · exact readMembers_broken r f ms d e h
        · cases h
      · split at h
        · cases h
        · obtain ⟨d', -, h⟩ := bind_eq_ok.mp h
          exact readMembers_broken r f ms d' e h

/-- A record is read from an object or an array that was closed. -/
theorem closed_of_readRecord {δ : Type} {r : Record Tree Error δ} {t : Tree} {d e : δ}
    (h : readRecord r d t = .ok e) :
    (∃ ms, t = .object ms none) ∨ ∃ items, t = .array items none := by
  cases t with
  | object ms ending =>
    cases ending with
    | none => exact .inl ⟨ms, rfl⟩
    | some f => exact absurd h (readMembers_broken r f ms d e)
  | array items ending =>
    cases ending with
    | none => exact .inr ⟨items, rfl⟩
    | some f =>
      obtain ⟨⟨d', rest⟩, -, hend⟩ := bind_eq_ok.mp h
      dsimp only at hend
      split at hend <;> cases hend
  | _ => cases h

/-! ## 3. One member -/

namespace Layout

variable {ρ : Role} (l : Layout ρ) (depth : Nat)

/-- The record of a layout, at a depth. -/
def record : Record Tree Error l.Draft := ⟨l.title, l.slots.map (Slot.field depth)⟩

/-- What a member of an object does to a draft. -/
inductive Step (m : Tree × Tree) (d : l.Draft) : l.Draft → Prop where
  | known {s : Slot l.Draft} {a : s.role.Value} (slot : s ∈ l.slots) (key : readKey m.1 = .ok s.name)
      (free : s.filled d = false) (value : s.role.read depth m.2 = .ok a) : Step m d (s.put a d)
  | unknown {name : String} (key : readKey m.1 = .ok name) (unknown : ∀ s ∈ l.slots, s.name ≠ name)
      (sound : m.2.skipFault = none) : Step m d d

/-- What the members of an object do to a draft, one after another. -/
inductive Steps : List (Tree × Tree) → l.Draft → l.Draft → Prop where
  | nil (d : l.Draft) : Steps [] d d
  | cons {m : Tree × Tree} {ms : List (Tree × Tree)} {d d' e : l.Draft} (first : l.Step depth m d d')
      (others : Steps ms d' e) : Steps (m :: ms) d e

variable {l : Layout ρ} {depth : Nat}

theorem slots_apart {s s' : Slot l.Draft} (h : s ∈ l.slots) (h' : s' ∈ l.slots) (hne : s ≠ s') :
    s.Apart s' :=
  l.apart.forall h h' hne

theorem slot_eq_of_name {s s' : Slot l.Draft} (h : s ∈ l.slots) (h' : s' ∈ l.slots)
    (hname : s.name = s'.name) : s = s' := by
  by_contra hne
  exact (slots_apart h h' hne).names hname

/-- A slot is found by its name. -/
theorem field?_slot {s : Slot l.Draft} (h : s ∈ l.slots) :
    (l.record depth).field? s.name = some (s.field depth) := by
  have hfind : l.slots.find? (fun u => u.name == s.name) = some s := by
    cases hf : l.slots.find? (fun u => u.name == s.name) with
    | none =>
      have hnone := List.find?_eq_none.mp hf s h
      exact absurd (beq_self_eq_true s.name) hnone
    | some u =>
      have hname : u.name = s.name := by simpa using List.find?_some hf
      rw [slot_eq_of_name (List.mem_of_find?_eq_some hf) h hname]
  rw [Record.field?, record, List.find?_map]
  exact congrArg (Option.map (Slot.field depth)) hfind

theorem field?_unknown {name : String} (h : ∀ s ∈ l.slots, s.name ≠ name) :
    (l.record depth).field? name = none := by
  rw [Record.field?, record, List.find?_eq_none]
  intro f hf
  obtain ⟨s, hs, rfl⟩ := List.mem_map.mp hf
  simpa [Slot.field] using h s hs

/-- What is done with the first member of an object is one step. -/
theorem readMembers_cons_iff {m : Tree × Tree} {ms : List (Tree × Tree)} {d e : l.Draft} :
    readMembers (l.record depth) none (m :: ms) d = .ok e ↔
      ∃ d', l.Step depth m d d' ∧ readMembers (l.record depth) none ms d' = .ok e := by
  obtain ⟨key, value⟩ := m
  rw [readMembers, bind_eq_ok]
  constructor
  · rintro ⟨name, hkey, h⟩
    by_cases hknown : ∃ s ∈ l.slots, s.name = name
    · obtain ⟨s, hs, rfl⟩ := hknown
      rw [field?_slot hs] at h
      dsimp only at h
      split at h
      · cases h
      · rename_i hfree
        obtain ⟨d', hfill, hothers⟩ := bind_eq_ok.mp h
        obtain ⟨a, hvalue, hput⟩ := bind_eq_ok.mp hfill
        cases hput
        exact ⟨_, .known hs hkey (Bool.eq_false_iff.mpr hfree) hvalue, hothers⟩
    · have hunknown : ∀ s ∈ l.slots, s.name ≠ name := fun s hs hn => hknown ⟨s, hs, hn⟩
      rw [field?_unknown hunknown] at h
      dsimp only at h
      split at h
      · rename_i hsound
        exact ⟨d, .unknown hkey hunknown hsound, h⟩
      · cases h
  · rintro ⟨d', hstep, hothers⟩
    cases hstep with
    | @known s a hs hkey hfree hvalue =>
      refine ⟨s.name, hkey, ?_⟩
      have hfree' : (s.field depth).filled d = false := hfree
      simp only [field?_slot hs, hfree', Bool.false_eq_true, if_false]
      exact bind_eq_ok.mpr ⟨_, bind_eq_ok.mpr ⟨a, hvalue, rfl⟩, hothers⟩
    | @unknown name hkey hunknown hsound =>
      dsimp only at hsound
      refine ⟨name, hkey, ?_⟩
      simp only [field?_unknown hunknown, hsound]
      exact hothers

/-- **The members of an object are read in turn.** -/
theorem readMembers_iff : ∀ {ms : List (Tree × Tree)} {d e : l.Draft},
    readMembers (l.record depth) none ms d = .ok e ↔ l.Steps depth ms d e
  | [], d, e => by
      constructor
      · rintro ⟨⟩
        exact .nil d
      · rintro ⟨⟩
        rfl
  | m :: ms, d, e => by
      rw [readMembers_cons_iff]
      constructor
      · rintro ⟨d', first, others⟩
        exact .cons first (readMembers_iff.mp others)
      · rintro (_ | ⟨first, others⟩)
        exact ⟨_, first, readMembers_iff.mpr others⟩

/-- **Two members may change places.** -/
theorem Step.swap {m m' : Tree × Tree} {d x e : l.Draft} (h : l.Step depth m d x)
    (h' : l.Step depth m' x e) : ∃ y, l.Step depth m' d y ∧ l.Step depth m y e := by
  cases h with
  | unknown key unknown sound => exact ⟨e, h', .unknown key unknown sound⟩
  | @known s a hs key free value =>
    cases h' with
    | unknown key' unknown sound => exact ⟨d, .unknown key' unknown sound, .known hs key free value⟩
    | @known s' b hs' key' free' value' =>
      have hne : s ≠ s' := by
        rintro rfl
        exact absurd (free'.symm.trans (l.fills s hs a d)) (by decide)
      have hapart := slots_apart hs hs' hne
      have hfree : s.filled (s'.put b d) = false := (hapart.filled b d).trans free
      have hfree' : s'.filled d = false := (hapart.filled' a d).symm.trans free'
      refine ⟨s'.put b d, .known hs' key' hfree' value', ?_⟩
      rw [← hapart.commute a b d]
      exact .known hs key hfree value

/-! ## 4. All members -/

namespace Steps

theorem append {ms ms' : List (Tree × Tree)} {d e : l.Draft} :
    l.Steps depth (ms ++ ms') d e ↔ ∃ x, l.Steps depth ms d x ∧ l.Steps depth ms' x e := by
  induction ms generalizing d with
  | nil =>
    constructor
    · exact fun h => ⟨d, .nil d, h⟩
    · rintro ⟨x, hx, h⟩
      cases hx
      exact h
  | cons m ms ih =>
    constructor
    · rintro (_ | ⟨first, others⟩)
      obtain ⟨x, hx, h⟩ := ih.mp others
      exact ⟨x, .cons first hx, h⟩
    · rintro ⟨x, hx, h⟩
      cases hx with
      | cons first others => exact .cons first (ih.mpr ⟨x, others, h⟩)

/-- **The order of members does not matter.** -/
theorem perm {ms ms' : List (Tree × Tree)} (hp : ms.Perm ms') : ∀ {d e : l.Draft},
    l.Steps depth ms d e → l.Steps depth ms' d e := by
  induction hp with
  | nil => exact fun h => h
  | cons m _ ih =>
    rintro d e (_ | ⟨first, others⟩)
    exact .cons first (ih others)
  | swap m m' ms =>
    rintro d e (_ | ⟨first, _ | ⟨second, others⟩⟩)
    obtain ⟨y, hsecond, hfirst⟩ := first.swap second
    exact .cons hsecond (.cons hfirst others)
  | trans _ _ ih ih' => exact fun h => ih' (ih h)

/-- A member that does nothing may be there or not. -/
theorem insert {m : Tree × Tree} (hm : ∀ d e, l.Step depth m d e ↔ e = d)
    {before after : List (Tree × Tree)} {d e : l.Draft} :
    l.Steps depth (before ++ m :: after) d e ↔ l.Steps depth (before ++ after) d e := by
  rw [append, append]
  refine exists_congr fun x => and_congr_right fun _ => ?_
  constructor
  · rintro (_ | ⟨first, others⟩)
    obtain rfl := (hm _ _).mp first
    exact others
  · exact fun h => .cons ((hm x x).mpr rfl) h

/-- **What is filled behind the members** was filled before, or a member has its key. -/
theorem filled_iff {ms : List (Tree × Tree)} {d e : l.Draft} (h : l.Steps depth ms d e)
    {s : Slot l.Draft} (hs : s ∈ l.slots) :
    s.filled e = true ↔ s.filled d = true ∨ ∃ m ∈ ms, readKey m.1 = .ok s.name := by
  induction h with
  | nil => simp
  | @cons m ms d d' e first _ ih =>
    have hstep : s.filled d' = true ↔ s.filled d = true ∨ readKey m.1 = .ok s.name := by
      cases first with
      | @known s' a hs' key free value =>
        by_cases heq : s = s'
        · subst heq
          simp [l.fills s hs, key]
        · have hname : s'.name ≠ s.name := (slots_apart hs hs' heq).names.symm
          rw [(slots_apart hs hs' heq).filled, key]
          simp [hname]
      | unknown key unknown sound => simp [key, (unknown s hs).symm]
    simp only [ih, hstep, or_assoc, List.mem_cons, exists_eq_or_imp]

/-- A known key does not come twice. -/
theorem not_twice {before middle after : List (Tree × Tree)} {m m' : Tree × Tree} {d e : l.Draft}
    (h : l.Steps depth (before ++ m :: (middle ++ m' :: after)) d e) {s : Slot l.Draft}
    (hs : s ∈ l.slots) (hkey : readKey m.1 = .ok s.name) (hkey' : readKey m'.1 = .ok s.name) :
    False := by
  rw [List.append_cons, append] at h
  obtain ⟨x, hx, h⟩ := h
  obtain ⟨y, hy, hlast⟩ := append.mp h
  have hfilled : s.filled x = true :=
    (filled_iff hx hs).mpr (.inr ⟨m, by simp, hkey⟩)
  have hfilled' : s.filled y = true := (filled_iff hy hs).mpr (.inl hfilled)
  cases hlast with
  | cons first others =>
    cases first with
    | @known s' a hs' key free value =>
      have hname : s.name = s'.name := Except.ok.inj (hkey'.symm.trans key)
      obtain rfl := slot_eq_of_name hs hs' hname
      exact absurd (hfilled'.symm.trans free) (by decide)
    | unknown key unknown sound =>
      exact unknown s hs (Except.ok.inj (hkey'.symm.trans key))

end Steps

/-! ## 5. Objects -/

/-- What is read from an object is built from what its members fill. -/
theorem read_object_iff {ms : List (Tree × Tree)} {a : ρ.Value} :
    ρ.read (depth + 1) (.object ms none) = .ok a ↔
      ∃ d, l.Steps depth ms l.start d ∧ l.build d = .ok a := by
  rw [l.read_succ, bind_eq_ok]
  exact exists_congr fun d => and_congr_left fun _ => readMembers_iff

theorem mem_fields {s : Slot l.Draft} (h : s ∈ l.slots) : (s.name, s.role) ∈ ρ.fields := by
  rw [← l.fields]
  exact List.mem_map_of_mem h

theorem exists_slot {name : String} {σ : Role} (h : (name, σ) ∈ ρ.fields) :
    ∃ s ∈ l.slots, s.name = name ∧ s.role = σ := by
  rw [← l.fields] at h
  obtain ⟨s, hs, heq⟩ := List.mem_map.mp h
  exact ⟨s, hs, (Prod.mk.inj heq).1, (Prod.mk.inj heq).2⟩

theorem exists_required {name : String} (h : name ∈ ρ.required) :
    ∃ s ∈ l.slots, s.required = true ∧ s.name = name := by
  rw [← l.required] at h
  obtain ⟨s, hs, rfl⟩ := List.mem_map.mp h
  exact ⟨s, (List.mem_filter.mp hs).1, by simpa using (List.mem_filter.mp hs).2, rfl⟩

end Layout

/-- A key of an object of a role is known. -/
def Role.Knows (ρ : Role) (name : String) : Prop := ∃ σ, (name, σ) ∈ ρ.fields

/-- A member with an unknown key does nothing. -/
theorem Layout.step_unknown {ρ : Role} {l : Layout ρ} {depth : Nat} {m : Tree × Tree} {name : String}
    (hkey : readKey m.1 = .ok name) (hunknown : ¬ ρ.Knows name) (hsound : m.2.skipFault = none)
    (d e : l.Draft) : l.Step depth m d e ↔ e = d := by
  have hne : ∀ s ∈ l.slots, s.name ≠ name := by
    rintro s hs rfl
    exact hunknown ⟨s.role, l.mem_fields hs⟩
  constructor
  · intro h
    cases h with
    | known slot key => exact absurd (Except.ok.inj (key.symm.trans hkey)) (hne _ slot)
    | unknown => rfl
  · rintro rfl
    exact .unknown hkey hne hsound

/-- **In an object that is read no known key comes twice, and every required key comes.** -/
theorem Role.of_read_object {ρ : Role} (hρ : ρ.fields ≠ []) {depth : Nat} {ms : List (Tree × Tree)}
    {a : ρ.Value} (h : ρ.read depth (.object ms none) = .ok a) :
    (∀ name, ρ.Knows name → ∀ before m middle m' after,
      ms = before ++ m :: (middle ++ m' :: after) →
        ¬ (readKey m.1 = .ok name ∧ readKey m'.1 = .ok name)) ∧
    ∀ name ∈ ρ.required, ∃ m ∈ ms, readKey m.1 = .ok name := by
  obtain ⟨l⟩ := Role.exists_layout hρ
  cases depth with
  | zero =>
    rw [l.read_zero] at h
    cases h
  | succ depth =>
    obtain ⟨d, hsteps, hbuild⟩ := l.read_object_iff.mp h
    constructor
    · rintro name ⟨σ, hfield⟩ before m middle m' after rfl ⟨hkey, hkey'⟩
      obtain ⟨s, hs, rfl, -⟩ := l.exists_slot hfield
      exact hsteps.not_twice hs hkey hkey'
    · intro name hname
      obtain ⟨s, hs, hrequired, rfl⟩ := l.exists_required hname
      have hfilled := (hsteps.filled_iff hs).mp (l.complete d a hbuild s hs hrequired)
      rw [l.fresh s hs] at hfilled
      exact hfilled.resolve_left Bool.false_ne_true

end HostGlue.Json
