import HostGlue.Proofs.Catalog.Places
import HostGlue.Proofs.Catalog.Positions
import HostGlue.Proofs.Json.Holes
import Mathlib.Data.List.Forall2

/-!
# Which value is read from which place

Each known value of a record is read from one place, whether the record is written by name or by
position, and is not looked at otherwise. This file says, for any layout:

* `Layout.Seen`, how a draft is asked for the value in a slot, and `Layout.Steps.held`, that this is what
  the one member of its key gives, or nothing if there is no such member;
* `Role.Lists`, the members that a record is written with in either form, and how a place in the record is
  one of them (`Place.member_of_lists`, `Role.Lists.place`);
* **`Layout.held_of_read`: what a record holds is read from the place of its field**, or there is no such
  place;
* **`Place.replace`: what stands at a place may be replaced** by any value that is read there. The rest of
  the whole is read as before.
-/

namespace HostGlue.Json

/-! ## 1. Slots -/

namespace Layout

variable {ρ : Role} {l : Layout ρ} {depth : Nat} {s : Slot l.Draft}

/-- A draft can be asked for the value in a slot. -/
structure Seen (l : Layout ρ) (s : Slot l.Draft) (held : l.Draft → Option s.role.Value) : Prop where
  slot : s ∈ l.slots
  filled : ∀ d, s.filled d = (held d).isSome
  put : ∀ a d, held (s.put a d) = some a
  others : ∀ s' ∈ l.slots, s' ≠ s → ∀ a d, held (s'.put a d) = held d

/-- **A slot holds what the member of its key gives**, or what it held before if there is none. -/
theorem Steps.held {held : l.Draft → Option s.role.Value} (hseen : l.Seen s held)
    {ms : List (Tree × Tree)} {d e : l.Draft} (h : l.Steps depth ms d e) :
    (held e = held d ∧ ∀ m ∈ ms, readKey m.1 ≠ .ok s.name) ∨
      ∃ before key v after a, ms = before ++ (key, v) :: after ∧ readKey key = .ok s.name ∧
        s.role.read depth v = .ok a ∧ held e = some a := by
  induction h with
  | nil => exact .inl ⟨rfl, List.forall_mem_nil _⟩
  | @cons m ms d d' e first others ih =>
    cases first with
    | @known s' a slot key free value =>
      by_cases heq : s' = s
      · subst heq
        rcases ih with ⟨hheld, -⟩ | ⟨before, key', v, after, b, rfl, hkey, -⟩
        · exact .inr ⟨[], m.1, m.2, ms, a, rfl, key, value, hheld.trans (hseen.put a d)⟩
        · have htwice : l.Steps depth ([] ++ m :: (before ++ (key', v) :: after)) d e :=
            .cons (.known slot key free value) others
          exact (htwice.not_twice slot key hkey).elim
      · have hname : readKey m.1 ≠ .ok s.name := fun hm =>
          (slots_apart slot hseen.slot heq).names (Except.ok.inj (key.symm.trans hm))
        rcases ih with ⟨hheld, hnone⟩ | ⟨before, key', v, after, b, rfl, hkey, hvalue, hheld⟩
        · exact .inl ⟨hheld.trans (hseen.others s' slot heq a d), List.forall_mem_cons.mpr ⟨hname, hnone⟩⟩
        · exact .inr ⟨m :: before, key', v, after, b, rfl, hkey, hvalue, hheld⟩
    | @unknown name key unknown sound =>
      have hname : readKey m.1 ≠ .ok s.name := fun hm =>
        unknown s hseen.slot (Except.ok.inj (hm.symm.trans key))
      rcases ih with ⟨hheld, hnone⟩ | ⟨before, key', v, after, b, rfl, hkey, hvalue, hheld⟩
      · exact .inl ⟨hheld, List.forall_mem_cons.mpr ⟨hname, hnone⟩⟩
      · exact .inr ⟨m :: before, key', v, after, b, rfl, hkey, hvalue, hheld⟩

/-- A field of a role belongs to the slot of its name. -/
theorem field_eq_of_name {f : String × Role} (hf : f ∈ ρ.fields) (hs : s ∈ l.slots)
    (hname : f.1 = s.name) : f = (s.name, s.role) := by
  rw [← l.fields] at hf
  obtain ⟨u, hu, rfl⟩ := List.mem_map.mp hf
  rw [slot_eq_of_name hu hs hname]

end Layout

/-! ## 2. Records in either form -/

/-- Each member stands at the position of the field of its key. -/
theorem Leading.named {fields left : List (String × Role)} {ms : List (Tree × Tree)}
    (h : Leading fields ms left) : ∀ {i : Nat} {m : Tree × Tree}, ms[i]? = some m →
      ∃ f, fields[i]? = some f ∧ readKey m.1 = .ok f.1 := by
  induction h with
  | nil => exact nofun
  | cons named _ ih =>
    intro i m hm
    cases i with
    | zero =>
      cases hm
      exact ⟨_, rfl, named⟩
    | succ i => exact ih hm

/-- The values of members do not matter for their positions. -/
theorem Leading.replace {left : List (String × Role)} {key v : Tree} (v' : Tree)
    {after : List (Tree × Tree)} : ∀ {before : List (Tree × Tree)} {fields : List (String × Role)},
    Leading fields (before ++ (key, v) :: after) left →
      Leading fields (before ++ (key, v') :: after) left
  | [], _, .cons named others => .cons named others
  | _ :: _, _, .cons named others => .cons named (Leading.replace v' others)

/-- A record is written with some members: by name, or by position if every field that is left may be
    left out. -/
inductive Role.Lists (ρ : Role) (ms : List (Tree × Tree)) : Tree → Prop where
  | named : Lists ρ ms (.object ms none)
  | positional {left : List (String × Role)} (leading : Leading ρ.fields ms left)
      (optional : ∀ f ∈ left, f.1 ∉ ρ.required) : Lists ρ ms (.array (ms.map (·.2)) none)

namespace Role.Lists

variable {ρ : Role} {ms : List (Tree × Tree)} {t : Tree}

/-- In either form a record is read member by member. -/
theorem read_iff (h : Lists ρ ms t) (l : Layout ρ) {depth : Nat} {a : ρ.Value} :
    ρ.read (depth + 1) t = .ok a ↔ ∃ d, l.Steps depth ms l.start d ∧ l.build d = .ok a := by
  cases h with
  | named => exact l.read_object_iff
  | positional leading optional =>
    exact (l.alike_array leading optional (depth + 1) a).symm.trans l.read_object_iff

/-- Every record that is read is written in one of the forms. -/
theorem exists_of_read (l : Layout ρ) {depth : Nat} {a : ρ.Value}
    (h : ρ.read (depth + 1) t = .ok a) : ∃ ms, Lists ρ ms t := by
  have hread := h
  rw [l.read_succ] at hread
  obtain ⟨d, hrecord, -⟩ := bind_eq_ok.mp hread
  rcases closed_of_readRecord hrecord with ⟨ms, rfl⟩ | ⟨items, rfl⟩
  · exact ⟨ms, .named⟩
  · obtain ⟨ms, left, rfl, leading, optional⟩ := l.of_read_array h
    exact ⟨ms, .positional leading optional⟩

/-- The member of a known key has a place. -/
theorem place {l : Layout ρ} {s : Slot l.Draft} (hs : s ∈ l.slots)
    {before after : List (Tree × Tree)} {key v : Tree} (hkey : readKey key = .ok s.name)
    (h : Lists ρ (before ++ (key, v) :: after) t) : ∃ C, Place ρ C s.role ∧ t = C v := by
  cases h with
  | named => exact ⟨_, .member (l.mem_fields hs) hkey, rfl⟩
  | positional leading =>
    refine ⟨fun u => .array (before.map (·.2) ++ u :: after.map (·.2)) none, ?_, by
      rw [List.map_append, List.map_cons]⟩
    obtain ⟨f, hf, hnamed⟩ := leading.named (i := before.length)
      (by rw [List.getElem?_append_right (Nat.le_refl _), Nat.sub_self]; rfl)
    have hname : f.1 = s.name := Except.ok.inj (hnamed.symm.trans hkey)
    rw [Layout.field_eq_of_name (List.mem_of_getElem? hf) hs hname] at hf
    exact .position (by rwa [List.length_map])

end Role.Lists

/-- What stands at a place of a record is one of its members, and so is what may stand there. -/
theorem Place.member_of_lists {ρ σ : Role} {C : Tree → Tree} (h : Place ρ C σ) (hρ : ρ.fields ≠ [])
    {ms : List (Tree × Tree)} {v : Tree} (hlists : ρ.Lists ms (C v)) :
    ∃ before key after name, ms = before ++ (key, v) :: after ∧ (name, σ) ∈ ρ.fields ∧
      readKey key = .ok name ∧ ∀ v', ρ.Lists (before ++ (key, v') :: after) (C v') := by
  generalize ht : C v = t at hlists
  cases h with
  | member known named =>
    cases hlists with
    | named =>
      cases ht
      exact ⟨_, _, _, _, rfl, known, named, fun v' => .named⟩
    | positional => cases ht
  | @position _ _ name before after field =>
    cases hlists with
    | named => cases ht
    | positional leading optional =>
      obtain ⟨hitems⟩ := Tree.array.inj ht
      obtain ⟨ms₁, ms₂, rfl, rfl, hrest⟩ := List.map_eq_append_iff.mp hitems.symm
      obtain ⟨⟨key, v⟩, ms₃, rfl, rfl, rfl⟩ := List.map_eq_cons_iff.mp hrest
      obtain ⟨f, hf, hnamed⟩ := leading.named (i := ms₁.length)
        (by rw [List.getElem?_append_right (Nat.le_refl _), Nat.sub_self]; rfl)
      rw [List.length_map, hf] at field
      obtain rfl := Option.some.inj field
      refine ⟨ms₁, key, ms₃, name, rfl, List.mem_of_getElem? hf, hnamed, fun v' => ?_⟩
      have hlists := Role.Lists.positional (leading.replace v') optional
      rwa [List.map_append, List.map_cons] at hlists
  | element item =>
    cases ρ with
    | params | externs | kinds => exact absurd rfl hρ
    | _ => cases item
  | content => exact absurd rfl hρ

/-- **What a record holds is read from the place of its field.** If the record holds nothing there, it
    has no such place. -/
theorem Layout.held_of_read {ρ : Role} {l : Layout ρ} {s : Slot l.Draft}
    {held : l.Draft → Option s.role.Value} (hseen : l.Seen s held)
    (hsole : ∀ name, (name, s.role) ∈ ρ.fields → name = s.name) {depth : Nat} {t : Tree}
    {a : ρ.Value} (h : ρ.read (depth + 1) t = .ok a) :
    ∃ d, l.build d = .ok a ∧
      ((held d = none ∧ ∀ C, Place ρ C s.role → ∀ v, t ≠ C v) ∨
        ∃ C v b, Place ρ C s.role ∧ t = C v ∧ s.role.read depth v = .ok b ∧ held d = some b) := by
  obtain ⟨ms, hlists⟩ := Role.Lists.exists_of_read l h
  obtain ⟨d, hsteps, hbuild⟩ := (hlists.read_iff l).mp h
  refine ⟨d, hbuild, ?_⟩
  rcases hsteps.held hseen with ⟨hheld, hnone⟩ | ⟨before, key, v, after, b, rfl, hkey, hvalue, hheld⟩
  · have hstart : held l.start = none := by
      have hfresh := (hseen.filled l.start).symm.trans (l.fresh s hseen.slot)
      simpa using hfresh
    refine .inl ⟨hheld.trans hstart, fun C hplace v ht => ?_⟩
    rw [ht] at hlists
    have hρ := List.ne_nil_of_mem (l.mem_fields hseen.slot)
    obtain ⟨before, key, after, name, rfl, hknown, hkey, -⟩ := hplace.member_of_lists hρ hlists
    rw [hsole name hknown] at hkey
    exact hnone (key, v) (by simp) hkey
  · obtain ⟨C, hplace, ht⟩ := hlists.place hseen.slot hkey
    exact .inr ⟨C, v, b, hplace, ht, hvalue, hheld⟩

/-! ## 3. Lists -/

/-- The elements of an array that broke off are not read to the end. -/
theorem readItems_broken {α : Type} (item : Tree → Result α) (f : Fault) :
    ∀ (ts : List Tree) (as : List α), readItems item (some f) ts ≠ .ok as
  | [], _, h => by cases h
  | t :: ts, as, h => by
      obtain ⟨a, -, h⟩ := bind_eq_ok.mp h
      obtain ⟨bs, hbs, -⟩ := bind_eq_ok.mp h
      exact readItems_broken item f ts bs hbs

/-- The elements of an array are read one by one. -/
theorem readItems_iff {α : Type} {item : Tree → Result α} : ∀ {ts : List Tree} {as : List α},
    readItems item none ts = .ok as ↔ List.Forall₂ (fun t a => item t = .ok a) ts as
  | [], as => by
      constructor
      · rintro ⟨⟩
        exact .nil
      · rintro ⟨⟩
        rfl
  | t :: ts, as => by
      rw [readItems, bind_eq_ok]
      constructor
      · rintro ⟨a, ha, h⟩
        obtain ⟨bs, hbs, h⟩ := bind_eq_ok.mp h
        cases h
        exact .cons ha (readItems_iff.mp hbs)
      · rintro (_ | ⟨ha, hothers⟩)
        exact ⟨_, ha, bind_eq_ok.mpr ⟨_, readItems_iff.mpr hothers, rfl⟩⟩

/-- A sequence is read from an array that was closed. -/
theorem readSequence_iff {α : Type} {item : Tree → Result α} {t : Tree} {as : List α} :
    readSequence item t = .ok as ↔
      ∃ ts, t = .array ts none ∧ List.Forall₂ (fun t a => item t = .ok a) ts as := by
  constructor
  · intro h
    cases t with
    | array ts ending =>
      cases ending with
      | none => exact ⟨ts, rfl, readItems_iff.mp h⟩
      | some f => exact absurd h (readItems_broken item f ts as)
    | _ => cases h
  · rintro ⟨ts, rfl, h⟩
    exact readItems_iff.mpr h

/-- A sequence is read exactly if each of its elements is. -/
theorem exists_readItems_iff {α : Type} {item : Tree → Result α} : ∀ {ts : List Tree},
    (∃ as, readItems item none ts = .ok as) ↔ ∀ t ∈ ts, ∃ a, item t = .ok a
  | [] => ⟨fun _ => List.forall_mem_nil _, fun _ => ⟨[], rfl⟩⟩
  | t :: ts => by
      rw [List.forall_mem_cons, ← exists_readItems_iff]
      constructor
      · rintro ⟨as, h⟩
        obtain ⟨a, ha, h⟩ := bind_eq_ok.mp h
        obtain ⟨bs, hbs, -⟩ := bind_eq_ok.mp h
        exact ⟨⟨a, ha⟩, bs, hbs⟩
      · rintro ⟨⟨a, ha⟩, bs, hbs⟩
        exact ⟨a :: bs, bind_eq_ok.mpr ⟨a, ha, bind_eq_ok.mpr ⟨bs, hbs, rfl⟩⟩⟩

/-! ## 4. Replacing a value -/

namespace Layout

variable {ρ : Role} {l : Layout ρ} {depth : Nat}

/-- A draft is complete if all slots that are required are filled. -/
def Total (l : Layout ρ) : Prop :=
  ∀ d, (∀ s ∈ l.slots, s.required = true → s.filled d = true) → ∃ a, l.build d = .ok a

/-- Two drafts have the same slots filled. -/
def Matches (l : Layout ρ) (d d' : l.Draft) : Prop := ∀ s ∈ l.slots, s.filled d' = s.filled d

/-- What is filled by a value could have been filled by another. -/
theorem Matches.put {d d' : l.Draft} (h : l.Matches d d') {s : Slot l.Draft} (hs : s ∈ l.slots)
    (a b : s.role.Value) : l.Matches (s.put a d) (s.put b d') := by
  intro u hu
  by_cases heq : u = s
  · subst heq
    rw [l.fills u hu, l.fills u hu]
  · rw [(slots_apart hu hs heq).filled, (slots_apart hu hs heq).filled]
    exact h u hu

/-- Members only look at which slots are filled. -/
theorem Steps.matches {ms : List (Tree × Tree)} {d e : l.Draft} (h : l.Steps depth ms d e) :
    ∀ {d' : l.Draft}, l.Matches d d' → ∃ e', l.Steps depth ms d' e' ∧ l.Matches e e' := by
  induction h with
  | nil => exact fun hd => ⟨_, .nil _, hd⟩
  | cons first _ ih =>
    intro d' hd
    cases first with
    | known slot key free value =>
      obtain ⟨e', hsteps, he⟩ := ih (hd.put slot _ _)
      exact ⟨e', .cons (.known slot key ((hd _ slot).trans free) value) hsteps, he⟩
    | unknown key unknown sound =>
      obtain ⟨e', hsteps, he⟩ := ih hd
      exact ⟨e', .cons (.unknown key unknown sound) hsteps, he⟩

/-- The value of a known key may be replaced. -/
theorem Steps.replace {s : Slot l.Draft} (hs : s ∈ l.slots) {before after : List (Tree × Tree)}
    {key v v' : Tree} {d e : l.Draft} (hkey : readKey key = .ok s.name) {b : s.role.Value}
    (hv : s.role.read depth v' = .ok b) (h : l.Steps depth (before ++ (key, v) :: after) d e) :
    ∃ e', l.Steps depth (before ++ (key, v') :: after) d e' ∧ l.Matches e e' := by
  obtain ⟨x, hbefore, h⟩ := Steps.append.mp h
  cases h with
  | cons first others =>
    cases first with
    | @known u a slot key' free value =>
      obtain rfl := slot_eq_of_name hs slot (Except.ok.inj (hkey.symm.trans key'))
      have hx : l.Matches x x := fun _ _ => rfl
      obtain ⟨e', hothers, he⟩ := others.matches (hx.put slot a b)
      exact ⟨e', Steps.append.mpr ⟨x, hbefore, .cons (.known slot key' free hv) hothers⟩, he⟩
    | unknown key' unknown =>
      exact absurd (Except.ok.inj (hkey.symm.trans key')) (unknown s hs)

end Layout

/-- **Every role with known keys has a layout that builds from every complete draft.** -/
theorem Role.exists_total {ρ : Role} (h : ρ.fields ≠ []) : ∃ l : Layout ρ, l.Total := by
  cases ρ with
  | catalog =>
    refine ⟨.catalog, fun d hd => ?_⟩
    obtain ⟨externs, hexterns⟩ := Option.isSome_iff_exists.mp (hd _ List.mem_cons_self rfl)
    exact ⟨_, bind_eq_ok.mpr ⟨externs, by rw [hexterns]; rfl, rfl⟩⟩
  | external =>
    refine ⟨.external, fun d hd => ?_⟩
    obtain ⟨name, hname⟩ := Option.isSome_iff_exists.mp (hd _ List.mem_cons_self rfl)
    exact ⟨_, bind_eq_ok.mpr ⟨name, by rw [hname]; rfl, rfl⟩⟩
  | param =>
    refine ⟨.param, fun d hd => ?_⟩
    obtain ⟨name, hname⟩ := Option.isSome_iff_exists.mp (hd _ List.mem_cons_self rfl)
    obtain ⟨ty, hty⟩ := Option.isSome_iff_exists.mp
      (hd _ (List.mem_cons_of_mem _ List.mem_cons_self) rfl)
    exact ⟨_, bind_eq_ok.mpr ⟨name, by rw [hname]; rfl, bind_eq_ok.mpr ⟨ty, by rw [hty]; rfl, rfl⟩⟩⟩
  | signature => exact ⟨.signature, fun d _ => ⟨_, rfl⟩⟩
  | kind =>
    refine ⟨.kind, fun d hd => ?_⟩
    obtain ⟨code, hcode⟩ := Option.isSome_iff_exists.mp (hd _ List.mem_cons_self rfl)
    obtain ⟨name, hname⟩ := Option.isSome_iff_exists.mp
      (hd _ (List.mem_cons_of_mem _ List.mem_cons_self) rfl)
    exact ⟨_, bind_eq_ok.mpr
      ⟨code, by rw [hcode]; rfl, bind_eq_ok.mpr ⟨name, by rw [hname]; rfl, rfl⟩⟩⟩
  | _ => exact absurd rfl h

namespace Place

variable {ρ σ : Role} {C : Tree → Tree}

/-- **What stands at a place may be replaced** by any value that is read there. -/
theorem replace (h : Place ρ C σ) {depth : Nat} {v v' : Tree} {a : ρ.Value} {b : σ.Value}
    (hread : ρ.read (depth + 1) (C v) = .ok a) (hv : σ.read depth v' = .ok b) :
    ∃ a', ρ.read (depth + 1) (C v') = .ok a' := by
  by_cases hρ : ρ.fields = []
  · cases h with
    | member known => exact absurd hρ (List.ne_nil_of_mem known)
    | position field => exact absurd hρ (List.ne_nil_of_mem (List.mem_of_getElem? field))
    | @element _ _ before after item =>
      cases ρ with
      | params | externs | kinds =>
        cases item
        have hall := exists_readItems_iff.mp ⟨a, hread⟩
        refine exists_readItems_iff.mpr fun t ht => ?_
        rcases List.mem_append.mp ht with hm | hm
        · exact hall t (List.mem_append_left _ hm)
        · rcases List.mem_cons.mp hm with rfl | hm
          · exact ⟨b, hv⟩
          · exact hall t (List.mem_append_right _ (List.mem_cons_of_mem v hm))
      | _ => cases item
    | @content key others named =>
      have hcontent : ∀ u, readTy (depth + 1) (.object ((key, u) :: others) none) =
          readCallback depth u >>= fun a => if others.isEmpty then .ok a else fail .malformed := by
        intro u
        rw [readTy, readVariant, named]
        rfl
      obtain ⟨c, -, hend⟩ := bind_eq_ok.mp ((hcontent v).symm.trans hread)
      split at hend
      · rename_i hothers
        exact ⟨b, (hcontent v').trans (bind_eq_ok.mpr ⟨b, hv, by rw [if_pos hothers]⟩)⟩
      · cases hend
  · obtain ⟨l, htotal⟩ := Role.exists_total hρ
    obtain ⟨ms, hlists⟩ := Role.Lists.exists_of_read l hread
    obtain ⟨d, hsteps, hbuild⟩ := (hlists.read_iff l).mp hread
    obtain ⟨before, key, after, name, rfl, hknown, hkey, hlists'⟩ := h.member_of_lists hρ hlists
    obtain ⟨s, hs, rfl, rfl⟩ := l.exists_slot hknown
    obtain ⟨e, hsteps', hmatches⟩ := hsteps.replace hs hkey hv
    obtain ⟨a', hbuild'⟩ := htotal e fun u hu hrequired =>
      (hmatches u hu).trans (l.complete d a hbuild u hu hrequired)
    exact ⟨a', ((hlists' v').read_iff l).mpr ⟨e, hsteps', hbuild'⟩⟩

/-- What stands at a place of a value that is read is read one level deeper. -/
theorem of_read (h : Place ρ C σ) {depth : Nat} {v : Tree} {a : ρ.Value}
    (hread : ρ.read depth (C v) = .ok a) : ∃ depth', depth = depth' + 1 ∧ ∃ b, σ.read depth' v = .ok b := by
  cases depth with
  | zero =>
    obtain ⟨e, he⟩ := h.read_zero
    cases (he v).symm.trans hread
  | succ depth => exact ⟨depth, rfl, (h.through_succ depth).of_ok hread⟩

/-- What stands at a place is embedded. -/
theorem embeds (h : Place ρ C σ) : Embeds C := by
  cases h with
  | member => exact embeds_object _ _ _
  | position | element => exact embeds_array _ _
  | content => exact embeds_object [] _ _

end Place

end HostGlue.Json
