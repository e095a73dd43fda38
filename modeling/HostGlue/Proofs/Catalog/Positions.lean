import HostGlue.Proofs.Catalog.Members
import HostGlue.Proofs.Json.Writing

/-!
# Records that are written by position

A record may be written as an array of its leading fields. This file says that it is the same as an
object that gives these fields by name:

* `Leading`, that the members of an object give the leading fields of a record, one after another, with
  the fields that are left;
* **`Layout.alike_array`: the array of their values is read as the object is**, if every field that is
  left may be left out;
* `Layout.of_read_array`, that every array that is read as a record is one of those. So it has no more
  elements than the record has fields (`Role.length_le_of_read_array`).
-/

namespace HostGlue.Json

open Shape (Field Record)

/-- Members give the first of some fields by name, in order. The other fields are left. -/
inductive Leading : List (String × Role) → List (Tree × Tree) → List (String × Role) → Prop where
  | nil (fields : List (String × Role)) : Leading fields [] fields
  | cons {name : String} {σ : Role} {fields left : List (String × Role)} {key value : Tree}
      {ms : List (Tree × Tree)} (named : readKey key = .ok name) (others : Leading fields ms left) :
      Leading ((name, σ) :: fields) ((key, value) :: ms) left

theorem Leading.length_le {fields left : List (String × Role)} {ms : List (Tree × Tree)}
    (h : Leading fields ms left) : ms.length ≤ fields.length := by
  induction h with
  | nil fields => exact Nat.zero_le _
  | cons _ _ ih => exact Nat.succ_le_succ ih

/-- Without members every field is left. -/
theorem Leading.of_nil : ∀ {fields left : List (String × Role)}, Leading fields [] left → left = fields
  | _, _, .nil _ => rfl

namespace Layout

variable {ρ : Role} {l : Layout ρ} {depth : Nat}

/-- The field of a slot, as the table of its role has it. -/
def entry {δ : Type} (s : Slot δ) : String × Role := (s.name, s.role)

theorem not_required {s : Slot l.Draft} (hs : s ∈ l.slots) (h : s.name ∉ ρ.required) :
    s.required = false := by
  cases hr : s.required with
  | false => rfl
  | true =>
    refine absurd ?_ h
    rw [← l.required]
    exact List.mem_map_of_mem (List.mem_filter.mpr ⟨hs, hr⟩)

/-- Some slots of a layout that are free in a draft. -/
structure Free (l : Layout ρ) (ss : List (Slot l.Draft)) (d : l.Draft) : Prop where
  slots : ∀ s ∈ ss, s ∈ l.slots
  apart : ss.Pairwise Slot.Apart
  free : ∀ s ∈ ss, s.filled d = false

namespace Free

variable {s : Slot l.Draft} {ss : List (Slot l.Draft)} {d : l.Draft}

theorem start (l : Layout ρ) : Free l l.slots l.start := ⟨fun _ hs => hs, l.apart, l.fresh⟩

theorem tail (h : Free l (s :: ss) d) : Free l ss d :=
  ⟨fun u hu => h.slots u (List.mem_cons_of_mem s hu), h.apart.of_cons,
    fun u hu => h.free u (List.mem_cons_of_mem s hu)⟩

/-- The other slots stay free if one is filled. -/
theorem put (h : Free l (s :: ss) d) (a : s.role.Value) : Free l ss (s.put a d) := by
  refine ⟨h.tail.slots, h.tail.apart, fun u hu => ?_⟩
  rw [((List.pairwise_cons.mp h.apart).1 u hu).filled']
  exact h.tail.free u hu

end Free

/-- **Filling by position is filling by name.** -/
theorem fillFrom_iff : ∀ {ss : List (Slot l.Draft)} {ms : List (Tree × Tree)}
    {left : List (String × Role)} {i : Nat} {d e : l.Draft} {rest : List Tree}, Free l ss d →
    Leading (ss.map entry) ms left → (∀ f ∈ left, f.1 ∉ ρ.required) →
    ((l.record depth).fillFrom .shape none i (ss.map (Slot.field depth)) (ms.map (·.2)) d =
      .ok (e, rest) ↔ rest = [] ∧ l.Steps depth ms d e)
  | [], _, _, i, d, e, rest, _, .nil _, _ => by
      constructor
      · rintro ⟨⟩
        exact ⟨rfl, .nil d⟩
      · rintro ⟨rfl, ⟨⟩⟩
        rfl
  | s :: ss, _, _, i, d, e, rest, hfree, .nil _, hleft => by
      have hoptional : (s.field depth).required = false :=
        not_required (hfree.slots s List.mem_cons_self) (hleft _ List.mem_cons_self)
      have ih := @fillFrom_iff ss _ _ (i + 1) d e rest hfree.tail (.nil _)
        fun f hf => hleft f (List.mem_cons_of_mem _ hf)
      rw [List.map_cons, List.map_nil, Record.fillFrom]
      simp only [hoptional, Bool.false_eq_true, if_false]
      exact ih
  | s :: ss, (key, value) :: ms, left, i, d, e, rest, hfree, .cons named others, hleft => by
      have hslot := hfree.slots s List.mem_cons_self
      rw [List.map_cons, List.map_cons, Record.fillFrom, bind_eq_ok]
      constructor
      · rintro ⟨d', hfill, hrest⟩
        obtain ⟨a, hvalue, hput⟩ := bind_eq_ok.mp hfill
        cases hput
        obtain ⟨rfl, hsteps⟩ := (fillFrom_iff (hfree.put a) others hleft).mp hrest
        exact ⟨rfl, .cons (.known hslot named (hfree.free s List.mem_cons_self) hvalue) hsteps⟩
      · rintro ⟨rfl, _ | ⟨first, hsteps⟩⟩
        cases first with
        | @known u a hu key' free hvalue =>
          obtain rfl := slot_eq_of_name hslot hu (Except.ok.inj (named.symm.trans key'))
          exact ⟨s.put a d, bind_eq_ok.mpr ⟨a, hvalue, rfl⟩,
            (fillFrom_iff (hfree.put a) others hleft).mpr ⟨rfl, hsteps⟩⟩
        | unknown key' unknown =>
          exact absurd (Except.ok.inj (named.symm.trans key')) (unknown s hslot)

/-- What fills a record by position gives its leading fields, and every field that is left may be left
    out. -/
theorem of_fillFrom : ∀ {ss : List (Slot l.Draft)} {items : List Tree} {i : Nat} {d e : l.Draft},
    (∀ s ∈ ss, s ∈ l.slots) →
    (l.record depth).fillFrom .shape none i (ss.map (Slot.field depth)) items d = .ok (e, []) →
    ∃ ms left, items = ms.map (·.2) ∧ Leading (ss.map entry) ms left ∧ ∀ f ∈ left, f.1 ∉ ρ.required
  | [], items, i, d, e, _, h => by
      cases h
      exact ⟨[], [], rfl, .nil [], List.forall_mem_nil _⟩
  | s :: ss, [], i, d, e, hs, h => by
      rw [List.map_cons, Record.fillFrom] at h
      split at h
      · cases h
      · rename_i hoptional
        obtain ⟨ms, left, hnil, hleading, hleft⟩ :=
          of_fillFrom (fun u hu => hs u (List.mem_cons_of_mem s hu)) h
        obtain rfl := List.map_eq_nil_iff.mp hnil.symm
        obtain rfl := hleading.of_nil
        refine ⟨[], _, rfl, .nil _, ?_⟩
        refine List.forall_mem_cons.mpr ⟨fun hmem => ?_, hleft⟩
        obtain ⟨u, hu, hrequired, hname⟩ := l.exists_required hmem
        obtain rfl := slot_eq_of_name hu (hs s List.mem_cons_self) hname
        exact hoptional hrequired
  | s :: ss, t :: items, i, d, e, hs, h => by
      rw [List.map_cons, Record.fillFrom] at h
      obtain ⟨d', -, h⟩ := bind_eq_ok.mp h
      obtain ⟨ms, left, rfl, hleading, hleft⟩ :=
        of_fillFrom (fun u hu => hs u (List.mem_cons_of_mem s hu)) h
      have hkey : readKey (Tree.ofString s.name) = .ok s.name := Text.read_ofString s.name
      exact ⟨(Tree.ofString s.name, t) :: ms, left, rfl, .cons hkey hleading, hleft⟩

/-- **An array of values is read as the object that gives them by name.** -/
theorem alike_array (l : Layout ρ) {ms : List (Tree × Tree)} {left : List (String × Role)}
    (hms : Leading ρ.fields ms left) (hleft : ∀ f ∈ left, f.1 ∉ ρ.required) (depth : Nat) :
    Alike (ρ.read depth (.object ms none)) (ρ.read depth (.array (ms.map (·.2)) none)) := by
  cases depth with
  | zero =>
    rw [l.read_zero, l.read_zero]
    exact Alike.errors _ _
  | succ depth =>
    rw [← l.fields] at hms
    intro a
    rw [l.read_object_iff, l.read_succ, bind_eq_ok]
    refine exists_congr fun d => and_congr_left fun _ => ?_
    show _ ↔ readRecord (l.record depth) l.start _ = _
    rw [readRecord, bind_eq_ok]
    constructor
    · intro hsteps
      exact ⟨(d, []), (fillFrom_iff (Free.start l) hms hleft).mpr ⟨rfl, hsteps⟩, rfl⟩
    · rintro ⟨⟨e, rest⟩, hfill, hend⟩
      obtain ⟨rfl, hsteps⟩ := (fillFrom_iff (Free.start l) hms hleft).mp hfill
      cases hend
      exact hsteps

/-- **An array that is read as a record gives its leading fields**, and every field that is left may be
    left out. -/
theorem of_read_array (l : Layout ρ) {items : List Tree} {a : ρ.Value}
    (h : ρ.read depth (.array items none) = .ok a) :
    ∃ ms left, items = ms.map (·.2) ∧ Leading ρ.fields ms left ∧ ∀ f ∈ left, f.1 ∉ ρ.required := by
  cases depth with
  | zero =>
    rw [l.read_zero] at h
    cases h
  | succ depth =>
    rw [l.read_succ] at h
    obtain ⟨d, hrecord, -⟩ := bind_eq_ok.mp h
    obtain ⟨⟨e, rest⟩, hfill, hend⟩ := bind_eq_ok.mp hrecord
    dsimp only at hend
    split at hend
    · rename_i hrest
      obtain rfl := List.isEmpty_iff.mp hrest
      rw [← l.fields]
      exact of_fillFrom (fun _ hs => hs) hfill
    · cases hend

end Layout

/-- An array that is read as a record has no more elements than the record has fields. -/
theorem Role.length_le_of_read_array {ρ : Role} (hρ : ρ.fields ≠ []) {depth : Nat} {items : List Tree}
    {a : ρ.Value} (h : ρ.read depth (.array items none) = .ok a) :
    items.length ≤ ρ.fields.length := by
  obtain ⟨l⟩ := exists_layout hρ
  obtain ⟨ms, left, rfl, hleading, -⟩ := l.of_read_array h
  rw [List.length_map]
  exact hleading.length_le

end HostGlue.Json
