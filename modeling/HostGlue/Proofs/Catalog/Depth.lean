import HostGlue.Proofs.Catalog.Places
import HostGlue.Proofs.Catalog.Positions
import HostGlue.Proofs.Json.Depth

/-!
# How much depth a reading needs

A reader is given the depth that is left. This file says that its answer does not depend on it, as long
as it is enough:

* `Enough`, that a depth is enough for a value that was read within another: it is no less, or the value
  is not nested deeper;
* **`Role.read_enough`: what is read within one depth is read within any that is enough**, for all roles
  at once;
* `Means`, what a value stands for if any depth may be used. What a whole means depends on what its parts
  mean only (`Place.means_congr`), so values may be replaced where they are nested deeper than is read.
-/

namespace HostGlue.Json

/-! ## 1. Depths -/

theorem Tree.depth_le_items {t : Tree} : ∀ {ts : List Tree}, t ∈ ts → t.depth ≤ Tree.itemsDepth ts
  | u :: ts, h => by
      rw [Tree.itemsDepth]
      rcases List.mem_cons.mp h with rfl | h
      · exact Nat.le_max_left _ _
      · exact Nat.le_trans (depth_le_items h) (Nat.le_max_right _ _)

theorem Tree.depth_le_members {m : Tree × Tree} : ∀ {ms : List (Tree × Tree)}, m ∈ ms →
    m.2.depth ≤ Tree.membersDepth ms
  | (_, _) :: ms, h => by
      rw [Tree.membersDepth, Tree.memberDepth]
      rcases List.mem_cons.mp h with rfl | h
      · exact Nat.le_max_left _ _
      · exact Nat.le_trans (depth_le_members h) (Nat.le_max_right _ _)

/-- Values are as deep as elements as they are as members. -/
theorem Tree.itemsDepth_values : ∀ ms : List (Tree × Tree),
    Tree.itemsDepth (ms.map (·.2)) = Tree.membersDepth ms
  | [] => rfl
  | (_, value) :: ms => by
      rw [List.map_cons, Tree.itemsDepth, itemsDepth_values ms]
      rfl

/-- `depth'` is enough for a value that was read within `depth`. -/
def Enough (depth depth' : Nat) (t : Tree) : Prop := depth ≤ depth' ∨ t.depth ≤ depth'

namespace Enough

variable {depth depth' : Nat}

/-- For a container some depth is needed. -/
theorem succ {t : Tree} (h : Enough (depth + 1) depth' t) (ht : 0 < t.depth) :
    ∃ d, depth' = d + 1 := by
  unfold Enough at h
  exact ⟨depth' - 1, by omega⟩

theorem of_items {ts : List Tree} {ending : Option Fault}
    (h : Enough (depth + 1) (depth' + 1) (.array ts ending)) {t : Tree} (ht : t ∈ ts) :
    Enough depth depth' t := by
  have hle := Tree.depth_le_items ht
  unfold Enough at h ⊢
  rw [Tree.depth] at h
  omega

theorem of_members {ms : List (Tree × Tree)} {ending : Option Fault}
    (h : Enough (depth + 1) (depth' + 1) (.object ms ending)) {m : Tree × Tree} (hm : m ∈ ms) :
    Enough depth depth' m.2 := by
  have hle := Tree.depth_le_members hm
  unfold Enough at h ⊢
  rw [Tree.depth] at h
  omega

/-- The values of an object need as much written by position. -/
theorem values {ms : List (Tree × Tree)} (h : Enough depth depth' (.array (ms.map (·.2)) none)) :
    Enough depth depth' (.object ms none) := by
  unfold Enough at h ⊢
  rwa [Tree.depth, Tree.itemsDepth_values] at h

end Enough

/-! ## 2. Any depth that is enough -/

/-- What all readers read at one depth they read at another, if that is enough. -/
def Deepens (depth depth' : Nat) : Prop :=
  ∀ {ρ : Role} {t : Tree} {a : ρ.Value}, Enough depth depth' t → ρ.read depth t = .ok a →
    ρ.read depth' t = .ok a

theorem readItems_mono {α : Type} {item item' : Tree → Result α} {ending : Option Fault} :
    ∀ {ts : List Tree} {as : List α}, (∀ t ∈ ts, ∀ a, item t = .ok a → item' t = .ok a) →
      readItems item ending ts = .ok as → readItems item' ending ts = .ok as
  | [], _, _, h => h
  | t :: ts, as, hitem, h => by
      obtain ⟨b, hb, h⟩ := bind_eq_ok.mp h
      obtain ⟨bs, hbs, h⟩ := bind_eq_ok.mp h
      have hothers := readItems_mono (fun u hu => hitem u (List.mem_cons_of_mem t hu)) hbs
      exact bind_eq_ok.mpr ⟨b, hitem t List.mem_cons_self b hb, bind_eq_ok.mpr ⟨bs, hothers, h⟩⟩

/-- A list is read within any depth that is enough, if its elements are. -/
theorem list_enough {α : Type} {list : Nat → Tree → Result (List α)} (item : Nat → Tree → Result α)
    (hzero : ∀ t, ∃ e, list 0 t = .error e)
    (hsucc : ∀ depth t, list (depth + 1) t = readSequence (item depth) t) {depth depth' : Nat}
    (hitem : ∀ d d', depth = d + 1 → ∀ u a, Enough d d' u → item d u = .ok a → item d' u = .ok a)
    {t : Tree} {as : List α} (he : Enough depth depth' t) (h : list depth t = .ok as) :
    list depth' t = .ok as := by
  cases depth with
  | zero =>
    obtain ⟨e, he⟩ := hzero t
    rw [he] at h
    cases h
  | succ depth =>
    rw [hsucc] at h
    cases t with
    | array ts ending =>
      obtain ⟨depth', rfl⟩ := he.succ (Nat.succ_pos _)
      rw [hsucc]
      exact readItems_mono (fun u hu a => hitem depth depth' rfl u a (he.of_items hu)) h
    | _ => cases h

/-- Members do to a draft within one depth what they do within another. -/
theorem Layout.Steps.enough {ρ : Role} {l : Layout ρ} {depth depth' : Nat}
    (hread : Deepens depth depth') {ms : List (Tree × Tree)} {d e : l.Draft}
    (h : l.Steps depth ms d e) : (∀ m ∈ ms, Enough depth depth' m.2) → l.Steps depth' ms d e := by
  induction h with
  | nil d => exact fun _ => .nil d
  | cons first _ ih =>
    intro he
    obtain ⟨hfirst, hothers⟩ := List.forall_mem_cons.mp he
    refine .cons ?_ (ih hothers)
    cases first with
    | known slot key free value => exact .known slot key free (hread hfirst value)
    | unknown key unknown sound => exact .unknown key unknown sound

/-- An object is read within any depth that is enough, if its values are. -/
theorem Layout.read_object_enough {ρ : Role} (l : Layout ρ) {depth depth' : Nat}
    (hread : Deepens depth depth') {ms : List (Tree × Tree)} {a : ρ.Value}
    (he : Enough (depth + 1) (depth' + 1) (.object ms none))
    (h : ρ.read (depth + 1) (.object ms none) = .ok a) :
    ρ.read (depth' + 1) (.object ms none) = .ok a := by
  obtain ⟨d, hsteps, hbuild⟩ := l.read_object_iff.mp h
  exact l.read_object_iff.mpr ⟨d, hsteps.enough hread fun m hm => he.of_members hm, hbuild⟩

/-- A record is read within any depth that is enough, if its values are. -/
theorem Layout.read_enough {ρ : Role} (l : Layout ρ) {depth depth' : Nat}
    (hread : Deepens depth depth') {t : Tree} {a : ρ.Value}
    (he : Enough (depth + 1) (depth' + 1) t) (h : ρ.read (depth + 1) t = .ok a) :
    ρ.read (depth' + 1) t = .ok a := by
  have hrecord := h
  rw [l.read_succ] at hrecord
  obtain ⟨d, hrecord, -⟩ := bind_eq_ok.mp hrecord
  rcases closed_of_readRecord hrecord with ⟨ms, rfl⟩ | ⟨items, rfl⟩
  · exact l.read_object_enough hread he h
  · obtain ⟨ms, left, rfl, hleading, hleft⟩ := l.of_read_array h
    have hobject := (l.alike_array hleading hleft (depth + 1) a).mpr h
    exact (l.alike_array hleading hleft (depth' + 1) a).mp
      (l.read_object_enough hread he.values hobject)

theorem readDirection_enough {depth depth' : Nat} {t : Tree} {d : Direction}
    (he : Enough depth depth' t) (h : readDirection depth t = .ok d) :
    readDirection depth' t = .ok d := by
  cases t with
  | object ms ending =>
    cases depth with
    | zero => cases h
    | succ depth =>
      obtain ⟨depth', rfl⟩ := he.succ (Nat.succ_pos _)
      exact h
  | text t => cases depth <;> cases depth' <;> exact h
  | _ => cases depth <;> cases h

/-- A type is read within any depth that is enough, if its signature is. -/
theorem readTy_enough {depth depth' : Nat} (hread : ∀ d d', depth = d + 1 → depth' = d' + 1 → Deepens d d')
    {t : Tree} {ty : Ty} (he : Enough depth depth' t) (h : readTy depth t = .ok ty) :
    readTy depth' t = .ok ty := by
  cases t with
  | object ms ending =>
    cases depth with
    | zero => cases h
    | succ depth =>
      obtain ⟨depth', rfl⟩ := he.succ (Nat.succ_pos _)
      cases ms with
      | nil => cases ending <;> cases h
      | cons m ms =>
        obtain ⟨word, hword, h⟩ := bind_eq_ok.mp h
        obtain ⟨a, hcontent, hend⟩ := bind_eq_ok.mp h
        refine bind_eq_ok.mpr ⟨word, hword, bind_eq_ok.mpr ⟨a, ?_, hend⟩⟩
        unfold tyOfContent at hcontent ⊢
        split at hcontent
        · exact hcontent
        · split at hcontent
          · rename_i hcallback
            rw [if_pos hcallback]
            exact hread depth depth' rfl rfl (ρ := .signature) (he.of_members List.mem_cons_self) hcontent
          · cases hcontent
  | text t => cases depth <;> cases depth' <;> exact h
  | _ => cases depth <;> cases h

/-- **What is read within one depth is read within any that is enough.** -/
theorem Role.read_enough (depth depth' : Nat) : Deepens depth depth' := by
  induction depth using Nat.strongRecOn generalizing depth' with
  | ind depth ih =>
    intro ρ t a he h
    by_cases hρ : ρ.fields = []
    · cases ρ with
      | text | code => exact h
      | direction => exact readDirection_enough he h
      | ty =>
        refine readTy_enough ?_ he h
        rintro d d' rfl -
        exact ih d (Nat.lt_succ_self d) d'
      | params =>
        refine list_enough readParam (fun t => ⟨_, rfl⟩) (fun _ _ => rfl) ?_ he h
        rintro d d' rfl u a
        exact ih d (Nat.lt_succ_self d) d' (ρ := .param)
      | externs =>
        refine list_enough readExtern (fun t => ⟨_, rfl⟩) (fun _ _ => rfl) ?_ he h
        rintro d d' rfl u a
        exact ih d (Nat.lt_succ_self d) d' (ρ := .external)
      | kinds =>
        refine list_enough readBufferKind (fun t => ⟨_, rfl⟩) (fun _ _ => rfl) ?_ he h
        rintro d d' rfl u a
        exact ih d (Nat.lt_succ_self d) d' (ρ := .kind)
      | _ => cases hρ
    · obtain ⟨l⟩ := exists_layout hρ
      cases depth with
      | zero =>
        rw [l.read_zero] at h
        cases h
      | succ depth =>
        have ht : 0 < t.depth := by
          rw [l.read_succ] at h
          obtain ⟨d, hrecord, -⟩ := bind_eq_ok.mp h
          rcases closed_of_readRecord hrecord with ⟨ms, rfl⟩ | ⟨items, rfl⟩ <;> exact Nat.succ_pos _
        obtain ⟨depth', rfl⟩ := he.succ ht
        exact l.read_enough (ih depth (Nat.lt_succ_self depth) depth') he h

/-! ## 3. What a value means -/

/-- What a value stands for, if any depth may be used to read it. -/
def Means (ρ : Role) (t : Tree) (a : ρ.Value) : Prop := ∃ depth, ρ.read depth t = .ok a

namespace Means

variable {ρ : Role} {t : Tree} {a : ρ.Value}

/-- What a value means is read within its own depth. -/
theorem read (h : Means ρ t a) {depth : Nat} (hle : t.depth ≤ depth) : ρ.read depth t = .ok a := by
  obtain ⟨depth', h⟩ := h
  exact Role.read_enough depth' depth (.inr hle) h

/-- What values mean is read within one depth for all of them. -/
theorem read_both {σ : Role} {u : Tree} {b : σ.Value} (ht : Means ρ t a) (hu : Means σ u b) :
    ∃ depth, ρ.read depth t = .ok a ∧ σ.read depth u = .ok b :=
  ⟨max t.depth u.depth, ht.read (Nat.le_max_left _ _), hu.read (Nat.le_max_right _ _)⟩

end Means

/-- **What a whole means depends on what its part means only.** -/
theorem Place.means_congr {ρ σ : Role} {C : Tree → Tree} (h : Place ρ C σ) {v v' : Tree}
    (hv : ∀ b, Means σ v b → Means σ v' b) {a : ρ.Value} (ha : Means ρ (C v) a) : Means ρ (C v') a := by
  obtain ⟨depth, hread⟩ := ha
  cases depth with
  | zero =>
    obtain ⟨e, he⟩ := h.read_zero
    rw [he] at hread
    cases hread
  | succ depth =>
    obtain ⟨b, hb⟩ := (h.through_succ depth).of_ok hread
    obtain ⟨depth', hboth, hboth'⟩ := Means.read_both ⟨depth, hb⟩ (hv b ⟨depth, hb⟩)
    -- deep enough for both values, and no less than the whole was read within
    have hdeep : ∀ {u : Tree}, σ.read depth' u = .ok b → σ.read (max depth depth') u = .ok b :=
      fun hu => Role.read_enough _ _ (.inl (Nat.le_max_right _ _)) hu
    have hwhole : ρ.read (max depth depth' + 1) (C v) = .ok a :=
      Role.read_enough _ _ (.inl (Nat.succ_le_succ (Nat.le_max_left _ _))) hread
    have halike : Alike (σ.read (max depth depth') v) (σ.read (max depth depth') v') := by
      rw [hdeep hboth, hdeep hboth']
      exact Alike.refl _
    exact ⟨_, ((h.through_succ _).alike halike a).mp hwhole⟩

end HostGlue.Json
