import HostGlue.Catalog.Written
import HostGlue.Proofs.Catalog.Members
import HostGlue.Proofs.Json.Depth
import HostGlue.Proofs.Json.Writing

/-!
# Catalogs are read back

A catalog that is written as a compact text is read back from it, unless the text is nested deeper than
is read. At each reader the answer is the same: the value, if the depth that is left is enough for its
tree, and else that the text is malformed (`limited`).

* `readsAs_ty`, by recursion on types and parameter lists;
* `readsAs_catalog`, for whole catalogs;
* **`Catalog.ofJson_render`: the catalog comes back if its text is nested at most 127 deep, and is
  refused as malformed if it is nested deeper.**
-/

namespace HostGlue.Json

/-! ## 1. Reading within a depth -/

/-- A value whose tree is as deep as `needed`, where `depth` is left. -/
def limited {α : Type} (depth needed : Nat) (a : α) : Result α :=
  if needed ≤ depth then .ok a else fail .malformed

theorem limited_zero {α : Type} (depth : Nat) (a : α) : limited depth 0 a = .ok a :=
  if_pos (Nat.zero_le depth)

theorem limited_succ {α : Type} (depth needed : Nat) (a : α) :
    limited (depth + 1) (needed + 1) a = limited depth needed a := by
  simp [limited]

theorem limited_none {α : Type} (needed : Nat) (a : α) :
    limited 0 (needed + 1) a = fail .malformed := by
  simp [limited]

/-- What is read behind a value is as deep as the deeper of the two. -/
theorem limited_bind {α β : Type} {depth m n : Nat} {a : α} {b : β} {f : α → Result β}
    (h : f a = limited depth n b) : (limited depth m a >>= f) = limited depth (max m n) b := by
  by_cases hm : m ≤ depth
  · rw [limited, if_pos hm]
    refine h.trans ?_
    by_cases hn : n ≤ depth
    · rw [limited, limited, if_pos hn, if_pos (Nat.max_le.mpr ⟨hm, hn⟩)]
    · rw [limited, limited, if_neg hn, if_neg fun h => hn (Nat.max_le.mp h).2]
  · have hmax : ¬ max m n ≤ depth := fun h => hm (Nat.max_le.mp h).1
    simp only [limited, if_neg hm, if_neg hmax]
    rfl

theorem limited_map {α β : Type} (depth needed : Nat) (a : α) (f : α → β) :
    (limited depth needed a >>= fun x => .ok (f x)) = limited depth needed (f a) := by
  have h := limited_bind (m := needed) (f := fun x => .ok (f x)) (limited_zero depth (f a)).symm
  rwa [Nat.max_zero] at h

theorem readKey_ofString (s : String) : readKey (Tree.ofString s) = .ok s := Text.read_ofString s

/-- The elements of an array, if each is read within the depth that is left. -/
theorem readItems_map {α : Type} {item : Tree → Result α} {tree : α → Tree} {depth : Nat}
    (xs : List α) (h : ∀ x ∈ xs, item (tree x) = limited depth (tree x).depth x) :
    readItems item none (xs.map tree) = limited depth (Tree.itemsDepth (xs.map tree)) xs := by
  induction xs with
  | nil => exact (limited_zero depth []).symm
  | cons x xs ih =>
    have hothers := ih fun y hy => h y (List.mem_cons_of_mem x hy)
    rw [List.map_cons, readItems, h x List.mem_cons_self, hothers, Tree.itemsDepth]
    exact limited_bind (limited_map depth _ xs (x :: ·))

/-- A tree is read as a value of a role within any depth that is enough for it. -/
def ReadsAs (ρ : Role) (t : Tree) (a : ρ.Value) : Prop :=
  ∀ depth, ρ.read depth t = limited depth t.depth a

/-- What is given for a slot: a tree, and the value it is read as. -/
structure Given (δ : Type) where
  slot : Slot δ
  tree : Tree
  value : slot.role.Value

namespace Given

variable {δ : Type}

/-- The member of an object that gives a value. -/
def member (g : Given δ) : Tree × Tree := (.ofString g.slot.name, g.tree)

/-- Puts the given values into a draft. -/
def putAll (gs : List (Given δ)) (d : δ) : δ := gs.foldl (fun d g => g.slot.put g.value d) d

/-- What is given for a slot is read as it should be. -/
def Reads (g : Given δ) : Prop := ReadsAs g.slot.role g.tree g.value

end Given

/-- The members of an object that give values for different slots are read in turn. -/
theorem Layout.readMembers_given {ρ : Role} (l : Layout ρ) (depth : Nat) :
    ∀ (gs : List (Given l.Draft)) (d : l.Draft), (∀ g ∈ gs, g.slot ∈ l.slots) →
      (gs.map (·.slot)).Pairwise Slot.Apart → (∀ g ∈ gs, g.slot.filled d = false) →
      (∀ g ∈ gs, g.Reads) →
      readMembers (l.record depth) none (gs.map Given.member) d =
        limited depth (Tree.membersDepth (gs.map Given.member)) (Given.putAll gs d)
  | [], d, _, _, _, _ => (limited_zero depth d).symm
  | g :: gs, d, hslots, hapart, hfree, hreads => by
      obtain ⟨hslot, hslots⟩ := List.forall_mem_cons.mp hslots
      obtain ⟨hfree, hfrees⟩ := List.forall_mem_cons.mp hfree
      obtain ⟨hread, hreads⟩ := List.forall_mem_cons.mp hreads
      rw [List.map_cons, List.pairwise_cons] at hapart
      have hnext : ∀ u ∈ gs, u.slot.filled (g.slot.put g.value d) = false := by
        intro u hu
        rw [(hapart.1 u.slot (List.mem_map_of_mem hu)).filled']
        exact hfrees u hu
      have ih := l.readMembers_given depth gs (g.slot.put g.value d) hslots hapart.2 hnext hreads
      have hfree' : (g.slot.field depth).filled d = false := hfree
      rw [List.map_cons, Given.member, readMembers, readKey_ofString]
      simp only [bind, Except.bind, Layout.field?_slot hslot, hfree', Bool.false_eq_true, if_false]
      show ((g.slot.role.read depth g.tree >>= fun a => .ok (g.slot.put a d)) >>=
        readMembers (l.record depth) none (gs.map Given.member)) = _
      rw [hread depth, limited_map]
      exact limited_bind ih

/-- **An object that gives a value for each slot is read as what they build.** -/
theorem Layout.read_given {ρ : Role} (l : Layout ρ) (gs : List (Given l.Draft)) {a : ρ.Value}
    (hslots : gs.map (·.slot) = l.slots) (hreads : ∀ g ∈ gs, g.Reads)
    (hbuild : l.build (Given.putAll gs l.start) = .ok a) :
    ReadsAs ρ (.object (gs.map Given.member) none) a := by
  intro depth
  rw [Tree.depth]
  cases depth with
  | zero =>
    rw [l.read_zero, limited_none]
    rfl
  | succ depth =>
    have hmem : ∀ g ∈ gs, g.slot ∈ l.slots := fun g hg => hslots ▸ List.mem_map_of_mem hg
    have hmembers := l.readMembers_given depth gs l.start hmem (hslots ▸ l.apart)
      (fun g hg => l.fresh _ (hmem g hg)) hreads
    rw [l.read_succ, limited_succ]
    show (readMembers (l.record depth) none (gs.map Given.member) l.start >>= l.build) = _
    rw [hmembers]
    have hbind := limited_bind (m := Tree.membersDepth (gs.map Given.member)) (f := l.build)
      (hbuild.trans (limited_zero depth a).symm)
    rwa [Nat.max_zero] at hbind

/-! ## 2. Types and parameters -/

theorem readVariant_ofString {α : Type} (bare : String → Result α)
    (content : String → Tree → Result α) (word : String) :
    readVariant bare content (.ofString word) = bare word := by
  have hread := Text.read_ofString word
  rw [Tree.ofString, readVariant, hread]
  rfl

theorem readVariant_ofMember {α : Type} (bare : String → Result α)
    (content : String → Tree → Result α) (word : String) (v : Tree) :
    readVariant bare content (.ofMembers [(word, v)]) = content word v := by
  rw [Tree.ofMembers, List.map_cons, List.map_nil, readVariant, readKey_ofString]
  show (content word v >>= fun a => .ok a) = content word v
  cases content word v <;> rfl

theorem readTy_plain (depth : Nat) (p : Plain) : readTy depth (.ofString p.name) = .ok (.plain p) := by
  have hword : tyOfName p.name = .ok (.plain p) := by rw [tyOfName, Plain.ofName?_name]
  cases depth with
  | zero =>
    rw [readTy, readVariant_ofString, hword]
    exact nofun
  | succ depth => rw [readTy, readVariant_ofString, hword]

theorem readDirection_name (depth : Nat) (d : Direction) :
    readDirection depth (.ofString d.name) = .ok d := by
  have hword : directionOfName d.name = .ok d := by rw [directionOfName, Direction.ofName?_name]
  rw [readDirection, readVariant_ofString, hword]
  exact nofun

theorem readsAs_text (s : String) : ReadsAs .text (.ofString s) s :=
  fun depth => (Text.read_ofString s).trans (limited_zero depth s).symm

theorem readsAs_plain (p : Plain) : ReadsAs .ty (.ofString p.name) (.plain p) :=
  fun depth => (readTy_plain depth p).trans (limited_zero depth (Ty.plain p)).symm

theorem readsAs_direction (d : Direction) : ReadsAs .direction (.ofString d.name) d :=
  fun depth => (readDirection_name depth d).trans (limited_zero depth d).symm

theorem readsAs_code (k : Int32) : ReadsAs .code (.numeral (.ofInt k.toInt)) k :=
  fun depth => (readInt32_ofInt k).trans (limited_zero depth k).symm

/-- A type with a signature is read as the signature, one deeper. -/
theorem readsAs_callback {t : Tree} {ty : Ty} (h : ReadsAs .signature t ty) :
    ReadsAs .ty (.ofMembers [(callbackName, t)]) ty := by
  intro depth
  have hdepth : (Tree.ofMembers [(callbackName, t)]).depth = t.depth + 1 := by
    simp [Tree.ofMembers, Tree.depth, Tree.membersDepth, Tree.memberDepth]
  rw [hdepth]
  cases depth with
  | zero =>
    rw [limited_none]
    rfl
  | succ depth =>
    have hty : readTy (depth + 1) (.ofMembers [(callbackName, t)]) = readCallback depth t := by
      rw [readTy, readVariant_ofMember]
      rfl
    rw [limited_succ]
    exact hty.trans (h depth)

theorem readsAs_signature {params : List Param} {result : Ty}
    (hp : ReadsAs .params (.ofItems (Param.trees params)) params)
    (hr : ReadsAs .ty result.tree result) :
    ReadsAs .signature (.ofMembers
      [("params", .ofItems (Param.trees params)), ("return", result.tree)])
        (.callback params result) := by
  have hreads := Layout.signature.read_given
    [⟨_, .ofItems (Param.trees params), params⟩, ⟨_, result.tree, result⟩] rfl
    (by
      simp only [List.forall_mem_cons]
      exact ⟨hp, hr, List.forall_mem_nil _⟩) rfl
  exact hreads

theorem readsAs_param {name : String} {ty : Ty} {direction : Direction}
    (h : ReadsAs .ty ty.tree ty) :
    ReadsAs .param (Param.tree ⟨name, ty, direction⟩) ⟨name, ty, direction⟩ := by
  have hreads := Layout.param.read_given
    [⟨_, .ofString name, name⟩, ⟨_, ty.tree, ty⟩, ⟨_, .ofString direction.name, direction⟩] rfl
    (by
      simp only [List.forall_mem_cons]
      exact ⟨readsAs_text name, h, readsAs_direction direction, List.forall_mem_nil _⟩) rfl
  exact hreads

/-- A list is read as its elements, one deeper. -/
theorem read_ofItems {α : Type} {list : Nat → Tree → Result (List α)}
    {item : Nat → Tree → Result α} {tree : α → Tree}
    (hzero : ∀ ts, list 0 (.ofItems ts) = fail .malformed)
    (hsucc : ∀ depth t, list (depth + 1) t = readSequence (item depth) t) (xs : List α)
    (h : ∀ x ∈ xs, ∀ depth, item depth (tree x) = limited depth (tree x).depth x) (depth : Nat) :
    list depth (.ofItems (xs.map tree)) =
      limited depth (Tree.ofItems (xs.map tree)).depth xs := by
  have hdepth : (Tree.ofItems (xs.map tree)).depth = Tree.itemsDepth (xs.map tree) + 1 := rfl
  rw [hdepth]
  cases depth with
  | zero => rw [hzero, limited_none]
  | succ depth =>
    rw [hsucc, limited_succ, Tree.ofItems, readSequence]
    exact readItems_map xs fun x hx => h x hx depth

theorem readsAs_params (ps : List Param) (h : ∀ p ∈ ps, ReadsAs .param p.tree p) :
    ReadsAs .params (.ofItems (Param.trees ps)) ps := by
  rw [Param.trees_eq_map]
  exact read_ofItems (fun _ => rfl) (fun _ _ => rfl) ps h

mutual

/-- **Every type is read back.** -/
theorem readsAs_ty : ∀ ty : Ty, ReadsAs .ty ty.tree ty
  | .plain p => readsAs_plain p
  | .callback params result =>
    readsAs_callback (readsAs_signature (readsAs_params params (readsAs_all params))
      (readsAs_ty result))
termination_by structural ty => ty

theorem readsAs_param_tree : ∀ p : Param, ReadsAs .param p.tree p
  | ⟨_, ty, _⟩ => readsAs_param (readsAs_ty ty)
termination_by structural p => p

theorem readsAs_all (ps : List Param) : ∀ p ∈ ps, ReadsAs .param p.tree p := by
  cases ps with
  | nil => exact List.forall_mem_nil _
  | cons p ps => exact List.forall_mem_cons.mpr ⟨readsAs_param_tree p, readsAs_all ps⟩
termination_by structural ps

end

/-! ## 3. Catalogs -/

theorem readsAs_external (e : Extern) : ReadsAs .external e.tree e := by
  have hparams := readsAs_params e.params (readsAs_all e.params)
  rw [Param.trees_eq_map] at hparams
  have hreads := Layout.external.read_given
    [⟨_, .ofString e.name, e.name⟩, ⟨_, .ofString e.owner, e.owner⟩,
      ⟨_, .ofItems (e.params.map Param.tree), e.params⟩, ⟨_, e.result.tree, e.result⟩] rfl
    (by
      simp only [List.forall_mem_cons]
      exact ⟨readsAs_text e.name, readsAs_text e.owner, hparams, readsAs_ty e.result, List.forall_mem_nil _⟩) rfl
  exact hreads

theorem readsAs_kind (k : BufferKind) : ReadsAs .kind k.tree k := by
  have hreads := Layout.kind.read_given
    [⟨_, .numeral (.ofInt k.code.toInt), k.code⟩, ⟨_, .ofString k.name, k.name⟩] rfl
    (by
      simp only [List.forall_mem_cons]
      exact ⟨readsAs_code k.code, readsAs_text k.name, List.forall_mem_nil _⟩) rfl
  exact hreads

/-- **Every catalog is read back from its tree**, if the depth that is left is enough. -/
theorem readsAs_catalog (c : Catalog) : ReadsAs .catalog c.tree c := by
  have hexterns : ReadsAs .externs (.ofItems (c.externs.map Extern.tree)) c.externs :=
    read_ofItems (fun _ => rfl) (fun _ _ => rfl) c.externs fun e _ => readsAs_external e
  have hkinds : ReadsAs .kinds (.ofItems (c.bufferKinds.map BufferKind.tree)) c.bufferKinds :=
    read_ofItems (fun _ => rfl) (fun _ _ => rfl) c.bufferKinds fun k _ => readsAs_kind k
  have hreads := Layout.catalog.read_given
    [⟨_, .ofItems (c.externs.map Extern.tree), c.externs⟩,
      ⟨_, .ofItems (c.bufferKinds.map BufferKind.tree), c.bufferKinds⟩] rfl
    (by
      simp only [List.forall_mem_cons]
      exact ⟨hexterns, hkinds, List.forall_mem_nil _⟩) rfl
  exact hreads

/-! ## 4. Catalog trees are well written -/

mutual

theorem written_ty : ∀ ty : Ty, ty.tree.Written
  | .plain p => Tree.written_ofString p.name
  | .callback params result => by
      have hparams := Tree.written_ofItems (written_params params)
      have hresult := written_ty result
      rw [Ty.tree]
      exact Tree.written_ofMembers (List.forall_mem_singleton.mpr
        (Tree.written_ofMembers (List.forall_mem_cons.mpr
          ⟨hparams, List.forall_mem_singleton.mpr hresult⟩)))
termination_by structural ty => ty

theorem written_param : ∀ p : Param, p.tree.Written
  | ⟨name, ty, direction⟩ => by
      have hty := written_ty ty
      rw [Param.tree]
      refine Tree.written_ofMembers ?_
      simp only [List.forall_mem_cons]
      exact ⟨Tree.written_ofString name, hty, Tree.written_ofString direction.name, List.forall_mem_nil _⟩
termination_by structural p => p

theorem written_params (ps : List Param) : ∀ t ∈ Param.trees ps, t.Written := by
  cases ps with
  | nil => exact List.forall_mem_nil _
  | cons p ps => exact List.forall_mem_cons.mpr ⟨written_param p, written_params ps⟩
termination_by structural ps

end

theorem written_external (e : Extern) : e.tree.Written := by
  have hparams := Tree.written_ofItems (written_params e.params)
  rw [Param.trees_eq_map] at hparams
  refine Tree.written_ofMembers ?_
  simp only [List.forall_mem_cons]
  exact ⟨Tree.written_ofString e.name, Tree.written_ofString e.owner, hparams, written_ty e.result,
    List.forall_mem_nil _⟩

theorem written_kind (k : BufferKind) : k.tree.Written := by
  refine Tree.written_ofMembers ?_
  simp only [List.forall_mem_cons]
  exact ⟨Tree.written_ofInt k.code.toInt, Tree.written_ofString k.name, List.forall_mem_nil _⟩

theorem written_catalog (c : Catalog) : c.tree.Written := by
  have hexterns : ∀ t ∈ c.externs.map Extern.tree, t.Written :=
    List.forall_mem_map.mpr fun e _ => written_external e
  have hkinds : ∀ t ∈ c.bufferKinds.map BufferKind.tree, t.Written :=
    List.forall_mem_map.mpr fun k _ => written_kind k
  refine Tree.written_ofMembers ?_
  simp only [List.forall_mem_cons]
  exact ⟨Tree.written_ofItems hexterns, Tree.written_ofItems hkinds, List.forall_mem_nil _⟩

end HostGlue.Json

namespace HostGlue.Catalog

open Json

/-- **Every catalog is read back from its compact text**, whatever its names and codes are and however
    deep its callbacks are nested, if the brackets of the text are nested at most 127 deep. A text that
    is nested deeper is refused as malformed. -/
theorem ofJson_render (c : Catalog) :
    ofJson c.render =
      if nesting c.render ≤ 127 then .ok c else .error (.fault .malformed) := by
  have hspelled : c.tree.Spelled c.render := Tree.spelled_spell (written_catalog c)
  have hread : readCatalog maxDepth c.tree = limited maxDepth c.tree.depth c :=
    readsAs_catalog c maxDepth
  rw [nesting_of_spelled hspelled, ofJson, Json.read, ofText_of_spelled hspelled]
  dsimp only
  rw [hread]
  by_cases h : c.tree.depth ≤ 127
  · rw [limited, maxDepth, if_pos h, if_pos h]
    rfl
  · rw [limited, maxDepth, if_neg h, if_neg h]
    rfl

end HostGlue.Catalog
