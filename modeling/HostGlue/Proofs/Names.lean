import HostGlue.Entry
import HostGlue.Proofs.Text.Lines

/-!
# Names that passed their checks

Every check on a name is a search for the first reason against it. This file fixes what is known of
names for which the search found nothing:

* an identifier is solid and holds no character that is none of a name (`not_mem_of_isIdentifier`),
  and a dotted path is its segments with a point between them (`Ident.IsPath`);
* `Ident.Bindable`, a name that no variable, host global, reserved word or protocol function takes,
  and `Entry.firstObjection?_eq_none_iff`, that bindable names which come once are what the search
  over a list lets pass;
* what a checked context guarantees (`Context.instanceKey_ne`, `Context.stringDecoder_isPath`, …).
-/

namespace HostGlue

/-! ## 1. Identifiers and paths -/

namespace Ident

open Text (Solid)

theorem isPart_of_isStart {c : Char} (h : isStart c = true) : isPart c = true := by
  simp only [isStart, isPart, Char.isAlphanum, Bool.or_eq_true] at h ⊢
  rcases h with (h | h) | h
  · exact Or.inl (Or.inl (Or.inl h))
  · exact Or.inl (Or.inr h)
  · exact Or.inr h

/-- No identifier begins with a digit. -/
theorem isStart_of_isDigit {c : Char} (h : c.isDigit = true) : isStart c = false := by
  have hdigits : ∀ n < 58, 48 ≤ n → isStart (Char.ofNat n) = false := by decide
  obtain ⟨hlow, hhigh⟩ := Char.isDigit_iff_toNat.mp h
  have hc := hdigits c.toNat (Nat.lt_succ_of_le hhigh) hlow
  rwa [Char.ofNat_toNat] at hc

/-- The characters of an identifier: there is a first one, and all are characters of a name. -/
theorem spellsIdentifier_iff (cs : List Char) :
    spellsIdentifier cs = true ↔
      (∃ c rest, cs = c :: rest ∧ isStart c = true) ∧ ∀ c ∈ cs, isPart c = true := by
  cases cs with
  | nil => simp [spellsIdentifier]
  | cons c cs =>
    simp only [spellsIdentifier, Bool.and_eq_true, List.all_eq_true, List.mem_cons]
    constructor
    · rintro ⟨hc, hcs⟩
      refine ⟨⟨c, cs, rfl, hc⟩, fun d hd => ?_⟩
      rcases hd with rfl | hd
      · exact isPart_of_isStart hc
      · exact hcs d hd
    · rintro ⟨⟨d, rest, e, hd⟩, hall⟩
      obtain ⟨rfl, rfl⟩ := List.cons.inj e
      exact ⟨hd, fun x hx => hall x (Or.inr hx)⟩

/-- What is no character of a name does not stand in an identifier. -/
theorem not_mem_of_isIdentifier {x : String} {d : Char} (h : isIdentifier x = true)
    (hd : isPart d = false) : d ∉ x.toList := by
  intro hm
  have hp := ((spellsIdentifier_iff x.toList).mp h).2 d hm
  rw [hd] at hp
  cases hp

theorem solid_of_spellsIdentifier {cs : List Char} (h : spellsIdentifier cs = true) :
    Solid cs := by
  obtain ⟨⟨c, rest, e, hc⟩, hall⟩ := (spellsIdentifier_iff cs).mp h
  refine ⟨⟨c, rest, e, ?_⟩, fun hm => ?_⟩
  · rintro rfl
    exact absurd hc (by decide)
  · exact absurd (hall _ hm) (by decide)

theorem solid_of_isIdentifier {x : String} (h : isIdentifier x = true) : Solid x.toList :=
  solid_of_spellsIdentifier h

/-- A dotted path: a root and further segments, all of them identifiers, with points between. -/
structure IsPath (path : String) : Prop where
  segments : ∃ root fields, pathSegments path = root :: fields
  identifiers : ∀ s ∈ pathSegments path, isIdentifier s = true

theorem isPath_of_isDottedPath {path : String} (h : isDottedPath path = true) : IsPath path := by
  constructor
  · cases e : Text.split '.' path.toList with
    | nil => exact absurd e (Text.split_ne_nil '.' path.toList)
    | cons part parts => exact ⟨String.ofList part, parts.map String.ofList, by simp [pathSegments, e]⟩
  · intro s hs
    obtain ⟨part, hpart, rfl⟩ := List.mem_map.mp hs
    rw [isIdentifier, String.toList_ofList]
    exact List.all_eq_true.mp h part hpart

/-- The first segment of a path is its root. -/
theorem pathSegments_head {path root : String} {fields : List String}
    (h : pathSegments path = root :: fields) : rootSegment path = root := by
  have hs := Text.head?_split '.' path.toList
  unfold pathSegments at h
  cases e : Text.split '.' path.toList with
  | nil => rw [e] at h; cases h
  | cons part parts =>
    rw [e] at h hs
    have hpart : part = path.toList.takeWhile (· != '.') := Option.some.inj hs
    rw [rootSegment, ← hpart]
    exact (List.cons.inj h).1

/-! ## 2. Reasons against one name -/

theorem not_mem_reservedWords {x : String} (h : isReserved x = false) : x ∉ reservedWords := by
  simpa [isReserved] using h

theorem objection?_eq_none_iff (x : String) :
    objection? x = none ↔
      isIdentifier x = true ∧ isReserved x = false ∧ hostGlobals.contains x = false := by
  unfold objection?
  cases isIdentifier x <;> cases isReserved x <;> cases hostGlobals.contains x <;> simp

/-- A name that can be bound beside these variables and host functions. -/
structure Bindable (locals roots : List String) (x : String) : Prop where
  identifier : isIdentifier x = true
  notReserved : isReserved x = false
  notGlobal : x ∉ hostGlobals
  notLocal : x ∉ locals
  notRoot : x ∉ roots

theorem bindable_iff {locals roots : List String} {x : String} :
    Bindable locals roots x ↔
      isIdentifier x = true ∧ x ∉ reservedWords ∧ x ∉ hostGlobals ∧ x ∉ locals ∧ x ∉ roots := by
  constructor
  · intro h
    exact ⟨h.identifier, not_mem_reservedWords h.notReserved, h.notGlobal, h.notLocal, h.notRoot⟩
  · rintro ⟨hid, hreserved, hglobal, hlocal, hroot⟩
    exact ⟨hid, by simpa [isReserved] using hreserved, hglobal, hlocal, hroot⟩

theorem Bindable.of_objection? {locals roots : List String} {x : String}
    (h : objection? x = none) (hl : x ∉ locals) (hr : x ∉ roots) : Bindable locals roots x := by
  obtain ⟨hi, hres, hg⟩ := (objection?_eq_none_iff x).mp h
  exact ⟨hi, hres, by simpa using hg, hl, hr⟩

theorem Bindable.objection? {locals roots : List String} {x : String}
    (h : Bindable locals roots x) : objection? x = none :=
  (objection?_eq_none_iff x).mpr ⟨h.identifier, h.notReserved, by simpa using h.notGlobal⟩

end Ident

/-! ## 3. Reasons against a list of names -/

namespace Entry

open Ident (Bindable)

theorem paramObjection?_eq_none_iff (locals roots seen : List String) (x : String) :
    paramObjection? locals roots seen x = none ↔ Bindable locals roots x ∧ x ∉ seen := by
  unfold paramObjection?
  cases ho : Ident.objection? x with
  | some o =>
    simp only [reduceCtorEq, false_iff, not_and]
    intro h
    rw [h.objection?] at ho
    cases ho
  | none =>
    simp only [List.contains_iff_mem]
    split
    · rename_i h
      simp only [reduceCtorEq, false_iff, not_and]
      exact fun hb => absurd h hb.notLocal
    · split
      · rename_i h
        simp only [reduceCtorEq, false_iff, not_and]
        exact fun hb => absurd h hb.notRoot
      · rename_i hl hr
        split
        · rename_i h
          simp only [reduceCtorEq, false_iff, not_and]
          exact fun _ => not_not_intro h
        · rename_i hs
          exact ⟨fun _ => ⟨Bindable.of_objection? ho hl hr, hs⟩, fun _ => rfl⟩

/-- An argument of a trampoline is checked as a parameter is, beside the entry's parameters and its
    variables. -/
theorem argumentObjection?_eq_none_iff (params roots seen : List String) (x : String) :
    argumentObjection? params roots seen x = none ↔
      Bindable (params ++ Ident.initializerLocals) roots x ∧ x ∉ seen := by
  rw [← paramObjection?_eq_none_iff]
  unfold argumentObjection? paramObjection?
  cases Ident.objection? x with
  | some o => simp only
  | none =>
    simp only [List.contains_iff_mem, List.mem_append]
    by_cases hp : x ∈ params <;> by_cases hl : x ∈ Ident.initializerLocals <;> simp [hp, hl]

/-- **A search over a list finds nothing exactly if every name passes and comes once**, given that a
    name passes where it is good and did not come before. -/
theorem firstObjection?_eq_none_iff {objection? : List String → String → Option Objection}
    {Good : String → Prop} (hgood : ∀ seen x, objection? seen x = none ↔ Good x ∧ x ∉ seen) :
    ∀ (seen names : List String), firstObjection? objection? seen names = none ↔
      (∀ x ∈ names, Good x) ∧ names.Nodup ∧ ∀ x ∈ names, x ∉ seen
  | seen, [] => by simp [firstObjection?]
  | seen, x :: names => by
      have ih := firstObjection?_eq_none_iff hgood (seen ++ [x]) names
      have hx := hgood seen x
      unfold firstObjection?
      cases ho : objection? seen x with
      | some o =>
        rw [ho] at hx
        simp only [reduceCtorEq, false_iff] at hx ⊢
        rintro ⟨hg, -, hs⟩
        exact hx ⟨hg x List.mem_cons_self, hs x List.mem_cons_self⟩
      | none =>
        obtain ⟨hgx, hsx⟩ := hx.mp ho
        have hsnoc : ∀ y, y ∉ seen ++ [x] ↔ y ∉ seen ∧ y ≠ x := fun y => by
          rw [List.mem_append, List.mem_singleton, not_or]
        simp only [ih, hsnoc, List.nodup_cons, List.mem_cons]
        constructor
        · rintro ⟨hg, hn, hs⟩
          refine ⟨?_, ⟨fun hm => (hs x hm).2 rfl, hn⟩, ?_⟩
          · rintro y (rfl | hy)
            · exact hgx
            · exact hg y hy
          · rintro y (rfl | hy)
            · exact hsx
            · exact (hs y hy).1
        · rintro ⟨hg, ⟨hnx, hn⟩, hs⟩
          refine ⟨fun y hy => hg y (Or.inr hy), hn, fun y hy => ⟨hs y (Or.inr hy), ?_⟩⟩
          rintro rfl
          exact hnx hy

/-- What is known of the names an entry binds. -/
structure Bound (locals : List String) (ctx : Context) (e : Extern) : Prop where
  name : Ident.isIdentifier e.name = true
  params : ∀ x ∈ e.params.map (·.name), Bindable locals ctx.protocol.roots x
  nodup : (e.params.map (·.name)).Nodup

theorem bindingError?_eq_none_iff (locals : List String) (ctx : Context) (e : Extern) :
    bindingError? locals ctx e = none ↔ Bound locals ctx e := by
  have h := firstObjection?_eq_none_iff
    (paramObjection?_eq_none_iff locals ctx.protocol.roots) [] (e.params.map (·.name))
  unfold bindingError?
  cases hn : Ident.isIdentifier e.name with
  | false =>
    simp only [Bool.not_false, if_true, reduceCtorEq, false_iff]
    intro hb
    rw [hb.name] at hn
    cases hn
  | true =>
    simp only [Bool.not_true, Bool.false_eq_true, if_false, Option.map_eq_none_iff]
    rw [h]
    constructor
    · rintro ⟨hp, hnd, -⟩
      exact ⟨hn, hp, hnd⟩
    · intro hb
      exact ⟨hb.params, hb.nodup, fun _ _ => List.not_mem_nil⟩

end Entry

/-! ## 4. Checked contexts -/

namespace Protocol

/-- What is known of a protocol in which no setting is at fault. -/
structure Sound (p : Protocol) : Prop where
  instanceKey_ne : p.instanceKey ≠ ""
  constructorKey_ne : p.constructorKey ≠ ""
  keys_ne : p.instanceKey ≠ p.constructorKey
  initializeEntry : Ident.objection? p.initializeEntry = none
  stringDecoder : Ident.IsPath p.stringDecoder
  dynCall : Ident.IsPath p.dynCall

theorem sound_of_fault? {p : Protocol} (h : p.fault? = none) : p.Sound := by
  unfold fault? at h
  split at h
  · cases h
  · rename_i hi
    split at h
    · cases h
    · rename_i hc
      split at h
      · cases h
      · rename_i hk
        split at h
        · cases h
        · rename_i he
          split at h
          · cases h
          · rename_i hs
            split at h
            · cases h
            · rename_i hd
              exact ⟨hi, hc, hk, he, Ident.isPath_of_isDottedPath (by simpa using hs),
                Ident.isPath_of_isDottedPath (by simpa using hd)⟩

end Protocol

theorem BufferKind.named_of_errorAfter? : ∀ (seen ks : List BufferKind),
    BufferKind.errorAfter? seen ks = none → ∀ k ∈ ks, Ident.objection? k.name = none
  | _, [], _, _, hk => absurd hk List.not_mem_nil
  | seen, k :: ks, h, k', hk => by
      unfold BufferKind.errorAfter? at h
      split at h
      · cases h
      · rename_i ho
        split at h
        · cases h
        · rcases List.mem_cons.mp hk with rfl | hk
          · exact ho
          · exact BufferKind.named_of_errorAfter? (seen ++ [k]) ks h k' hk

namespace Context

variable (ctx : Context)

theorem sound : ctx.protocol.Sound := by
  have h := ctx.accepted
  unfold error? at h
  split at h
  · cases h
  · rename_i hf
    exact Protocol.sound_of_fault? hf

theorem kinds_named : ∀ k ∈ ctx.kinds, Ident.objection? k.name = none := by
  have h := ctx.accepted
  unfold error? at h
  split at h
  · cases h
  · exact BufferKind.named_of_errorAfter? [] ctx.kinds h

/-- The standard protocol with the standard views. -/
def standard : Context := ⟨{}, BufferKind.standard, by decide⟩

end Context

end HostGlue
