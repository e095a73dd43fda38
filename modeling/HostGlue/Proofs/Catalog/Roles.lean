import HostGlue.Catalog.Reading
import Mathlib.Data.List.Pairwise

/-!
# What the values of a catalog text stand for

Every value of a catalog text that is read stands for something, and how it is read depends on that
alone. This file fixes

* `Role`, what a value can stand for, with the type of what is read (`Role.Value`) and the reader
  (`Role.read`);
* the tables of the format: the known keys of an object and what their values stand for
  (`Role.fields`), the keys that must be there (`Role.required`), and the elements of a list
  (`Role.item?`);
* `Layout`, how the objects of a role are read: a draft with a slot for each known key, where slots do
  not meddle with each other. **Every role with known keys has a layout** (`Role.exists_layout`), so
  what is proved of layouts holds of all five records.
-/

namespace HostGlue.Json

/-! ## 1. Roles -/

/-- What a value of a catalog text stands for. -/
inductive Role where
  | text
  | code
  | direction
  | ty
  | signature
  | param
  | params
  | external
  | externs
  | kind
  | kinds
  | catalog
  deriving DecidableEq

namespace Role

/-- What the values of a role are read as. -/
abbrev Value : Role → Type
  | text => String
  | code => Int32
  | direction => Direction
  | ty => Ty
  | signature => Ty
  | param => Param
  | params => List Param
  | external => Extern
  | externs => List Extern
  | kind => BufferKind
  | kinds => List BufferKind
  | catalog => Catalog

/-- The reader of a role, at the depth that is left. -/
def read : (ρ : Role) → Nat → Tree → Result ρ.Value
  | text, _ => readText
  | code, _ => readInt32
  | direction, depth => readDirection depth
  | ty, depth => readTy depth
  | signature, depth => readCallback depth
  | param, depth => readParam depth
  | params, depth => readParams depth
  | external, depth => readExtern depth
  | externs, depth => readExterns depth
  | kind, depth => readBufferKind depth
  | kinds, depth => readBufferKinds depth
  | catalog, depth => readCatalog depth

/-- The known keys of the objects of a role, in the order of declaration, and what their values stand
    for. -/
def fields : Role → List (String × Role)
  | catalog => [("functions", externs), ("buffer_kinds", kinds)]
  | external => [("name", text), ("owner", text), ("params", params), ("return", ty)]
  | param => [("name", text), ("type", ty), ("direction", direction)]
  | signature => [("params", params), ("return", ty)]
  | kind => [("code", code), ("name", text)]
  | _ => []

/-- The keys that an object of a role must have. -/
def required : Role → List String
  | catalog => ["functions"]
  | external => ["name"]
  | param => ["name", "type"]
  | kind => ["code", "name"]
  | _ => []

/-- What the elements of an array stand for, if the array is a list. -/
def item? : Role → Option Role
  | params => some param
  | externs => some external
  | kinds => some kind
  | _ => none

end Role

/-! ## 2. Layouts -/

/-- The place of a draft that the value of a known key goes to. -/
structure Slot (δ : Type) where
  name : String
  role : Role
  required : Bool
  filled : δ → Bool
  put : role.Value → δ → δ

namespace Slot

variable {δ : Type}

/-- The field of a record that a slot makes, at a depth. -/
def field (depth : Nat) (s : Slot δ) : Shape.Field Tree Error δ where
  name := s.name
  required := s.required
  filled := s.filled
  fill v d := do
    let a ← s.role.read depth v
    return s.put a d

/-- Two slots do not meddle with each other. -/
structure Apart (s s' : Slot δ) : Prop where
  names : s.name ≠ s'.name
  filled : ∀ a d, s.filled (s'.put a d) = s.filled d
  filled' : ∀ a d, s'.filled (s.put a d) = s'.filled d
  commute : ∀ a b d, s.put a (s'.put b d) = s'.put b (s.put a d)

instance : Std.Symm (@Apart δ) where
  symm _ _ h := ⟨h.names.symm, h.filled', h.filled, fun a b d => (h.commute b a d).symm⟩

end Slot

/-- How the objects of a role are read. -/
structure Layout (ρ : Role) where
  Draft : Type
  title : String
  slots : List (Slot Draft)
  start : Draft
  build : Draft → Result ρ.Value
  fields : slots.map (fun s => (s.name, s.role)) = ρ.fields
  required : (slots.filter (·.required)).map (·.name) = ρ.required
  apart : slots.Pairwise Slot.Apart
  fills : ∀ s ∈ slots, ∀ a d, s.filled (s.put a d) = true
  fresh : ∀ s ∈ slots, s.filled start = false
  complete : ∀ d a, build d = .ok a → ∀ s ∈ slots, s.required = true → s.filled d = true
  read_zero : ∀ t, ρ.read 0 t = .error (tooDeep (.record title) t)
  read_succ : ∀ depth t, ρ.read (depth + 1) t =
    readRecord ⟨title, slots.map (Slot.field depth)⟩ start t >>= build

namespace Layout

/-- A required value that a draft was built from was there. -/
theorem of_require {α : Type} {name : String} {a : Option α} {x : α}
    (h : require name a = .ok x) : a.isSome = true := by
  cases a with
  | none => cases h
  | some a => rfl

/-- The layout of catalogs. -/
def catalog : Layout .catalog where
  Draft := CatalogDraft
  title := "Catalog"
  slots :=
    [⟨"functions", .externs, true, (·.externs.isSome), fun a d => { d with externs := some a }⟩,
     ⟨"buffer_kinds", .kinds, false, (·.bufferKinds.isSome),
       fun a d => { d with bufferKinds := some a }⟩]
  start := {}
  build := CatalogDraft.build
  fields := rfl
  required := rfl
  apart := by
    simp only [List.pairwise_cons, List.forall_mem_cons]
    exact ⟨⟨⟨by decide, fun _ _ => rfl, fun _ _ => rfl, fun _ _ _ => rfl⟩, nofun⟩, nofun, .nil⟩
  fills := by
    simp only [List.forall_mem_cons]
    exact ⟨fun _ _ => rfl, fun _ _ => rfl, nofun⟩
  fresh := by
    simp only [List.forall_mem_cons]
    exact ⟨rfl, rfl, nofun⟩
  complete := by
    intro d a h
    obtain ⟨externs, he, -⟩ := bind_eq_ok.mp h
    simp only [List.forall_mem_cons]
    exact ⟨fun _ => of_require he, nofun, nofun⟩
  read_zero _ := rfl
  read_succ _ _ := rfl

/-- The layout of externs. -/
def external : Layout .external where
  Draft := ExternDraft
  title := "FunctionDescriptor"
  slots :=
    [⟨"name", .text, true, (·.name.isSome), fun a d => { d with name := some a }⟩,
     ⟨"owner", .text, false, (·.owner.isSome), fun a d => { d with owner := some a }⟩,
     ⟨"params", .params, false, (·.params.isSome), fun a d => { d with params := some a }⟩,
     ⟨"return", .ty, false, (·.result.isSome), fun a d => { d with result := some a }⟩]
  start := {}
  build := ExternDraft.build
  fields := rfl
  required := rfl
  apart := by
    simp only [List.pairwise_cons, List.forall_mem_cons]
    refine ⟨⟨?_, ?_, ?_, nofun⟩, ⟨?_, ?_, nofun⟩, ⟨?_, nofun⟩, nofun, .nil⟩
    all_goals exact ⟨by decide, fun _ _ => rfl, fun _ _ => rfl, fun _ _ _ => rfl⟩
  fills := by
    simp only [List.forall_mem_cons]
    exact ⟨fun _ _ => rfl, fun _ _ => rfl, fun _ _ => rfl, fun _ _ => rfl, nofun⟩
  fresh := by
    simp only [List.forall_mem_cons]
    exact ⟨rfl, rfl, rfl, rfl, nofun⟩
  complete := by
    intro d a h
    obtain ⟨name, hn, -⟩ := bind_eq_ok.mp h
    simp only [List.forall_mem_cons]
    exact ⟨fun _ => of_require hn, nofun, nofun, nofun, nofun⟩
  read_zero _ := rfl
  read_succ _ _ := rfl

/-- The layout of parameters. -/
def param : Layout .param where
  Draft := ParamDraft
  title := "ParameterDescriptor"
  slots :=
    [⟨"name", .text, true, (·.name.isSome), fun a d => { d with name := some a }⟩,
     ⟨"type", .ty, true, (·.ty.isSome), fun a d => { d with ty := some a }⟩,
     ⟨"direction", .direction, false, (·.direction.isSome),
       fun a d => { d with direction := some a }⟩]
  start := {}
  build := ParamDraft.build
  fields := rfl
  required := rfl
  apart := by
    simp only [List.pairwise_cons, List.forall_mem_cons]
    refine ⟨⟨?_, ?_, nofun⟩, ⟨?_, nofun⟩, nofun, .nil⟩
    all_goals exact ⟨by decide, fun _ _ => rfl, fun _ _ => rfl, fun _ _ _ => rfl⟩
  fills := by
    simp only [List.forall_mem_cons]
    exact ⟨fun _ _ => rfl, fun _ _ => rfl, fun _ _ => rfl, nofun⟩
  fresh := by
    simp only [List.forall_mem_cons]
    exact ⟨rfl, rfl, rfl, nofun⟩
  complete := by
    intro d a h
    obtain ⟨name, hn, h⟩ := bind_eq_ok.mp h
    obtain ⟨ty, ht, -⟩ := bind_eq_ok.mp h
    simp only [List.forall_mem_cons]
    exact ⟨fun _ => of_require hn, fun _ => of_require ht, nofun, nofun⟩
  read_zero _ := rfl
  read_succ _ _ := rfl

/-- The layout of the signatures of callbacks. -/
def signature : Layout .signature where
  Draft := CallbackDraft
  title := "CallbackSignature"
  slots :=
    [⟨"params", .params, false, (·.params.isSome), fun a d => { d with params := some a }⟩,
     ⟨"return", .ty, false, (·.result.isSome), fun a d => { d with result := some a }⟩]
  start := {}
  build d := .ok d.build
  fields := rfl
  required := rfl
  apart := by
    simp only [List.pairwise_cons, List.forall_mem_cons]
    exact ⟨⟨⟨by decide, fun _ _ => rfl, fun _ _ => rfl, fun _ _ _ => rfl⟩, nofun⟩, nofun, .nil⟩
  fills := by
    simp only [List.forall_mem_cons]
    exact ⟨fun _ _ => rfl, fun _ _ => rfl, nofun⟩
  fresh := by
    simp only [List.forall_mem_cons]
    exact ⟨rfl, rfl, nofun⟩
  complete := by
    intro d a _
    simp only [List.forall_mem_cons]
    exact ⟨nofun, nofun, nofun⟩
  read_zero _ := rfl
  read_succ _ _ := rfl

/-- The layout of buffer kinds. -/
def kind : Layout .kind where
  Draft := BufferKindDraft
  title := "BufferElementKind"
  slots :=
    [⟨"code", .code, true, (·.code.isSome), fun a d => { d with code := some a }⟩,
     ⟨"name", .text, true, (·.name.isSome), fun a d => { d with name := some a }⟩]
  start := {}
  build := BufferKindDraft.build
  fields := rfl
  required := rfl
  apart := by
    simp only [List.pairwise_cons, List.forall_mem_cons]
    exact ⟨⟨⟨by decide, fun _ _ => rfl, fun _ _ => rfl, fun _ _ _ => rfl⟩, nofun⟩, nofun, .nil⟩
  fills := by
    simp only [List.forall_mem_cons]
    exact ⟨fun _ _ => rfl, fun _ _ => rfl, nofun⟩
  fresh := by
    simp only [List.forall_mem_cons]
    exact ⟨rfl, rfl, nofun⟩
  complete := by
    intro d a h
    obtain ⟨code, hc, h⟩ := bind_eq_ok.mp h
    obtain ⟨name, hn, -⟩ := bind_eq_ok.mp h
    simp only [List.forall_mem_cons]
    exact ⟨fun _ => of_require hc, fun _ => of_require hn, nofun⟩
  read_zero _ := rfl
  read_succ _ _ := rfl

end Layout

/-- **Every role with known keys has a layout.** -/
theorem Role.exists_layout {ρ : Role} (h : ρ.fields ≠ []) : Nonempty (Layout ρ) := by
  cases ρ with
  | catalog => exact ⟨.catalog⟩
  | external => exact ⟨.external⟩
  | param => exact ⟨.param⟩
  | signature => exact ⟨.signature⟩
  | kind => exact ⟨.kind⟩
  | _ => exact absurd rfl h

end HostGlue.Json
