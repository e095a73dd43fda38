import HostGlue.Proofs.Entry.Emission

/-!
# Everything that speaks against an ordinary entry

A check stops at the first thing it finds. Here all that can be said against an extern is listed, in
the order in which it counts and without stopping:

* `nameObjections`, `paramObjections` and `objectionsTo`, all reasons against a name and against the
  names of a parameter list;
* `Ordinary.complaints`, all errors of an extern, and that the check gives the first of them
  (`Ordinary.error?_eq_head?`);
* `Ordinary.Acceptable`, what an extern must be like, and that nothing speaks against it exactly then
  (`Ordinary.error?_eq_none_iff`);
* **`Ordinary.emission_complains`: on any writer an extern is emitted exactly if it is acceptable**, and
  the error is the first complaint otherwise.
-/

namespace HostGlue.Entry

open Ident (Bindable)

/-! ## 1. Cases -/

/-- The cases that apply, in order. -/
def applying {α : Type} (cases : List (Bool × α)) : List α := (cases.filter (·.1)).map (·.2)

theorem head?_applying_cons {α : Type} (b : Bool) (a : α) (cases : List (Bool × α)) :
    (applying ((b, a) :: cases)).head? = if b then some a else (applying cases).head? := by
  cases b <;> rfl

theorem applying_eq_nil_iff {α : Type} : ∀ cases : List (Bool × α),
    applying cases = [] ↔ ∀ c ∈ cases, c.1 = false
  | [] => by simp [applying]
  | (b, a) :: cases => by
      rw [List.forall_mem_cons, ← applying_eq_nil_iff cases]
      cases b <;> simp [applying]

/-! ## 2. Names -/

/-- All that speaks against a name wherever it is bound. -/
def nameObjections (name : String) : List Objection :=
  applying
    [(!Ident.isIdentifier name, .notIdentifier), (Ident.isReserved name, .reservedWord),
      (Ident.hostGlobals.contains name, .shadowsHostGlobal)]

theorem head?_nameObjections (name : String) :
    (nameObjections name).head? = Ident.objection? name := by
  unfold nameObjections Ident.objection?
  simp only [head?_applying_cons]
  rfl

theorem nameObjections_eq_nil_iff (name : String) : nameObjections name = [] ↔
    Ident.isIdentifier name = true ∧ name ∉ Ident.reservedWords ∧ name ∉ Ident.hostGlobals := by
  simp [nameObjections, applying_eq_nil_iff, Ident.isReserved]

/-- All that speaks against a parameter name, behind the names `before`. -/
def paramObjections (locals roots before : List String) (name : String) : List Objection :=
  applying
    [(!Ident.isIdentifier name, .notIdentifier), (Ident.isReserved name, .reservedWord),
      (Ident.hostGlobals.contains name, .shadowsHostGlobal),
      (locals.contains name, .shadowsGlueLocal), (roots.contains name, .shadowsProtocolFunction),
      (before.contains name, .duplicateParam)]

theorem head?_paramObjections (locals roots before : List String) (name : String) :
    (paramObjections locals roots before name).head? = paramObjection? locals roots before name := by
  unfold paramObjections paramObjection? Ident.objection?
  simp only [head?_applying_cons]
  split
  · rfl
  · split
    · rfl
    · split <;> rfl

/-- All that speaks against the names of a list, one name after another. -/
def objectionsTo (objections : List String → String → List Objection) (before : List String) :
    List String → List (String × Objection)
  | [] => []
  | x :: xs => (objections before x).map (x, ·) ++ objectionsTo objections (before ++ [x]) xs

/-- A search for the first objection finds the first of all. -/
theorem head?_objectionsTo {objections : List String → String → List Objection}
    {objection? : List String → String → Option Objection}
    (h : ∀ before x, (objections before x).head? = objection? before x) :
    ∀ before xs, (objectionsTo objections before xs).head? = firstObjection? objection? before xs
  | _, [] => rfl
  | before, x :: xs => by
      rw [objectionsTo, firstObjection?, List.head?_append, List.head?_map, h,
        head?_objectionsTo h (before ++ [x]) xs]
      cases objection? before x <;> rfl

/-- Nothing speaks against the names of a list exactly if each is good and comes once. -/
theorem objectionsTo_eq_nil_iff {objections : List String → String → List Objection}
    {objection? : List String → String → Option Objection} {Good : String → Prop}
    (hhead : ∀ before x, (objections before x).head? = objection? before x)
    (hgood : ∀ seen x, objection? seen x = none ↔ Good x ∧ x ∉ seen) (names : List String) :
    objectionsTo objections [] names = [] ↔ (∀ x ∈ names, Good x) ∧ names.Nodup := by
  rw [← List.head?_eq_none_iff, head?_objectionsTo hhead, firstObjection?_eq_none_iff hgood]
  simp

namespace Ordinary

variable (ctx : Context) (e : Extern)

/-! ## 3. Complaints -/

/-- All that is wrong with the status parameter: there is none in front, it is not of 32 bits, other
    parameters store something as well. -/
def statusComplaints : List StatusFault :=
  applying [(e.status?.isNone, .notLeading)] ++
    ((e.params.take 1).filter fun p => !p.ty.isIntegral32).map (fun p => .notIntegral32 p.name p.ty) ++
    (e.params.tail.filter fun p => p.direction == .output).map fun p => .furtherOutput p.name

/-- All that speaks against an extern as an ordinary entry: its status, types that cannot be stored,
    its own name, the names of its parameters. -/
def complaints : List GlueError :=
  (statusComplaints e).map (.malformedStatus e.name e.owner) ++
    (e.params.filter fun p => p.ty = .plain .void).map
      (fun _ => .unsupportedType e.name e.owner ⟨.plain .void, .storage⟩) ++
    applying [(!Ident.isIdentifier e.name,
      .invalidIdentifier e.name (.entry e.name e.owner) .notIdentifier)] ++
    (objectionsTo (paramObjections Ident.ordinaryLocals ctx.protocol.roots) []
      (e.params.map (·.name))).map fun bad =>
        .invalidIdentifier bad.1 (.entry e.name e.owner) bad.2

theorem status?_of_params {status : Param} {others : List Param}
    (h : e.params = status :: others) :
    e.status? = if status.direction == .output then some status else none := by
  rw [Extern.status?, h, List.head?_cons, Option.filter_some]

theorem head?_statusComplaints : (statusComplaints e).head? = statusFault? e := by
  unfold statusComplaints statusFault?
  simp only [List.head?_append, head?_applying_cons, List.head?_map, List.head?_filter]
  cases hp : e.params with
  | nil => rw [Extern.status?, hp]; rfl
  | cons status others =>
    rw [status?_of_params e hp]
    cases hd : status.direction with
    | input => rfl
    | output =>
      simp only [List.take_one, List.head?_cons, Option.toList_some, List.find?_singleton,
        List.tail_cons, beq_self_eq_true, if_true]
      cases status.ty.isIntegral32 <;> rfl

/-- `void` is the only type without a memory format. -/
theorem storageFault?_eq_head? : ∀ ps : List Param,
    storageFault? ps =
      ((ps.filter fun p => p.ty = .plain .void).map fun _ => ⟨.plain .void, .storage⟩).head?
  | [] => rfl
  | p :: ps => by
      rw [storageFault?, storageFault?_eq_head? ps]
      cases hty : p.ty with
      | callback params result => simp [hty, Ty.storageTag]
      | plain t => cases t <;> simp [hty, Ty.storageTag]

/-- **The check gives the first complaint.** -/
theorem error?_eq_head? : error? ctx e = (complaints ctx e).head? := by
  unfold error? complaints bindingError?
  rw [storageFault?_eq_head?]
  simp only [List.head?_append, List.head?_map, head?_statusComplaints, head?_applying_cons,
    head?_objectionsTo (head?_paramObjections Ident.ordinaryLocals ctx.protocol.roots)]
  cases statusFault? e with
  | some fault => rfl
  | none =>
    cases (e.params.filter fun p => p.ty = .plain .void).head? with
    | some p => rfl
    | none => cases Ident.isIdentifier e.name <;> rfl

/-! ## 4. Acceptable externs -/

/-- What an extern must be like to be an ordinary entry: a leading parameter of 32 bits takes the
    status and all others carry values in, none is `void`, the name can be a property key, and the
    parameters can be bound in the function beside each other, its variables, the host's names and the
    functions of the protocol. -/
structure Acceptable : Prop where
  status : ∃ status others, e.params = status :: others ∧ status.direction = .output ∧
    (status.ty = .plain .i32 ∨ status.ty = .plain .u32) ∧ ∀ p ∈ others, p.direction = .input
  stored : ∀ p ∈ e.params, p.ty ≠ .plain .void
  name : Ident.isIdentifier e.name = true
  distinct : (e.params.map (·.name)).Nodup
  free : ∀ p ∈ e.params, Ident.isIdentifier p.name = true ∧ p.name ∉ Ident.reservedWords ∧
    p.name ∉ Ident.hostGlobals ∧ p.name ∉ Ident.ordinaryLocals ∧
    p.name ∉ [Ident.rootSegment ctx.protocol.stringDecoder, Ident.rootSegment ctx.protocol.dynCall]

theorem statusFault?_eq_none_iff : statusFault? e = none ↔
    ∃ status others, e.params = status :: others ∧ status.direction = .output ∧
      (status.ty = .plain .i32 ∨ status.ty = .plain .u32) ∧ ∀ p ∈ others, p.direction = .input := by
  constructor
  · intro h
    obtain ⟨status, others, hparams, hout, hint, hin⟩ := status_of_statusFault? h
    exact ⟨status, others, hparams, hout, (isIntegral32_iff _).mp hint, hin⟩
  · rintro ⟨status, others, hparams, hout, hint, hin⟩
    have hfind : others.find? (fun p => p.direction == .output) = none := by
      rw [List.find?_eq_none]
      intro p hp
      rw [hin p hp]
      decide
    rw [statusFault?, status?_of_params e hparams, hout, hparams, List.tail_cons, hfind]
    simp [(isIntegral32_iff _).mpr hint]

theorem storageFault?_eq_none_iff (ps : List Param) :
    storageFault? ps = none ↔ ∀ p ∈ ps, p.ty ≠ .plain .void := by
  simp [storageFault?_eq_head?]

/-- **Nothing speaks against an extern exactly if it is acceptable.** -/
theorem error?_eq_none_iff : error? ctx e = none ↔ Acceptable ctx e := by
  have hbound := bindingError?_eq_none_iff Ident.ordinaryLocals ctx e
  unfold error?
  constructor
  · intro h
    split at h
    · cases h
    · rename_i hstatus
      split at h
      · cases h
      · rename_i hstored
        obtain ⟨hname, hfree, hdistinct⟩ := hbound.mp h
        refine ⟨(statusFault?_eq_none_iff e).mp hstatus,
          (storageFault?_eq_none_iff e.params).mp hstored, hname, hdistinct, fun p hp => ?_⟩
        exact Ident.bindable_iff.mp (hfree p.name (List.mem_map_of_mem hp))
  · rintro ⟨hstatus, hstored, hname, hdistinct, hfree⟩
    rw [(statusFault?_eq_none_iff e).mpr hstatus, (storageFault?_eq_none_iff e.params).mpr hstored]
    refine hbound.mpr ⟨hname, fun x hx => ?_, hdistinct⟩
    obtain ⟨p, hp, rfl⟩ := List.mem_map.mp hx
    exact Ident.bindable_iff.mpr (hfree p hp)

/-! ## 5. Emissions -/

theorem failure_emission (w : Writer) : (emission ctx .ordinary e w).failure = error? ctx e := by
  cases h : error? ctx e with
  | some err => rw [emission, ofKind, of_of_some h]; rfl
  | none =>
    have hof : ofKind ctx .ordinary e = .ok (.ordinary ⟨e, h⟩) := by rw [ofKind, of_of_none h]; rfl
    rw [emission_of_ok hof]

/-- **An extern is emitted as an ordinary entry exactly if it is acceptable**, whatever the writer
    holds. If it is not, the error is the first complaint about it: about the status parameter, a type
    that cannot be stored, its name, or the name of a parameter. -/
theorem emission_complains (w : Writer) :
    ((emission ctx .ordinary e w).failure = none ↔ Acceptable ctx e) ∧
      (emission ctx .ordinary e w).failure = (complaints ctx e).head? := by
  rw [failure_emission]
  exact ⟨error?_eq_none_iff ctx e, error?_eq_head? ctx e⟩

end Ordinary

end HostGlue.Entry
