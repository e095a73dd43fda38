import HostGlue.Proofs.Document.Registration

/-!
# The owner of an extern is for diagnostics only

An extern has an owner, which no check looks at and no entry holds. Two lists of externs that differ in
their owners at most are gone through side by side:

* `Extern.ownedBy` and `GlueError.ownedBy`, an extern and an error with another owner, and
  `Extern.SameButOwner`;
* `Entry.of_owned`: an extern with another owner has the same entry, or is refused for the same reason
  with the other owner in it;
* `Accepts.owned` and `Refuses.owned`, the same along a list of externs;
* **`generate_owner_free`: catalogs that differ in their owners at most have the same document**, or the
  same error up to the owner, which is that of the first extern to blame.
-/

namespace HostGlue

/-! ## 1. Other owners -/

/-- The extern with another owner. -/
def Extern.ownedBy (owner : String) (e : Extern) : Extern := { e with owner := owner }

/-- The error with another owner, if it names one. -/
def GlueError.ownedBy (owner : String) : GlueError → GlueError
  | .unsupportedType function _ cause => .unsupportedType function owner cause
  | .malformedStatus function _ fault => .malformedStatus function owner fault
  | .badInitializer function _ fault => .badInitializer function owner fault
  | .invalidIdentifier name (.entry function _) objection =>
    .invalidIdentifier name (.entry function owner) objection
  | err => err

/-- Two externs that differ in their owners at most. -/
structure Extern.SameButOwner (e e' : Extern) : Prop where
  name : e.name = e'.name
  params : e.params = e'.params
  result : e.result = e'.result

/-- Two catalogs that differ in the owners of their externs at most. -/
structure Catalog.SameButOwners (c c' : Catalog) : Prop where
  externs : List.Forall₂ Extern.SameButOwner c.externs c'.externs
  bufferKinds : c.bufferKinds = c'.bufferKinds

theorem Extern.SameButOwner.eq_ownedBy {e e' : Extern} (h : SameButOwner e e') :
    e' = e.ownedBy e'.owner := by
  obtain ⟨name, owner, params, result⟩ := e'
  obtain ⟨rfl, rfl, rfl⟩ := h
  rfl

/-! ## 2. Entries -/

namespace Entry

variable (ctx : Context) (owner : String) (e : Extern)

theorem bindingError?_owned (locals : List String) :
    bindingError? locals ctx (e.ownedBy owner) =
      (bindingError? locals ctx e).map (GlueError.ownedBy owner) := by
  unfold bindingError?
  change (if !Ident.isIdentifier e.name then _ else _) = _
  split
  · rfl
  · rw [Option.map_map]
    rfl

theorem Ordinary.error?_owned :
    error? ctx (e.ownedBy owner) = (error? ctx e).map (GlueError.ownedBy owner) := by
  have hstatus : statusFault? (e.ownedBy owner) = statusFault? e := rfl
  have hparams : (e.ownedBy owner).params = e.params := rfl
  unfold error?
  rw [hstatus, hparams, bindingError?_owned]
  cases statusFault? e with
  | some fault => rfl
  | none =>
    dsimp only
    cases storageFault? e.params <;> rfl

/-- No trampoline holds the owner. -/
theorem Trampoline.of_owned (x : String) (p : Param) :
    Trampoline.of ctx (e.ownedBy owner) x p =
      (Trampoline.of ctx e x p).mapError (GlueError.ownedBy owner) := by
  have hparams : (e.ownedBy owner).params = e.params := rfl
  unfold Trampoline.of
  rw [hparams]
  cases p.ty with
  | plain t => rfl
  | callback params result =>
    dsimp only
    split
    · rfl
    · cases callSignature result params <;> rfl

theorem trampolines_owned : ∀ xs : List (String × Param),
    trampolines ctx (e.ownedBy owner) xs =
      (trampolines ctx e xs).mapError (GlueError.ownedBy owner)
  | [] => rfl
  | (x, p) :: xs => by
      rw [trampolines, trampolines, Trampoline.of_owned, trampolines_owned xs]
      cases Trampoline.of ctx e x p with
      | error err => rfl
      | ok t => cases trampolines ctx e xs <;> rfl

theorem Initializer.of_owned :
    of ctx (e.ownedBy owner) =
      ((of ctx e).map fun i => ⟨e.ownedBy owner, i.trampolines⟩).mapError
        (GlueError.ownedBy owner) := by
  have hparams : (e.ownedBy owner).params = e.params := rfl
  unfold of
  rw [bindingError?_owned, hparams, trampolines_owned]
  cases bindingError? Ident.initializerLocals ctx e with
  | some err => rfl
  | none =>
    dsimp only [Option.map]
    split
    · rfl
    · cases Entry.trampolines ctx e (trampolineNames.zip e.params) <;> rfl

/-- **An extern with another owner has the same entry.** -/
theorem of_owned_ok {entry : Entry ctx} (h : Entry.of ctx e = .ok entry) :
    ∃ entry', Entry.of ctx (e.ownedBy owner) = .ok entry' ∧ entry'.code = entry.code ∧
      entry'.record = entry.record := by
  unfold Entry.of at h ⊢
  change ∃ entry', ofKind ctx (kindOf ctx e.name) (e.ownedBy owner) = .ok entry' ∧ _
  cases hkind : kindOf ctx e.name with
  | ordinary =>
    rw [hkind, ofKind] at h
    cases herr : Ordinary.error? ctx e with
    | some err => rw [Ordinary.of_of_some herr] at h; cases h
    | none =>
      have howned : Ordinary.error? ctx (e.ownedBy owner) = none := by
        rw [Ordinary.error?_owned, herr]
        rfl
      rw [Ordinary.of_of_none herr] at h
      cases h
      rw [ofKind, Ordinary.of_of_none howned]
      exact ⟨_, rfl, rfl, rfl⟩
  | initializer =>
    rw [hkind, ofKind] at h
    rw [ofKind, Initializer.of_owned]
    cases hi : Initializer.of ctx e with
    | error err => rw [hi] at h; cases h
    | ok i =>
      rw [hi] at h
      cases h
      obtain ⟨rfl, -⟩ := Initializer.shape hi
      exact ⟨_, rfl, rfl, rfl⟩

/-- **An extern with another owner is refused for the same reason**, with that owner in it. -/
theorem of_owned_error {err : GlueError} (h : Entry.of ctx e = .error err) :
    Entry.of ctx (e.ownedBy owner) = .error (err.ownedBy owner) := by
  unfold Entry.of at h ⊢
  change ofKind ctx (kindOf ctx e.name) (e.ownedBy owner) = _
  cases hkind : kindOf ctx e.name with
  | ordinary =>
    rw [hkind, ofKind] at h
    cases herr : Ordinary.error? ctx e with
    | none => rw [Ordinary.of_of_none herr] at h; cases h
    | some err' =>
      have howned : Ordinary.error? ctx (e.ownedBy owner) = some (err'.ownedBy owner) := by
        rw [Ordinary.error?_owned, herr]
        rfl
      rw [Ordinary.of_of_some herr] at h
      cases h
      rw [ofKind, Ordinary.of_of_some howned]
      rfl
  | initializer =>
    rw [hkind, ofKind] at h
    rw [ofKind, Initializer.of_owned]
    cases hi : Initializer.of ctx e with
    | ok i => rw [hi] at h; cases h
    | error err' =>
      rw [hi] at h
      cases h
      rfl

end Entry

/-! ## 3. Documents -/

namespace Document

variable {ctx : Context}

/-- Externs are accepted whoever owns them, with the same entries. -/
theorem Accepts.owned {seen : List String} {es : List Extern} {entries : List (Entry ctx)}
    (h : Accepts ctx seen es entries) : ∀ {es' : List Extern},
    List.Forall₂ Extern.SameButOwner es es' → ∃ entries', Accepts ctx seen es' entries' ∧
      entries'.map Entry.code = entries.map Entry.code ∧
      entries'.map Entry.record = entries.map Entry.record := by
  induction h with
  | nil seen =>
    intro es' hes
    cases hes
    exact ⟨[], .nil seen, rfl, rfl⟩
  | @cons seen e es entry entries fresh accepted _ ih =>
    intro es' hes
    cases hes with
    | @cons _ e' _ es' he hes =>
      obtain ⟨entry', hof, hcode, hrecord⟩ := Entry.of_owned_ok ctx e'.owner e accepted
      obtain ⟨entries', haccepts, hcodes, hrecords⟩ := ih hes
      rw [← he.eq_ownedBy] at hof
      rw [he.name] at fresh haccepts
      refine ⟨entry' :: entries', .cons fresh hof haccepts, ?_, ?_⟩
      · rw [List.map_cons, List.map_cons, hcode, hcodes]
      · rw [List.map_cons, List.map_cons, hrecord, hrecords]

/-- An extern is refused whoever owns it. The error names the owner, or none. -/
theorem Refuses.owned {seen : List String} {e e' : Extern} {err : GlueError}
    (h : Refuses ctx seen e err) (he : e.SameButOwner e') :
    Refuses ctx seen e' (err.ownedBy e'.owner) := by
  cases h with
  | duplicate before =>
    change Refuses ctx seen e' (.duplicateFunction e.name)
    rw [he.name]
    exact .duplicate (he.name ▸ before)
  | faulty fresh refused =>
    have hof := Entry.of_owned_error ctx e'.owner e refused
    rw [← he.eq_ownedBy] at hof
    exact .faulty (he.name ▸ fresh) hof

/-- Of two errors of one extern there is one. -/
theorem Refuses.unique {seen : List String} {e : Extern} {err err' : GlueError}
    (h : Refuses ctx seen e err) (h' : Refuses ctx seen e err') : err = err' := by
  cases h with
  | duplicate before =>
    cases h' with
    | duplicate => rfl
    | faulty fresh => exact absurd before fresh
  | faulty fresh refused =>
    cases h' with
    | duplicate before => exact absurd before fresh
    | faulty _ refused' =>
      rw [refused] at refused'
      exact Except.error.inj refused'

theorem Refuses.names_owner {seen : List String} {e : Extern} {err : GlueError}
    (h : Refuses ctx seen e err) : err.ownedBy e.owner = err :=
  (h.owned ⟨rfl, rfl, rfl⟩).unique h

/-- Externs that differ in their owners have the same names. -/
theorem names_eq {es es' : List Extern} (h : List.Forall₂ Extern.SameButOwner es es') :
    es.map (·.name) = es'.map (·.name) := by
  induction h with
  | nil => rfl
  | cons he _ ih => rw [List.map_cons, List.map_cons, he.name, ih]

theorem forall₂_append_cons {α β : Type} {R : α → β → Prop} {a : α} {after : List α} :
    ∀ {before : List α} {bs : List β}, List.Forall₂ R (before ++ a :: after) bs →
      ∃ front b back, bs = front ++ b :: back ∧ List.Forall₂ R before front ∧ R a b
  | [], _, h => by
      cases h with
      | @cons _ b _ bs hab _ => exact ⟨[], b, bs, rfl, .nil, hab⟩
  | x :: before, _, h => by
      cases h with
      | @cons _ y _ _ hxy h =>
        obtain ⟨front, b, back, rfl, hfront, hab⟩ := forall₂_append_cons h
        exact ⟨y :: front, b, back, rfl, .cons hxy hfront, hab⟩

/-- **The documents of externs that differ in their owners at most**: they are the same, with the same
    records, or both have the error of the same extern, each with its owner. -/
theorem generate_owned {es es' : List Extern} (h : List.Forall₂ Extern.SameButOwner es es') :
    (generate ctx es).1 = (generate ctx es').1 ∧
    ((∃ document, (generate ctx es).2 = .ok document ∧ (generate ctx es').2 = .ok document) ∨
      ∃ i e e' err, es[i]? = some e ∧ es'[i]? = some e' ∧
        (offence? ctx es i = some err ∧ ∀ j < i, offence? ctx es j = none) ∧
        (offence? ctx es' i = some (err.ownedBy e'.owner) ∧ ∀ j < i, offence? ctx es' j = none) ∧
        err.ownedBy e.owner = err ∧ (generate ctx es).2 = .error err ∧
        (generate ctx es').2 = .error (err.ownedBy e'.owner)) := by
  rcases @accepts_or_refuses ctx [] es with
    ⟨entries, haccepts⟩ | ⟨before, e, after, entries, err, rfl, haccepts, hrefuses⟩
  · obtain ⟨entries', haccepts', hcodes, hrecords⟩ := haccepts.owned h
    rw [generate_of_accepts haccepts, generate_of_accepts haccepts', h.length_eq, hrecords]
    have htext : text entries' = text entries := by rw [text, text, code, code, hcodes]
    exact ⟨rfl, .inl ⟨text entries, rfl, htext ▸ rfl⟩⟩
  · obtain ⟨before', e', after', rfl, hbefore, he⟩ := forall₂_append_cons h
    obtain ⟨entries', haccepts', -, hrecords⟩ := haccepts.owned hbefore
    rw [List.nil_append] at hrefuses
    have hrefuses' := hrefuses.owned he
    rw [names_eq hbefore] at hrefuses'
    rw [generate_of_refuses haccepts hrefuses, generate_of_refuses haccepts' hrefuses', h.length_eq,
      hrecords]
    refine ⟨rfl, .inr ⟨before.length, e, e', err, ?_, ?_, ⟨offence?_of_refuses hrefuses, fun j hj =>
      offence?_of_accepts haccepts hj⟩, ?_, hrefuses.names_owner, rfl, rfl⟩⟩
    · simp
    · simp [hbefore.length_eq]
    · rw [hbefore.length_eq]
      exact ⟨offence?_of_refuses hrefuses', fun j hj => offence?_of_accepts haccepts' hj⟩

end Document

/-- **Owners are for diagnostics only.** Catalogs that differ in the owners of their externs at most
    are generated from alike: the records are the same, and either the documents are, or both have the
    same error about the protocol or the buffer kinds, which names no extern, or both have the error of
    the same extern, the first to blame in both, and the errors agree in all but that each names the
    owner of that extern in its catalog, if it names an owner. -/
theorem Catalog.generate_owner_free (p : Protocol) {c c' : Catalog} (h : c.SameButOwners c') :
    (c.generate p).1 = (c'.generate p).1 ∧
    ((∃ document, (c.generate p).2 = .ok document ∧ (c'.generate p).2 = .ok document) ∨
      (∃ err, Context.error? p c.bufferKinds = some err ∧ (c.generate p).2 = .error err ∧
        (c'.generate p).2 = .error err) ∨
      ∃ ctx : Context, ctx.protocol = p ∧ ctx.kinds = c.bufferKinds ∧
        ∃ i e e' err, c.externs[i]? = some e ∧ c'.externs[i]? = some e' ∧
          (Document.offence? ctx c.externs i = some err ∧
            ∀ j < i, Document.offence? ctx c.externs j = none) ∧
          (Document.offence? ctx c'.externs i = some (err.ownedBy e'.owner) ∧
            ∀ j < i, Document.offence? ctx c'.externs j = none) ∧
          err.ownedBy e.owner = err ∧ (c.generate p).2 = .error err ∧
          (c'.generate p).2 = .error (err.ownedBy e'.owner)) := by
  unfold Catalog.generate Context.of
  rw [← h.bufferKinds]
  split
  · rename_i err hof
    split at hof
    · rename_i herr
      cases hof
      exact ⟨rfl, .inr (.inl ⟨err, herr, rfl, rfl⟩)⟩
    · cases hof
  · rename_i ctx hof
    split at hof
    · cases hof
    · cases hof
      obtain ⟨hrecords, hdocument | hfirst⟩ := Document.generate_owned h.externs
      · exact ⟨hrecords, .inl hdocument⟩
      · exact ⟨hrecords, .inr (.inr ⟨_, rfl, rfl, hfirst⟩)⟩

/-- A catalog whose second extern cannot be an entry, as two owners may declare it. -/
def ownedSample (owner : String) : Catalog :=
  ⟨[⟨"ping", owner, [⟨"status", .plain .i32, .output⟩], .plain .void⟩,
    ⟨"setText", owner, [⟨"status", .plain .u32, .output⟩, ⟨"context", .plain .string, .input⟩],
      .plain .void⟩], []⟩

theorem owner_free_sample :
    (ownedSample "Native.Text").SameButOwners (ownedSample "Native.Store") ∧
    ((ownedSample "Native.Text").generate {}).1 = ((ownedSample "Native.Store").generate {}).1 ∧
    ((ownedSample "Native.Store").generate {}).2 = .error
      (.invalidIdentifier "context" (.entry "setText" "Native.Store") .shadowsGlueLocal) := by
  have hsame : (ownedSample "Native.Text").SameButOwners (ownedSample "Native.Store") :=
    ⟨.cons ⟨rfl, rfl, rfl⟩ (.cons ⟨rfl, rfl, rfl⟩ .nil), rfl⟩
  have hfails : ((ownedSample "Native.Text").generate {}).2 = .error
      (.invalidIdentifier "context" (.entry "setText" "Native.Text") .shadowsGlueLocal) := by
    decide +kernel
  obtain ⟨hrecords, hdocument | hcontext | hfirst⟩ := Catalog.generate_owner_free {} hsame
  · obtain ⟨document, hmade, -⟩ := hdocument
    rw [hfails] at hmade
    cases hmade
  · obtain ⟨err, hnone, -⟩ := hcontext
    have hsound : Context.error? {} (ownedSample "Native.Text").bufferKinds = none := by decide
    rw [hsound] at hnone
    cases hnone
  · obtain ⟨ctx, -, -, i, e, e', err, -, he', -, -, -, herr, herr'⟩ := hfirst
    have howner : e'.owner = "Native.Store" := by
      have hmem := List.mem_of_getElem? he'
      rw [ownedSample, List.mem_cons, List.mem_singleton] at hmem
      rcases hmem with rfl | rfl <;> rfl
    rw [hfails] at herr
    cases herr
    rw [howner] at herr'
    exact ⟨hsame, hrecords, herr'⟩

end HostGlue
