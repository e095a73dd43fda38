import HostGlue.Proofs.Toml.Lawful
import HostGlue.Settings

/-!
# Reading settings from a table

A record is read entry by entry into a draft. In a table in which no key stands twice, each part of
the draft is what the entry of its name makes it, in whatever order the entries come:

* `Owned`, that a part of a draft is changed by the field of one name only, and `Kept`, that the field
  keeps there what it reads, with what becomes of the part (`Owned.of_absent`, `Kept.of_given`);
* `exists_readEntries`, that a table is read if each known entry is;
* `readPaths_table`, `readProtocol_table`, `readSettings_table` and **`readRoot_table`, what is read of
  tables that give it all**; `of_readPaths`, `of_readSettings` and **`of_readRoot`, what must stand in a
  value that is read**, unless it is an array.
-/

namespace HostGlue.Toml

open Json (bind_eq_ok)
open Shape (Field Record)

/-! ## 1. Entries -/

/-- The value under a key of a table in which no key stands twice. -/
theorem Value.next?_iff {entries : List (String × Value)} (h : (Value.table entries).Distinct)
    {key : String} {v : Value} :
    (Value.table entries).next? (.key key) = some v ↔ (key, v) ∈ entries := by
  rw [Value.next?]
  rw [Value.Distinct] at h
  induction entries with
  | nil => simp
  | cons e es ih =>
    obtain ⟨k, w⟩ := e
    rw [List.map_cons, List.nodup_cons] at h
    rw [List.find?_cons, List.mem_cons, ← ih h.2]
    by_cases hk : k = key
    · subst hk
      have hnone : ¬ (Option.map (fun e => e.2) (es.find? fun e => e.1 == k)) = some v := by
        intro hv
        obtain ⟨e, he, -⟩ := Option.map_eq_some_iff.mp hv
        have hkey := List.find?_some he
        exact h.1 (List.mem_map.mpr ⟨e, List.mem_of_find?_eq_some he, eq_of_beq hkey⟩)
      simp only [beq_self_eq_true, Option.map_some, Option.some.injEq, Prod.mk.injEq, true_and, hnone,
        or_false]
      exact eq_comm
    · have hbeq : (k == key) = false := beq_eq_false_iff_ne.mpr hk
      simp only [hbeq, Prod.mk.injEq, Ne.symm hk, false_and, false_or]

theorem Value.next?_eq_none_iff {entries : List (String × Value)} {key : String} :
    (Value.table entries).next? (.key key) = none ↔ key ∉ entries.map (·.1) := by
  rw [Value.next?, Option.map_eq_none_iff, List.find?_eq_none, List.mem_map]
  constructor
  · rintro h ⟨e, he, rfl⟩
    exact h e he (beq_self_eq_true e.1)
  · intro h e he heq
    exact h ⟨e, he, eq_of_beq heq⟩

/-- A key leads to the value of an entry. -/
theorem Value.mem_of_next? {entries : List (String × Value)} {key : String} {v : Value}
    (h : (Value.table entries).next? (.key key) = some v) : (key, v) ∈ entries := by
  obtain ⟨e, he, rfl⟩ := Option.map_eq_some_iff.mp h
  have hkey : (e.1 == key) = true :=
    @List.find?_some _ (fun e : String × Value => e.1 == key) e entries he
  exact eq_of_beq hkey ▸ List.mem_of_find?_eq_some he

section Entries

variable {δ β : Type} {r : Record Value Error δ}

/-- A field of a record bears the name it is found by. -/
theorem of_field? {name : String} {f : Field Value Error δ} (h : r.field? name = some f) :
    f ∈ r.fields ∧ f.name = name := by
  have hname : (f.name == name) = true :=
    @List.find?_some _ (fun f : Field Value Error δ => f.name == name) f r.fields h
  exact ⟨List.mem_of_find?_eq_some h, eq_of_beq hname⟩

/-- What was read of a table began with an entry, or the first entry was passed over. -/
theorem of_readEntries_cons {name : String} {v : Value} {es : List (String × Value)} {d d' : δ}
    (h : readEntries r ((name, v) :: es) d = .ok d') :
    (r.field? name = none ∧ readEntries r es d = .ok d') ∨
      ∃ f d₁, r.field? name = some f ∧ f.fill v d = .ok d₁ ∧ readEntries r es d₁ = .ok d' := by
  rw [readEntries] at h
  cases hf : r.field? name with
  | none =>
    rw [hf] at h
    exact .inl ⟨rfl, h⟩
  | some f =>
    rw [hf] at h
    obtain ⟨d₁, hd₁, hrest⟩ := bind_eq_ok.mp h
    exact .inr ⟨f, d₁, rfl, hd₁, hrest⟩

/-- **A table is read if each field takes the entry of its name.** -/
theorem exists_readEntries {es : List (String × Value)} (hes : (Value.table es).Distinct)
    (h : ∀ f ∈ r.fields, ∀ v, (Value.table es).next? (.key f.name) = some v →
      ∀ d, ∃ d', f.fill v d = .ok d') (d : δ) : ∃ d', readEntries r es d = .ok d' := by
  have hentries : ∀ e ∈ es, ∀ f, r.field? e.1 = some f → ∀ d, ∃ d', f.fill e.2 d = .ok d' := by
    intro e he f hf
    obtain ⟨hmem, hname⟩ := of_field? hf
    refine h f hmem e.2 ?_
    rw [hname]
    exact (Value.next?_iff hes).mpr he
  clear h hes
  induction es generalizing d with
  | nil => exact ⟨d, rfl⟩
  | cons e es ih =>
    obtain ⟨name, v⟩ := e
    obtain ⟨hentry, hrest⟩ := List.forall_mem_cons.mp hentries
    rw [readEntries]
    cases hf : r.field? name with
    | none => exact ih d hrest
    | some f =>
      obtain ⟨d₁, hd₁⟩ := hentry f hf d
      obtain ⟨d', hd'⟩ := ih d₁ hrest
      exact ⟨d', bind_eq_ok.mpr ⟨d₁, hd₁, hd'⟩⟩

/-- Each entry of a known name was read. -/
theorem exists_fill {name : String} {f : Field Value Error δ} (hf : r.field? name = some f)
    {v : Value} : ∀ {es : List (String × Value)} {d d' : δ}, (name, v) ∈ es →
      readEntries r es d = .ok d' → ∃ d₁ d₂, f.fill v d₁ = .ok d₂
  | [], _, _, hmem, _ => by cases hmem
  | (n, w) :: es, d, d', hmem, h => by
      have hstep := of_readEntries_cons h
      rcases List.mem_cons.mp hmem with heq | hmem
      · cases heq
        rcases hstep with ⟨hnone, -⟩ | ⟨f', d₁, hf', hfill, -⟩
        · rw [hf] at hnone
          cases hnone
        · rw [hf] at hf'
          cases hf'
          exact ⟨d, d₁, hfill⟩
      · rcases hstep with ⟨-, h⟩ | ⟨_, _, -, -, h⟩
        · exact exists_fill hf hmem h
        · exact exists_fill hf hmem h

/-- A part of a draft that no field but that of one name changes. -/
def Owned (r : Record Value Error δ) (name : String) (get : δ → β) : Prop :=
  ∀ f ∈ r.fields, f.name ≠ name → ∀ v d d', f.fill v d = .ok d' → get d' = get d

/-- A part stays as it was if there is no entry of its name. -/
theorem Owned.of_absent {name : String} {get : δ → β} (hr : Owned r name get) :
    ∀ {es : List (String × Value)} {d d' : δ}, name ∉ es.map (·.1) →
      readEntries r es d = .ok d' → get d' = get d
  | [], _, _, _, h => by
      cases h
      rfl
  | (n, v) :: es, d, d', hname, h => by
      rw [List.map_cons, List.mem_cons, not_or] at hname
      rcases of_readEntries_cons h with ⟨-, h⟩ | ⟨f, d₁, hf, hfill, h⟩
      · exact hr.of_absent hname.2 h
      · obtain ⟨hmem, hfield⟩ := of_field? hf
        have hother : f.name ≠ name := hfield ▸ Ne.symm hname.1
        exact (hr.of_absent hname.2 h).trans (hr f hmem hother v d d₁ hfill)

/-- **A part is what the entry of its name makes it**, wherever the entry stands. -/
theorem Owned.of_given {name : String} {get : δ → β} (hr : Owned r name get)
    {f : Field Value Error δ} (hf : r.field? name = some f) {v : Value} {b : β}
    (hfill : ∀ d d', f.fill v d = .ok d' → get d' = b) : ∀ {es : List (String × Value)} {d d' : δ},
      (es.map (·.1)).Nodup → (name, v) ∈ es → readEntries r es d = .ok d' → get d' = b
  | [], _, _, _, hmem, _ => by cases hmem
  | (n, w) :: es, d, d', hnodup, hmem, h => by
      rw [List.map_cons, List.nodup_cons] at hnodup
      have hstep := of_readEntries_cons h
      rcases List.mem_cons.mp hmem with heq | hmem
      · cases heq
        rcases hstep with ⟨hnone, -⟩ | ⟨f', d₁, hf', hd₁, h⟩
        · rw [hf] at hnone
          cases hnone
        · rw [hf] at hf'
          cases hf'
          exact (hr.of_absent hnodup.1 h).trans (hfill d d₁ hd₁)
      · rcases hstep with ⟨-, h⟩ | ⟨_, _, -, -, h⟩
        · exact hr.of_given hf hfill hnodup.2 hmem h
        · exact hr.of_given hf hfill hnodup.2 hmem h

/-- A field keeps what it reads in its own part of a draft. -/
structure Kept (r : Record Value Error δ) (name : String) (get : δ → Option β)
    (read : Value → Except Error β) : Prop where
  owned : Owned r name get
  field : ∃ (f : Field Value Error δ) (put : β → δ → δ), r.field? name = some f ∧
    (∀ v d, f.fill v d = (read v).bind fun b => .ok (put b d)) ∧ ∀ b d, get (put b d) = some b

/-- What is kept is what was read of the entry. -/
theorem Kept.of_given {name : String} {get : δ → Option β} {read : Value → Except Error β}
    (hr : Kept r name get read) {es : List (String × Value)} (hes : (Value.table es).Distinct)
    {v : Value} {b : β} (hv : (Value.table es).next? (.key name) = some v) (hb : read v = .ok b)
    {d d' : δ} (h : readEntries r es d = .ok d') : get d' = some b := by
  obtain ⟨f, put, hf, hfill, hget⟩ := hr.field
  refine hr.owned.of_given hf (fun d d' hd => ?_) hes (Value.mem_of_next? hv) h
  rw [hfill, hb] at hd
  cases hd
  exact hget b d

/-- Where something is kept, there is an entry of which it was read. -/
theorem Kept.of_some {name : String} {get : δ → Option β} {read : Value → Except Error β}
    (hr : Kept r name get read) {es : List (String × Value)} {d d' : δ} {b : β}
    (h : readEntries r es d = .ok d') (hd : get d = none) (hd' : get d' = some b) :
    ∃ v b, (Value.table es).next? (.key name) = some v ∧ read v = .ok b := by
  cases hv : (Value.table es).next? (.key name) with
  | none =>
    rw [hr.owned.of_absent (Value.next?_eq_none_iff.mp hv) h, hd] at hd'
    cases hd'
  | some v =>
    obtain ⟨f, put, hf, hfill, -⟩ := hr.field
    obtain ⟨d₁, d₂, hd₂⟩ := exists_fill hf (Value.mem_of_next? hv) h
    rw [hfill] at hd₂
    cases hread : read v with
    | error e =>
      rw [hread] at hd₂
      cases hd₂
    | ok b => exact ⟨v, b, rfl, hread⟩

/-- What is kept of a value that is no array was read of an entry of it. -/
theorem Kept.of_readRecord {name : String} {get : δ → Option β} {read : Value → Except Error β}
    (hr : Kept r name get read) {v : Value} (hv : ∀ items, v ≠ .array items) {d d' : δ} {b : β}
    (h : readRecord r d v = .ok d') (hd : get d = none) (hd' : get d' = some b) :
    ∃ w b, v.next? (.key name) = some w ∧ read w = .ok b := by
  cases v with
  | table es => exact hr.of_some h hd hd'
  | moment =>
    cases h
    rw [hd] at hd'
    cases hd'
  | array items => exact absurd rfl (hv items)
  | text | integer | float | bool => cases h

end Entries

theorem of_require {α : Type} {name : String} {a? : Option α} {a : α}
    (h : require name a? = .ok a) : a? = some a := by
  cases a? with
  | none => cases h
  | some b =>
    cases h
    rfl

/-! ## 2. The paths -/

/-- A field of a record of two fields is the first or the second. -/
theorem owned_of_pair {δ β γ : Type} {name : String} {f g : Field Value Error δ} {get : δ → β}
    {get' : δ → γ} (hf : ∀ v d d', f.fill v d = .ok d' → get' d' = get' d)
    (hg : ∀ v d d', g.fill v d = .ok d' → get d' = get d) :
    Owned ⟨name, [f, g]⟩ f.name get ∧ Owned ⟨name, [f, g]⟩ g.name get' := by
  constructor
  · intro x hx hname v d d' h
    rcases (List.mem_cons.trans (or_congr_right List.mem_singleton)).mp hx with rfl | rfl
    · exact absurd rfl hname
    · exact hg v d d' h
  · intro x hx hname v d d' h
    rcases (List.mem_cons.trans (or_congr_right List.mem_singleton)).mp hx with rfl | rfl
    · exact hf v d d' h
    · exact absurd rfl hname

/-- The catalog and the output are kept. -/
theorem kept_paths : Kept pathsRecord "catalog" PathsDraft.catalog readText ∧
    Kept pathsRecord "output" PathsDraft.output readText := by
  have howned : Owned pathsRecord "catalog" PathsDraft.catalog ∧
      Owned pathsRecord "output" PathsDraft.output := by
    refine owned_of_pair (fun v d d' h => ?_) fun v d d' h => ?_ <;>
    · obtain ⟨s, -, hd⟩ := bind_eq_ok.mp h
      cases hd
      rfl
  exact ⟨⟨howned.1, _, fun s d => { d with catalog := some s }, rfl,
      fun _ _ => rfl, fun _ _ => rfl⟩,
    ⟨howned.2, _, fun s d => { d with output := some s }, rfl,
      fun _ _ => rfl, fun _ _ => rfl⟩⟩

/-- **The paths of a table are the strings under their names.** -/
theorem readPaths_table {es : List (String × Value)} (hes : (Value.table es).Distinct)
    {catalog output : String}
    (hcatalog : (Value.table es).next? (.key "catalog") = some (.text catalog))
    (houtput : (Value.table es).next? (.key "output") = some (.text output)) :
    readPaths (.table es) = .ok (catalog, output) := by
  have hfields : ∀ f ∈ pathsRecord.fields, ∀ v,
      (Value.table es).next? (.key f.name) = some v → ∀ d, ∃ d', f.fill v d = .ok d' := by
    intro f hf v hv d
    simp only [pathsRecord, List.mem_cons, List.not_mem_nil, or_false] at hf
    rcases hf with rfl | rfl
    · rw [hcatalog] at hv
      cases hv
      exact ⟨_, rfl⟩
    · rw [houtput] at hv
      cases hv
      exact ⟨_, rfl⟩
  obtain ⟨d, hd⟩ := exists_readEntries hes hfields {}
  refine bind_eq_ok.mpr ⟨d, hd, ?_⟩
  rw [kept_paths.1.of_given hes hcatalog rfl hd, kept_paths.2.of_given hes houtput rfl hd]
  rfl

/-- Where paths are read, there is an entry for each, unless they stand in an array. -/
theorem of_readPaths {v : Value} {p : String × String} (h : readPaths v = .ok p)
    (hv : ∀ items, v ≠ .array items) :
    v.next? (.key "catalog") ≠ none ∧ v.next? (.key "output") ≠ none := by
  obtain ⟨d, hd, h⟩ := bind_eq_ok.mp h
  obtain ⟨catalog, hcatalog, h⟩ := bind_eq_ok.mp h
  obtain ⟨output, houtput, -⟩ := bind_eq_ok.mp h
  obtain ⟨a, -, ha, -⟩ := kept_paths.1.of_readRecord hv hd rfl (of_require hcatalog)
  obtain ⟨b, -, hb, -⟩ := kept_paths.2.of_readRecord hv hd rfl (of_require houtput)
  rw [ha, hb]
  exact ⟨nofun, nofun⟩

/-! ## 3. The protocol -/

/-- A protocol with some settings given, and the standard values for the others. -/
def protocolOf (given : Protocol.Setting → Option String) : Protocol where
  instanceKey := (given .instanceKey).getD ({} : Protocol).instanceKey
  constructorKey := (given .constructorKey).getD ({} : Protocol).constructorKey
  initializeEntry := (given .initializeEntry).getD ({} : Protocol).initializeEntry
  stringDecoder := (given .stringDecoder).getD ({} : Protocol).stringDecoder
  dynCall := (given .dynCall).getD ({} : Protocol).dynCall

theorem get_protocolOf (given : Protocol.Setting → Option String) (x : Protocol.Setting) :
    (protocolOf given).get x = (given x).getD (({} : Protocol).get x) := by
  cases x <;> rfl

theorem ext_get {p q : Protocol} (h : ∀ x, p.get x = q.get x) : p = q := by
  obtain ⟨a, b, c, d, e⟩ := p
  have hfields := And.intro (h .instanceKey) (And.intro (h .constructorKey)
    (And.intro (h .initializeEntry) (And.intro (h .stringDecoder) (h .dynCall))))
  obtain ⟨rfl, rfl, rfl, rfl, rfl⟩ := hfields
  rfl

/-- The name of a field of the protocol is that of a setting, and the field changes this setting. -/
theorem of_protocolField {f : Field Value Error Protocol} (hf : f ∈ protocolRecord.fields) :
    ∃ y put, f = protocolField y put ∧
      (∀ s p, Protocol.get (put s p) y = s) ∧ ∀ s p x, x ≠ y → Protocol.get (put s p) x = p.get x := by
  simp only [protocolRecord, List.mem_cons, List.not_mem_nil, or_false] at hf
  rcases hf with rfl | rfl | rfl | rfl | rfl <;>
    exact ⟨_, _, rfl, fun _ _ => rfl, fun _ _ x hx => by cases x <;> first | rfl | exact absurd rfl hx⟩

/-- Each setting has a field. -/
theorem field?_protocol (x : Protocol.Setting) : ∃ put,
    protocolRecord.field? x.name = some (protocolField x put) ∧
      ∀ s p, Protocol.get (put s p) x = s := by
  cases x <;> exact ⟨_, rfl, fun _ _ => rfl⟩

theorem owned_setting (x : Protocol.Setting) :
    Owned protocolRecord x.name fun p => p.get x := by
  intro f hf hname v d d' h
  obtain ⟨y, put, rfl, -, hothers⟩ := of_protocolField hf
  obtain ⟨s, -, hd⟩ := bind_eq_ok.mp h
  cases hd
  exact hothers s d x fun heq => hname (heq ▸ rfl)

/-- **The protocol of a table has the strings under the names of its settings**, and the standard
    values where there are none. -/
theorem readProtocol_table {es : List (String × Value)} (hes : (Value.table es).Distinct)
    {given : Protocol.Setting → Option String}
    (hgiven : ∀ x, (Value.table es).next? (.key x.name) = (given x).map .text) :
    readProtocol (.table es) = .ok (protocolOf given) := by
  have hfields : ∀ f ∈ protocolRecord.fields, ∀ v,
      (Value.table es).next? (.key f.name) = some v → ∀ d, ∃ d', f.fill v d = .ok d' := by
    intro f hf v hv d
    obtain ⟨y, put, rfl, -⟩ := of_protocolField hf
    obtain ⟨s, -, rfl⟩ := Option.map_eq_some_iff.mp ((hgiven y).symm.trans hv)
    exact ⟨_, rfl⟩
  obtain ⟨p, hp⟩ := exists_readEntries hes hfields {}
  have hget : ∀ x, p.get x = (protocolOf given).get x := by
    intro x
    rw [get_protocolOf]
    have hx := hgiven x
    cases hs : given x with
    | none =>
      rw [hs] at hx
      exact (owned_setting x).of_absent (Value.next?_eq_none_iff.mp hx) hp
    | some s =>
      rw [hs] at hx
      obtain ⟨put, hfield, hput⟩ := field?_protocol x
      refine (owned_setting x).of_given hfield (fun d d' h => ?_) hes
        ((Value.next?_iff hes).mp hx) hp
      cases h
      exact hput s d
  rw [← ext_get hget]
  exact hp

/-! ## 4. The settings -/

/-- The paths and the protocol are kept. -/
theorem kept_settings : Kept settingsRecord "paths" SettingsDraft.paths readPaths ∧
    Kept settingsRecord "protocol" SettingsDraft.protocol readProtocol := by
  have howned : Owned settingsRecord "paths" SettingsDraft.paths ∧
      Owned settingsRecord "protocol" SettingsDraft.protocol := by
    refine owned_of_pair (fun v d d' h => ?_) fun v d d' h => ?_ <;>
    · obtain ⟨s, -, hd⟩ := bind_eq_ok.mp h
      cases hd
      rfl
  exact ⟨⟨howned.1, _, fun paths d => { d with paths := some paths }, rfl,
      fun _ _ => rfl, fun _ _ => rfl⟩,
    ⟨howned.2, _, fun p d => { d with protocol := some p }, rfl,
      fun _ _ => rfl, fun _ _ => rfl⟩⟩

/-- **The settings of a table are the paths under their name, and the protocol under its own**, or the
    standard one. -/
theorem readSettings_table {es : List (String × Value)} (hes : (Value.table es).Distinct)
    {paths : Value} {catalog output : String}
    (hpaths : (Value.table es).next? (.key "paths") = some paths)
    (hread : readPaths paths = .ok (catalog, output)) {p : Protocol}
    (hprotocol : match (Value.table es).next? (.key "protocol") with
      | some v => readProtocol v = .ok p
      | none => p = {}) :
    readSettings (.table es) = .ok ⟨catalog, output, p⟩ := by
  have hfields : ∀ f ∈ settingsRecord.fields, ∀ v,
      (Value.table es).next? (.key f.name) = some v → ∀ d, ∃ d', f.fill v d = .ok d' := by
    intro f hf v hv d
    simp only [settingsRecord, List.mem_cons, List.not_mem_nil, or_false] at hf
    rcases hf with rfl | rfl
    · rw [hpaths] at hv
      cases hv
      exact ⟨_, bind_eq_ok.mpr ⟨_, hread, rfl⟩⟩
    · rw [show (Value.table es).next? (.key "protocol") = some v from hv] at hprotocol
      exact ⟨_, bind_eq_ok.mpr ⟨_, hprotocol, rfl⟩⟩
  obtain ⟨d, hd⟩ := exists_readEntries hes hfields {}
  have hkept : d.protocol.getD {} = p := by
    cases hv : (Value.table es).next? (.key "protocol") with
    | none =>
      rw [hv] at hprotocol
      rw [kept_settings.2.owned.of_absent (Value.next?_eq_none_iff.mp hv) hd, hprotocol]
      rfl
    | some v =>
      rw [hv] at hprotocol
      rw [kept_settings.2.of_given hes hv hprotocol hd]
      rfl
  refine bind_eq_ok.mpr ⟨d, hd, ?_⟩
  rw [kept_settings.1.of_given hes hpaths hread hd, hkept]
  rfl

/-- Where settings are read, there are paths that are read, unless they stand in an array. -/
theorem of_readSettings {v : Value} {s : Settings} (h : readSettings v = .ok s)
    (hv : ∀ items, v ≠ .array items) :
    ∃ w p, v.next? (.key "paths") = some w ∧ readPaths w = .ok p := by
  obtain ⟨d, hd, h⟩ := bind_eq_ok.mp h
  obtain ⟨paths, hpaths, -⟩ := bind_eq_ok.mp h
  exact kept_settings.1.of_readRecord hv hd rfl (of_require hpaths)

/-! ## 5. The whole document -/

/-- Reads the settings of a whole document. -/
def readRoot (v : Value) : Except Error Settings := do
  let d ← readRecord rootRecord {} v
  require "codegen" d.settings

/-- The settings are kept. -/
theorem kept_root : Kept rootRecord "codegen" RootDraft.settings readSettings where
  owned := by
    intro f hf hname
    rw [rootRecord, List.mem_singleton] at hf
    exact absurd (congrArg Field.name hf) hname
  field := ⟨_, fun s d => { d with settings := some s }, rfl,
    fun _ _ => rfl, fun _ _ => rfl⟩

/-- **What is read of a document are the settings under their name.** -/
theorem readRoot_table {es : List (String × Value)} (hes : (Value.table es).Distinct) {v : Value}
    (hv : (Value.table es).next? (.key "codegen") = some v) {s : Settings}
    (hread : readSettings v = .ok s) : readRoot (.table es) = .ok s := by
  have hfields : ∀ f ∈ rootRecord.fields, ∀ w,
      (Value.table es).next? (.key f.name) = some w → ∀ d, ∃ d', f.fill w d = .ok d' := by
    intro f hf w hw d
    rw [rootRecord, List.mem_singleton] at hf
    subst hf
    rw [hv] at hw
    cases hw
    exact ⟨_, bind_eq_ok.mpr ⟨_, hread, rfl⟩⟩
  obtain ⟨d, hd⟩ := exists_readEntries hes hfields {}
  refine bind_eq_ok.mpr ⟨d, hd, ?_⟩
  rw [kept_root.of_given hes hv hread hd]
  rfl

/-- Where a document is read, there are settings that are read. -/
theorem of_readRoot {v : Value} {s : Settings} (h : readRoot v = .ok s)
    (hv : ∀ items, v ≠ .array items) :
    ∃ w s, v.next? (.key "codegen") = some w ∧ readSettings w = .ok s := by
  obtain ⟨d, hd, h⟩ := bind_eq_ok.mp h
  exact kept_root.of_readRecord hv hd rfl (of_require h)

end HostGlue.Toml
