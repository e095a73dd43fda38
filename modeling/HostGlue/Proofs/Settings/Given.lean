import HostGlue.Proofs.Settings.Records

/-!
# What a document gives of the settings

* `Gives`, that a document gives the two paths and some settings of the protocol, and `Lacks`, that
  it does not give what it must;
* **`readRoot_given`: the settings a document gives are read**, and the others have their standard
  values;
* **`readRoot_lacking`: a document that lacks what it must give is refused.**

The settings and the paths may also be given as arrays, by position and without their keys. `Lacks`
is not about documents that do so.
-/

namespace HostGlue.Settings

open Toml

/-! ## 1. Sites -/

/-- Where the settings are. -/
def site : Site := [.key "codegen"]

/-- Where the two paths are. -/
def pathsSite : Site := site ++ [.key "paths"]

/-- Where the protocol is. -/
def protocolSite : Site := site ++ [.key "protocol"]

/-- **A document gives the settings**: the two paths as strings, and some settings of the protocol as
    strings, without saying anything of the others. The protocol is a table if it is given at all. -/
structure Gives (said : List Said) (catalog output : String)
    (given : Protocol.Setting → Option String) : Prop where
  catalog : ⟨pathsSite ++ [.key "catalog"], .value (.text catalog)⟩ ∈ said
  output : ⟨pathsSite ++ [.key "output"], .value (.text output)⟩ ∈ said
  settings : ∀ x s, given x = some s → ⟨protocolSite ++ [.key x.name], .value (.text s)⟩ ∈ said
  absent : ∀ x, given x = none → remarksAt (protocolSite ++ [.key x.name]) said = []
  table : ∀ r ∈ remarksAt protocolSite said, ∀ held ∈ r.held?, held = .inline

/-- A document does not say that an array is at a site. -/
def NoArray (said : List Said) (site : Site) : Prop :=
  ∀ r ∈ remarksAt site said, r.held? ≠ some .array

instance (said : List Said) (site : Site) : Decidable (NoArray said site) :=
  inferInstanceAs (Decidable (∀ r ∈ remarksAt site said, r.held? ≠ some .array))

/-- **A document lacks what it must give**: it says nothing of the settings, of the paths in them, or
    of one of the two. -/
inductive Lacks (said : List Said) : Prop where
  | settings (silent : remarksAt site said = [])
  | paths (byName : NoArray said site) (silent : remarksAt pathsSite said = [])
  | catalog (byName : NoArray said site) (pathsByName : NoArray said pathsSite)
      (silent : remarksAt (pathsSite ++ [.key "catalog"]) said = [])
  | output (byName : NoArray said site) (pathsByName : NoArray said pathsSite)
      (silent : remarksAt (pathsSite ++ [.key "output"]) said = [])

/-! ## 2. What is read -/

/-- A step behind others. -/
theorem at?_concat : ∀ (v : Value) (front : Site) (x : Step),
    v.at? (front ++ [x]) = (v.at? front).bind fun w => w.next? x
  | v, [], x => by
      rw [List.nil_append, Value.at?, Value.at?, Option.bind_some]
      cases v.next? x <;> rfl
  | v, y :: front, x => by
      rw [List.cons_append, Value.at?, Value.at?, Option.bind_assoc]
      exact congrArg (Option.bind _) (funext fun w => at?_concat w front x)

/-- What has an entry is a table. -/
theorem table_of_next? {v w : Value} {key : String} (h : v.next? (.key key) = some w) :
    ∃ es, v = .table es := by
  cases v with
  | table es => exact ⟨es, rfl⟩
  | text | integer | float | bool | moment | array => cases h

variable {lines : List Toml.Line} {t : Table}

/-- What a document gives of the protocol is what stands there. -/
theorem Gives.setting {catalog output : String} {given : Protocol.Setting → Option String}
    (hgives : Gives (remarks lines) catalog output given) (h : build lines = some t)
    (x : Protocol.Setting) :
    t.value.at? (protocolSite ++ [.key x.name]) = (given x).map .text := by
  cases hx : given x with
  | none => exact at?_eq_none h (by simp) (hgives.absent x hx)
  | some s => exact at?_text h (hgives.settings x s hx)

/-- The protocol that stands there is read as the one that is given. Where none stands, the standard
    one is. -/
theorem Gives.protocol {catalog output : String} {given : Protocol.Setting → Option String}
    (hgives : Gives (remarks lines) catalog output given) (h : build lines = some t) :
    match t.value.at? protocolSite with
    | some v => readProtocol v = .ok (protocolOf given)
    | none => protocolOf given = {} := by
  have hsetting := hgives.setting h
  cases hv : t.value.at? protocolSite with
  | none =>
    -- settings stand in the protocol, so none are given
    refine ext_get fun x => ?_
    have hx := hsetting x
    rw [at?_concat, hv, Option.bind_none] at hx
    rw [get_protocolOf, Option.map_eq_none_iff.mp hx.symm]
    rfl
  | some v =>
    obtain ⟨r, hr, hheld⟩ := said_of_at? h (by simp [protocolSite]) hv
    have htable := hgives.table r hr v.held hheld
    cases v with
    | table es =>
      refine readProtocol_table (distinct_of_build h hv) fun x => ?_
      rw [← hsetting x, at?_concat, hv, Option.bind_some]
    | text | integer | float | bool | moment | array => cases htable

/-- **The settings a document gives are read**, and the others have their standard values. -/
theorem readRoot_given {catalog output : String} {given : Protocol.Setting → Option String}
    (h : build lines = some t) (hgives : Gives (remarks lines) catalog output given) :
    readRoot t.value = .ok ⟨catalog, output, protocolOf given⟩ := by
  have hcatalog := at?_text h hgives.catalog
  have houtput := at?_text h hgives.output
  rw [at?_concat] at hcatalog houtput
  obtain ⟨p, hp, hc⟩ := Option.bind_eq_some_iff.mp hcatalog
  rw [hp, Option.bind_some] at houtput
  have hpdistinct := distinct_of_build h hp
  rw [pathsSite, at?_concat] at hp
  obtain ⟨g, hg, hgp⟩ := Option.bind_eq_some_iff.mp hp
  have hgdistinct := distinct_of_build h hg
  have hprotocol : t.value.at? protocolSite = g.next? (.key "protocol") := by
    rw [protocolSite, at?_concat, hg, Option.bind_some]
  have hroot : t.value.next? (.key "codegen") = some g := (at?_concat t.value [] _).symm.trans hg
  have hrootdistinct := distinct_of_build h (show t.value.at? [] = some t.value from rfl)
  obtain ⟨roots, hroots⟩ := table_of_next? hroot
  obtain ⟨ges, rfl⟩ := table_of_next? hgp
  obtain ⟨pes, rfl⟩ := table_of_next? hc
  rw [hroots] at hroot hrootdistinct ⊢
  have hread := hgives.protocol h
  rw [hprotocol] at hread
  exact readRoot_table hrootdistinct hroot
    (readSettings_table hgdistinct hgp (readPaths_table hpdistinct hc houtput) hread)

/-- Where no array is said to be, there is none. -/
theorem not_array (h : build lines = some t) {front : Site} (hne : front ≠ [])
    (hsaid : NoArray (remarks lines) front) {v : Value} (hv : t.value.at? front = some v)
    (items : List Value) : v ≠ .array items := by
  rintro rfl
  obtain ⟨r, hr, hheld⟩ := said_of_at? h hne hv
  exact hsaid r hr hheld

/-- **A document that lacks what it must give is refused.** -/
theorem readRoot_lacking (h : build lines = some t) (hlacks : Lacks (remarks lines)) :
    ∃ e, readRoot t.value = .error e := by
  cases hread : readRoot t.value with
  | error e => exact ⟨e, rfl⟩
  | ok s =>
    exfalso
    have hnone : ∀ {front : Site} {x : Step}, remarksAt (front ++ [x]) (remarks lines) = [] →
        ∀ {v : Value}, t.value.at? front = some v → v.next? x = none := by
      intro front x hsilent v hv
      have hsite := at?_eq_none h (by simp) hsilent
      rwa [at?_concat, hv, Option.bind_some] at hsite
    obtain ⟨g, s', hg, hsettings⟩ := of_readRoot hread (by cases t; exact nofun)
    have hgsite : t.value.at? site = some g := (at?_concat t.value [] _).trans hg
    have hpaths : NoArray (remarks lines) site → ∃ w p, t.value.at? pathsSite = some w ∧
        g.next? (.key "paths") = some w ∧ readPaths w = .ok p := by
      intro hbyName
      obtain ⟨w, p, hw, hp⟩ := of_readSettings hsettings
        (not_array h (by simp [site]) hbyName hgsite)
      refine ⟨w, p, ?_, hw, hp⟩
      rw [pathsSite, at?_concat, hgsite, Option.bind_some, hw]
    have hentries : NoArray (remarks lines) site → NoArray (remarks lines) pathsSite →
        ∃ w, t.value.at? pathsSite = some w ∧ w.next? (.key "catalog") ≠ none ∧
          w.next? (.key "output") ≠ none := by
      intro hbyName hpathsByName
      obtain ⟨w, p, hw, -, hp⟩ := hpaths hbyName
      exact ⟨w, hw, of_readPaths hp (not_array h (by simp [pathsSite]) hpathsByName hw)⟩
    cases hlacks with
    | settings silent =>
      rw [@hnone [] (.key "codegen") silent _ rfl] at hg
      cases hg
    | paths byName silent =>
      obtain ⟨w, p, -, hw, -⟩ := hpaths byName
      rw [hnone silent hgsite] at hw
      cases hw
    | catalog byName pathsByName silent =>
      obtain ⟨w, hw, hcatalog, -⟩ := hentries byName pathsByName
      exact hcatalog (hnone silent hw)
    | output byName pathsByName silent =>
      obtain ⟨w, hw, -, houtput⟩ := hentries byName pathsByName
      exact houtput (hnone silent hw)

end HostGlue.Settings
