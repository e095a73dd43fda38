import HostGlue.Proofs.Toml.Texts

/-!
# What a document says of each place

A document is a row of remarks, each about one site: a header goes through it or declares it, a dotted
key goes through it, a value stands there. Whether a document is lawful is settled site by site, and
the order of its lines counts for nothing but the order of the remarks about one site.

* `Site`, the steps to a place, and `Remark`;
* `Mark`, what stands at a site after some remarks, and **`Mark.take?`, what may be said of it next**;
* `remarks`, what the lines of a document say. An array of tables stands for its last element, so
  the site a path leads to depends on how many elements there were before;
* **`Lawful`: every remark about every site may be made.** A key that is given twice breaks this: of a
  value nothing may be said but that keys go into its table, and a table that was declared, or that
  dotted keys go through, may not be declared again.
-/

namespace HostGlue.Toml

/-! ## 1. Sites and remarks -/

/-- A step to a place: under a key of a table, or to an element of an array. -/
inductive Step where
  | key (key : String)
  | index (i : Nat)
  deriving DecidableEq

/-- A place in a document: the steps that lead there. -/
abbrev Site := List Step

/-- What a value is at its own site. -/
inductive Held where
  | text (s : String)
  | scalar
  | array
  | inline
  deriving DecidableEq

/-- What a document may say of a site: that the path of a header goes through it, that a header
    declares a table there or adds an element to an array of tables, that a dotted key goes through
    it, that a key is put into the table there, by a dotted key or by a plain one, or that a value
    stands there. -/
inductive Remark where
  | passed
  | declared
  | element
  | dotted
  | filled (byDots : Bool)
  | value (held : Held)
  deriving DecidableEq

/-- A remark about a site. -/
structure Said where
  site : Site
  remark : Remark
  deriving DecidableEq

/-- The same remark, about a site below another. -/
def Said.under (front : Site) (s : Said) : Said := ⟨front ++ s.site, s.remark⟩

/-- The remarks about a site, in order. -/
def remarksAt (site : Site) (said : List Said) : List Remark :=
  (said.filter fun s => s.site == site).map (·.remark)

/-! ## 2. What may be said -/

/-- What stands at a site: a table that came about in one of three ways, an array of so many tables, or
    a value. -/
inductive Mark where
  | table (origin : Origin)
  | tables (count : Nat)
  | value (held : Held)
  deriving DecidableEq

/-- What stands at a site after one more remark, if it may be made. A table is declared at most once,
    and not if it came about by dotted keys; dotted keys do not go through declared tables; a table
    of dotted keys takes nothing but dotted keys, any other table nothing but plain ones; a value
    stands where nothing else is said. -/
def Mark.take? : Option Mark → Remark → Option Mark
  | none, .passed => some (.table .implied)
  | none, .declared => some (.table .declared)
  | none, .element => some (.tables 1)
  | none, .dotted => some (.table .dotted)
  | none, .value held => some (.value held)
  | some (.table o), .passed => some (.table o)
  | some (.table .implied), .declared => some (.table .declared)
  | some (.table o), .dotted => if o = .declared then none else some (.table o)
  | some (.table o), .filled byDots => if (o == .dotted) == byDots then some (.table o) else none
  | some (.tables n), .passed => some (.tables n)
  | some (.tables n), .dotted => some (.tables n)
  | some (.tables n), .element => some (.tables (n + 1))
  | some (.value .inline), .filled false => some (.value .inline)
  | _, _ => none

/-- What stands at a site after some remarks, if all of them may be made. -/
def Mark.takeAll? : Option Mark → List Remark → Option (Option Mark)
  | m, [] => some m
  | m, r :: rs => (Mark.take? m r).bind fun m => takeAll? (some m) rs

/-- What stands at a site if there is nothing yet but an empty table. -/
def Mark.fresh (origin : Origin) (site : Site) : Option Mark :=
  if site = [] then some (.table origin) else none

/-- **Every remark about every site may be made.** -/
def Lawful (said : List Said) : Prop :=
  ∀ site, (Mark.takeAll? (Mark.fresh .declared site) (remarksAt site said)).isSome = true

/-! ## 3. What a document says -/

/-- How many elements were added to the array of tables at a site. -/
def elementsAt (said : List Said) (site : Site) : Nat := (remarksAt site said).count .element

/-- The site a path goes on from under a key: the key itself, or the last element of an array of
    tables. -/
def stem (count : Site → Nat) (key : String) : Site :=
  match count [.key key] with
  | 0 => [.key key]
  | n + 1 => [.key key, .index n]

/-- What is said along a path, and what is said at its end. -/
def along (r : Remark) (last : (Site → Nat) → List Said) : List String → (Site → Nat) → List Said
  | [], count => last count
  | key :: path, count =>
    ⟨[.key key], r⟩ ::
      (along r last path fun site => count (stem count key ++ site)).map (Said.under (stem count key))

/-- What a key with a value says, if something is said of the value. -/
def pairRemarks (key : Key) (value : List Said) (count : Site → Nat) : List Said :=
  along .dotted
    (fun _ => ⟨[], .filled !key.1.isEmpty⟩ :: value.map (Said.under [.key key.2])) key.1 count

mutual

/-- What an item says of its own site and those below. -/
def Item.remarks : Item → List Said
  | .text s => [⟨[], .value (.text s)⟩]
  | .scalar _ => [⟨[], .value .scalar⟩]
  | .array items => ⟨[], .value .array⟩ :: Item.elementRemarks 0 items
  | .inline members => ⟨[], .value .inline⟩ :: Item.memberRemarks members
termination_by structural item => item

/-- What the elements of an array say, from an index on. -/
def Item.elementRemarks (i : Nat) : List Item → List Said
  | [] => []
  | item :: items =>
    item.remarks.map (Said.under [.index i]) ++ Item.elementRemarks (i + 1) items
termination_by structural items => items

/-- What the members of an inline table say. -/
def Item.memberRemarks : List (Key × Item) → List Said
  | [] => []
  | m :: ms => Item.memberRemark m ++ Item.memberRemarks ms
termination_by structural members => members

/-- What a member of an inline table says. -/
def Item.memberRemark : Key × Item → List Said
  | (key, item) => pairRemarks key item.remarks fun _ => 0
termination_by structural m => m

end

/-- What a line says, in the section of a header and with so many elements in the arrays of tables. A
    pair goes through the tables of its section. -/
def Line.remarks (owner : List String) (count : Site → Nat) : Line → List Said
  | .table key => along .passed (fun _ => [⟨[.key key.2], .declared⟩]) key.1 count
  | .element key =>
    along .passed
      (fun count => [⟨[.key key.2], .element⟩,
        ⟨[.key key.2, .index (count [.key key.2])], .declared⟩])
      key.1 count
  | .pair key item => along .passed (pairRemarks key item.remarks) owner count

/-- The section of the lines behind a line: the table of the last header. -/
def Line.section (owner : List String) : Line → List String
  | .table key => key.segments
  | .element key => key.segments
  | .pair _ _ => owner

/-- What lines say, behind what was said before. -/
def remarksFrom : List String → List Said → List Line → List Said
  | _, said, [] => said
  | owner, said, line :: lines =>
    remarksFrom (line.section owner) (said ++ line.remarks owner (elementsAt said)) lines

/-- **What a document says.** -/
def remarks (lines : List Line) : List Said := remarksFrom [] [] lines

/-! ## 4. Remarks about one site -/

@[simp] theorem remarksAt_nil (site : Site) : remarksAt site [] = [] := rfl

theorem remarksAt_append (site : Site) (a b : List Said) :
    remarksAt site (a ++ b) = remarksAt site a ++ remarksAt site b := by
  rw [remarksAt, List.filter_append, List.map_append]
  rfl

theorem remarksAt_cons_self (site : Site) (r : Remark) (said : List Said) :
    remarksAt site (⟨site, r⟩ :: said) = r :: remarksAt site said := by
  rw [remarksAt, List.filter_cons, if_pos (beq_self_eq_true site)]
  rfl

theorem remarksAt_cons_ne {site : Site} {s : Said} (h : s.site ≠ site) (said : List Said) :
    remarksAt site (s :: said) = remarksAt site said := by
  rw [remarksAt, List.filter_cons_of_neg (by simpa using h)]
  rfl

/-- What is said below a site is said of the sites below it. -/
theorem remarksAt_under (front site : Site) (said : List Said) :
    remarksAt (front ++ site) (said.map (Said.under front)) = remarksAt site said := by
  rw [remarksAt, List.filter_map, List.map_map, remarksAt]
  congr 1
  refine List.filter_congr fun s _ => ?_
  rw [Bool.eq_iff_iff]
  simp [Said.under]

/-- Nothing is said of a site that no remark is about. -/
theorem remarksAt_eq_nil {site : Site} {said : List Said} (h : ∀ s ∈ said, s.site ≠ site) :
    remarksAt site said = [] := by
  rw [remarksAt, List.map_eq_nil_iff, List.filter_eq_nil_iff]
  intro s hs
  rw [beq_iff_eq]
  exact h s hs

/-- What is said below a site is said of no other. -/
theorem remarksAt_under_ne {front site : Site} (h : ¬ front <+: site) (said : List Said) :
    remarksAt site (said.map (Said.under front)) = [] := by
  refine remarksAt_eq_nil fun s hs => ?_
  obtain ⟨s', -, rfl⟩ := List.mem_map.mp hs
  rintro rfl
  exact h (List.prefix_append front s'.site)

theorem mem_remarksAt {site : Site} {r : Remark} {said : List Said} :
    r ∈ remarksAt site said ↔ ⟨site, r⟩ ∈ said := by
  rw [remarksAt, List.mem_map]
  constructor
  · rintro ⟨s, hs, rfl⟩
    obtain ⟨hmem, hsite⟩ := List.mem_filter.mp hs
    rwa [← eq_of_beq hsite]
  · intro h
    exact ⟨⟨site, r⟩, List.mem_filter.mpr ⟨h, beq_self_eq_true site⟩, rfl⟩

namespace Mark

theorem takeAll?_append (m : Option Mark) : ∀ a b : List Remark,
    takeAll? m (a ++ b) = (takeAll? m a).bind fun m => takeAll? m b
  | [], _ => rfl
  | r :: rs, b => by
      rw [List.cons_append, takeAll?, takeAll?]
      cases take? m r with
      | none => rfl
      | some m' => exact takeAll?_append (some m') rs b

/-- Where a value stands, nothing else is said but which keys its table takes. -/
theorem take?_value {held : Held} {r : Remark} {m : Mark}
    (h : take? (some (.value held)) r = some m) : m = .value held ∧ r = .filled false := by
  cases held <;> cases r <;> simp_all [take?]
  case inline.filled byDots => cases byDots <;> simp_all

/-- A table of dotted keys is gone through, and dotted keys are put into it. -/
theorem take?_dotted {r : Remark} {m : Mark} (h : take? (some (.table .dotted)) r = some m) :
    m = .table .dotted ∧ (r = .passed ∨ r = .dotted ∨ r = .filled true) := by
  cases r <;> simp_all [take?]

/-- A value stands where nothing stood. -/
theorem take?_some_value {m : Mark} {held : Held} : take? (some m) (.value held) = none := by
  rcases m with ⟨_ | _ | _⟩ | _ | ⟨_ | _ | _ | _⟩ <;> rfl

/-- How many elements stand at a site. -/
def count : Option Mark → Nat
  | some (.tables n) => n
  | _ => 0

/-- An element more stands there behind a remark that adds one. -/
theorem count_take? {m : Option Mark} {r : Remark} {m' : Mark} (h : take? m r = some m') :
    count (some m') = (if r = .element then 1 else 0) + count m := by
  rcases m with _ | ⟨_ | _ | _⟩ | n | ⟨_ | _ | _ | _⟩ <;>
    rcases r with _ | _ | _ | _ | ⟨_ | _⟩ | _ <;> simp [take?] at h <;> subst h <;>
    simp [count, Nat.add_comm]

/-- **An array of tables has the elements that were added**, and nothing else has any. -/
theorem count_takeAll? : ∀ {m m' : Option Mark} {rs : List Remark}, takeAll? m rs = some m' →
    count m' = rs.count .element + count m
  | _, _, [], h => by
      cases h
      exact (Nat.zero_add _).symm
  | m, m', r :: rs, h => by
      rw [takeAll?] at h
      obtain ⟨m₁, hr, h⟩ := Option.bind_eq_some_iff.mp h
      rw [count_takeAll? h, count_take? hr, List.count_cons, Nat.add_assoc]
      simp only [beq_iff_eq]

end Mark

/-! ## 5. Parts of a document -/

/-- It is enough to look at the sites that remarks are about. -/
theorem lawful_iff {said : List Said} : Lawful said ↔
    ∀ s ∈ said,
      (Mark.takeAll? (Mark.fresh .declared s.site) (remarksAt s.site said)).isSome = true := by
  constructor
  · exact fun h s _ => h s.site
  · intro h site
    by_cases hsite : ∃ s ∈ said, s.site = site
    · obtain ⟨s, hs, rfl⟩ := hsite
      exact h s hs
    · rw [remarksAt_eq_nil fun s hs heq => hsite ⟨s, hs, heq⟩]
      rfl

instance (said : List Said) : Decidable (Lawful said) := decidable_of_iff' _ lawful_iff

/-- Parts that are about different sites are lawful together. -/
theorem Lawful.append {a b : List Said} (ha : Lawful a) (hb : Lawful b)
    (h : ∀ x ∈ a, ∀ y ∈ b, x.site ≠ y.site) : Lawful (a ++ b) := by
  intro site
  by_cases hsite : ∃ x ∈ a, x.site = site
  · obtain ⟨x, hx, rfl⟩ := hsite
    rw [remarksAt_append, remarksAt_eq_nil fun y hy => (h x hx y hy).symm, List.append_nil]
    exact ha x.site
  · rw [remarksAt_append, remarksAt_eq_nil fun x hx heq => hsite ⟨x, hx, heq⟩]
    exact hb site

/-- Every remark may be made at and below a place where a mark stands. -/
def LawfulUnder (m : Option Mark) (said : List Said) : Prop :=
  ∀ site, (Mark.takeAll? (if site = [] then m else none) (remarksAt site said)).isSome = true

theorem lawfulUnder_nil (m : Option Mark) : LawfulUnder m [] := fun _ => rfl

/-- A remark about the place itself. -/
theorem LawfulUnder.here {m : Option Mark} {m' : Mark} {r : Remark} (hr : Mark.take? m r = some m')
    {said : List Said} (h : LawfulUnder (some m') said) : LawfulUnder m (⟨[], r⟩ :: said) := by
  intro site
  have hsite := h site
  match site with
  | [] =>
    rw [remarksAt_cons_self, if_pos rfl, Mark.takeAll?, hr]
    exact hsite
  | x :: rest =>
    rw [remarksAt_cons_ne (by simp)]
    exact hsite

/-- A remark about a place below, and those about what is there. -/
theorem LawfulUnder.below {m : Option Mark} {m' : Mark} {r : Remark}
    (hr : Mark.take? none r = some m') {said : List Said} (h : LawfulUnder (some m') said) (x : Step) :
    LawfulUnder m (⟨[x], r⟩ :: said.map (Said.under [x])) := by
  intro site
  match site with
  | [] =>
    rw [remarksAt_cons_ne (by simp), remarksAt_under_ne (by simp)]
    rfl
  | y :: rest =>
    by_cases hy : y = x
    · subst hy
      have hunder := remarksAt_under [y] rest said
      rw [List.singleton_append] at hunder
      have hrest := h rest
      match rest with
      | [] =>
        rw [remarksAt_cons_self, hunder, if_neg (by simp), Mark.takeAll?, hr]
        exact hrest
      | z :: rest =>
        rw [remarksAt_cons_ne (by simp), hunder]
        exact hrest
    · rw [remarksAt_cons_ne (by simp [Ne.symm hy]), remarksAt_under_ne (by simp [Ne.symm hy])]
      rfl

/-- What is said along dotted keys, where nothing was said before. -/
theorem lawfulUnder_along {last : (Site → Nat) → List Said}
    (h : LawfulUnder (some (.table .dotted)) (last fun _ => 0)) (path : List String) :
    LawfulUnder (some (.table .dotted)) (along .dotted last path fun _ => 0) := by
  induction path with
  | nil => exact h
  | cons key path ih => exact ih.below rfl (.key key)

end HostGlue.Toml
