import HostGlue.Proofs.Toml.Values

/-!
# A document is what the remarks of its lines say

* `sound_declare` and `sound_push`, what the two kinds of headers change and say;
* `Line.Within`, the lines of which no value is nested too deep and no key too long, and
  `follows_line`, that such a line is followed by what it says;
* **`follows_build`: within the limits, the table of a row of lines is followed by what the lines say.**
  So there is one exactly if the lines are lawful (`exists_build`, `lawful_of_build`), and a line
  beyond the limits leaves none (`within_of_build`).
-/

namespace HostGlue.Toml

/-! ## 1. Headers -/

/-- How a table came about does not change what stands below it. -/
theorem Table.at?_origin (t : Table) (origin : Origin) (x : Step) (site : Site) :
    ({ t with origin := origin } : Table).at? (x :: site) = t.at? (x :: site) := by
  cases x <;> rfl

/-- A table that was not there or only implied is marked as a declared one. -/
theorem follows_declared {marks : Site → Option Mark} {t c : Table} {key : String}
    (h : Agrees marks t) (horigin : c.origin = .declared) (hdistinct : c.Distinct)
    (hstep : Mark.take? (marks [.key key]) .declared = some (.table .declared))
    (hfits : ∀ x site, Fits (marks (.key key :: x :: site)) (c.at? (x :: site))) :
    Follows marks [⟨[.key key], .declared⟩] (some ((t.erase key).put key (.table c))) := by
  refine follows_of_puts (m := fun site => if site = [] then some (.table .declared) else
      marks (.key key :: site)) h (Table.puts_erase h.root.2 key (.table c))
    ((below_under key [] []).cons [] .declared) (fun site => ?_) fun site => ?_
  · cases site with
    | nil =>
      rw [remarksAt_cons_self, Mark.takeAll?, hstep]
      rfl
    | cons x site =>
      rw [remarksAt_cons_ne (by simp)]
      rfl
  · cases site with
    | nil =>
      rw [if_pos rfl, ← horigin]
      exact .table hdistinct
    | cons x site => exact hfits x site

/-- **The header of a table** is followed by its declaration. -/
theorem sound_declare (key : String) :
    Sound (declare? key) (fun _ => [⟨[.key key], .declared⟩]) := by
  intro t marks count hagrees _
  rw [declare?, Builder.reopened?]
  cases hf : t.find? key with
  | none =>
    have hmark := hagrees.absent hf
    refine follows_declared (c := .empty .declared) hagrees rfl (Table.distinct_empty _)
      (by rw [hmark]; rfl) fun x site => ?_
    rw [hmark]
    exact agrees_empty .declared (x :: site)
  | some n =>
    cases n with
    | leaf v =>
      refine follows_refused ?_ []
      rw [hagrees.leaf hf]
      cases v.held <;> rfl
    | tables ts =>
      refine follows_refused ?_ []
      rw [(hagrees.tables hf).1]
      rfl
    | table c =>
      obtain ⟨hmark, hdistinct⟩ := hagrees.table hf
      dsimp only
      split
      · rename_i horigin
        rw [beq_iff_eq] at horigin
        refine follows_declared (c := { c with origin := .declared }) hagrees rfl hdistinct ?_
          fun x site => ?_
        · rw [hmark, horigin]
          rfl
        · rw [Table.at?_origin]
          exact hagrees.under hf (x :: site)
      · rename_i horigin
        refine follows_refused ?_ []
        rw [hmark]
        cases ho : c.origin with
        | implied => exact absurd ho (by simpa using horigin)
        | declared => rfl
        | dotted => rfl

/-- Marks say which tables are the elements under a key, none if nothing stands there, and that one
    more may be added. -/
structure Elements (marks : Site → Option Mark) (key : String) (ts : List Table) : Prop where
  taken : Mark.take? (marks [.key key]) .element = some (.tables (ts.length + 1))
  fits : ∀ i site, Fits (marks (.key key :: .index i :: site)) (ts[i]?.bind fun t => t.at? site)
  keys : ∀ k site, marks (.key key :: .key k :: site) = none

theorem Agrees.noElements {marks : Site → Option Mark} {t : Table} (h : Agrees marks t)
    {key : String} (hf : t.find? key = none) : Elements marks key [] := by
  have hmark := h.absent hf
  refine ⟨by rw [hmark]; rfl, fun i site => ?_, fun k site => hmark _⟩
  rw [hmark]
  exact .absent

theorem Agrees.elements {marks : Site → Option Mark} {t : Table} (h : Agrees marks t)
    {key : String} {ts : List Table} (hf : t.find? key = some (.tables ts)) :
    Elements marks key ts := by
  refine ⟨by rw [(h.tables hf).1]; rfl, fun i site => ?_, fun k site => ?_⟩
  · rw [← Spot.at?_tables]
    exact h.under hf (.index i :: site)
  · exact (h.under hf (.key k :: site)).eq_none

/-- The marks under a key where an empty table is added behind `n` elements. -/
def marksPushed (key : String) (n : Nat) (marks : Site → Option Mark) : Site → Option Mark
  | [] => some (.tables (n + 1))
  | .index i :: rest =>
    if i = n then Mark.fresh .declared rest else marks (.key key :: .index i :: rest)
  | .key _ :: _ => none

theorem marksPushed_self (key : String) (n : Nat) (marks : Site → Option Mark) (rest : Site) :
    marksPushed key n marks (.index n :: rest) = Mark.fresh .declared rest := if_pos rfl

theorem marksPushed_ne (key : String) {i n : Nat} (hi : i ≠ n) (marks : Site → Option Mark)
    (rest : Site) : marksPushed key n marks (.index i :: rest) =
      marks (.key key :: .index i :: rest) := if_neg hi

/-- What is said of an element that is added behind `n` others: it is one, and its table is
    declared. -/
def saidOfElement (key : String) (n : Nat) : List Said :=
  [⟨[.key key], .element⟩, ⟨[.key key, .index n], .declared⟩]

variable {marks : Site → Option Mark} {t : Table} {key : String} {ts : List Table}

/-- Behind the last element nothing is marked. -/
theorem Elements.behind (h : Elements marks key ts) {i : Nat} (hi : ts.length ≤ i) (rest : Site) :
    marks (.key key :: .index i :: rest) = none := by
  have hnew := h.fits i rest
  rw [List.getElem?_eq_none hi] at hnew
  exact hnew.eq_none

/-- What is said of an added element changes the marks under the key, and no others. -/
theorem Elements.takeAll?_pushed (h : Elements marks key ts) : ∀ site,
    Mark.takeAll? (marks (.key key :: site))
      (remarksAt (.key key :: site) (saidOfElement key ts.length)) =
        some (marksPushed key ts.length marks site)
  | [] => by
      rw [saidOfElement, remarksAt_cons_self, remarksAt_cons_ne (by simp), Mark.takeAll?, h.taken]
      rfl
  | .key k :: rest => by
      rw [saidOfElement, remarksAt_cons_ne (by simp), remarksAt_cons_ne (by simp), h.keys]
      rfl
  | .index i :: rest => by
      rw [saidOfElement, remarksAt_cons_ne (by simp)]
      by_cases hi : i = ts.length
      · subst hi
        rw [h.behind (Nat.le_refl _), marksPushed_self]
        cases rest with
        | nil =>
          rw [remarksAt_cons_self]
          simp [Mark.fresh, Mark.takeAll?, Mark.take?]
        | cons x rest =>
          rw [remarksAt_cons_ne (by simp)]
          simp [Mark.fresh, Mark.takeAll?]
      · rw [remarksAt_cons_ne (by simp [Ne.symm hi]), marksPushed_ne key hi]
        simp [Mark.takeAll?]

/-- The marks of an added element say what stands there: the others stay, an empty table is last. -/
theorem Elements.fits_pushed (h : Elements marks key ts) : ∀ site,
    Fits (marksPushed key ts.length marks site)
      ((Spot.node (.tables (ts ++ [.empty .declared]))).at? site)
  | [] => by
      have hsome : marksPushed key ts.length marks [] =
          some (.tables (ts ++ [Table.empty .declared]).length) := by simp [marksPushed]
      rw [hsome]
      exact .tables (by simp)
  | .key k :: rest => .absent
  | .index i :: rest => by
      rw [Spot.at?_tables]
      rcases Nat.lt_trichotomy i ts.length with hlt | rfl | hgt
      · rw [marksPushed_ne key (Nat.ne_of_lt hlt), List.getElem?_append_left hlt]
        exact h.fits i rest
      · rw [marksPushed_self, List.getElem?_concat_length]
        exact agrees_empty .declared rest
      · rw [marksPushed_ne key (Nat.ne_of_gt hgt), h.behind (Nat.le_of_lt hgt),
          List.getElem?_eq_none (by simp; omega)]
        exact .absent

/-- An element that is added is followed by what is said of it. -/
theorem follows_pushed (hagrees : Agrees marks t) (h : Elements marks key ts) :
    Follows marks (saidOfElement key ts.length)
      (some (t.put key (.tables (ts ++ [.empty .declared])))) :=
  follows_of_puts (m := marksPushed key ts.length marks) hagrees
    (Table.puts_put hagrees.root.2 key _)
    ((below_under key [.index ts.length] [⟨[], .declared⟩]).cons [] .element) h.takeAll?_pushed
    h.fits_pushed

/-- **The header of an element** is followed by its addition and the declaration of its table. -/
theorem sound_push (key : String) :
    Sound (pushElement? key (.empty .declared))
      (fun count => saidOfElement key (count [.key key])) := by
  intro t marks count hagrees hcounts
  show Follows marks (saidOfElement key (count [.key key])) _
  rw [pushElement?]
  cases hf : t.find? key with
  | none =>
    have hcount : count [.key key] = 0 := by
      rw [hcounts, hagrees.absent hf]
      rfl
    rw [hcount]
    exact follows_pushed hagrees (hagrees.noElements hf)
  | some n =>
    cases n with
    | leaf v =>
      refine follows_refused ?_ _
      rw [hagrees.leaf hf]
      cases v.held <;> rfl
    | table c =>
      refine follows_refused ?_ _
      rw [(hagrees.table hf).1]
      cases c.origin <;> rfl
    | tables ts =>
      have hcount : count [.key key] = ts.length := by
        rw [hcounts, (hagrees.tables hf).1]
        rfl
      rw [hcount]
      exact follows_pushed hagrees (hagrees.elements hf)

/-! ## 2. Lines -/

/-- A line is within the limits: no key of it has too many segments, and its value is not nested too
    deep. -/
def Line.Within : Line → Prop
  | .table key => key.Short
  | .element key => key.Short
  | .pair key item => key.Short ∧ item.Within maxDepth

/-- Members have values only within the limits, if the value of each does. -/
theorem readMembers?_within {depth : Nat} : ∀ {members : List (Key × Item)},
    (∀ m ∈ members, ∀ v, m.2.read? depth = some v → m.2.Within depth) → ∀ {t t' : Table},
      Item.readMembers? depth members t = some t' → Item.MembersWithin depth members
  | [], _, _, _, _ => by
      rw [Item.MembersWithin]
      trivial
  | (key, item) :: members, h, t, t', hread => by
      obtain ⟨hitem, hmembers⟩ := List.forall_mem_cons.mp h
      rw [Item.readMembers?, Item.readMember?] at hread
      obtain ⟨t₁, hmember, hread⟩ := Option.bind_eq_some_iff.mp hread
      rw [Item.MembersWithin, Item.MemberWithin]
      split at hmember
      · rename_i hshort
        obtain ⟨v, hv, -⟩ := Option.bind_eq_some_iff.mp hmember
        exact ⟨⟨hshort, hitem v hv⟩, readMembers?_within hmembers hread⟩
      · cases hmember

/-- **An item has a value only within the limits.** -/
theorem Item.within_of_read? (item : Item) :
    ∀ depth v, item.read? depth = some v → item.Within depth := by
  refine Item.induction (P := fun item => ∀ depth v, item.read? depth = some v →
    item.Within depth) ?_ ?_ ?_ ?_ item
  · intro s depth v _
    rw [Item.Within]
    trivial
  · intro x depth v _
    rw [Item.Within]
    trivial
  · intro items ih depth v h
    cases depth with
    | zero => cases h
    | succ depth =>
      rw [Item.read?] at h
      obtain ⟨vs, hvs, -⟩ := Option.map_eq_some_iff.mp h
      rw [Item.Within, Item.allWithin_iff]
      intro item hitem
      obtain ⟨j, hj⟩ := List.getElem?_of_mem hitem
      obtain ⟨v', -, hv'⟩ := (of_readAll? hvs).2 j item hj
      exact ih item hitem depth v' hv'
  · intro members ih depth v h
    cases depth with
    | zero => cases h
    | succ depth =>
      rw [Item.read?] at h
      obtain ⟨t, ht, -⟩ := Option.map_eq_some_iff.mp h
      rw [Item.Within]
      exact readMembers?_within (fun m hm => ih m hm depth) ht

/-- A line beyond the limits is refused. -/
theorem Line.within_of_act? {owner : List String} {t t' : Table} {line : Line}
    (h : line.act? owner t = some t') : line.Within := by
  cases line with
  | table key =>
    rw [Line.act?] at h
    split at h
    · assumption
    · cases h
  | element key =>
    rw [Line.act?] at h
    split at h
    · assumption
    · cases h
  | pair key item =>
    rw [Line.act?] at h
    split at h
    · rename_i hshort
      obtain ⟨v, hv, -⟩ := Option.bind_eq_some_iff.mp h
      exact ⟨hshort, item.within_of_read? maxDepth v hv⟩
    · cases h

/-- **A line within the limits is followed by what it says.** -/
theorem follows_line {line : Line} (h : line.Within) {owner : List String} {t : Table}
    {marks : Site → Option Mark} {count : Site → Nat} (hagrees : Agrees marks t)
    (hcounts : Counts count marks) :
    Follows marks (line.remarks owner count) (line.act? owner t) := by
  cases line with
  | table key =>
    rw [Line.remarks, Line.act?, if_pos (show key.segments.length ≤ maxSegments from h)]
    exact sound_modifyAt (sound_declare key.2) false key.1 t marks count hagrees hcounts
  | element key =>
    rw [Line.remarks, Line.act?, if_pos (show key.segments.length ≤ maxSegments from h)]
    exact sound_modifyAt (sound_push key.2) false key.1 t marks count hagrees hcounts
  | pair key item =>
    have hinsert := sound_insert (followed_read? item maxDepth h.2) (remarksAt_item item) key
    rw [Line.remarks, Line.act?, if_pos (show key.segments.length ≤ maxSegments from h.1),
      ← Table.modifyAt_bind_left]
    exact sound_modifyAt hinsert false owner t marks count hagrees hcounts

/-! ## 3. Documents -/

/-- Lines within the limits are followed one after the other by what they say. -/
theorem follows_actAll? : ∀ {lines : List Line}, (∀ line ∈ lines, line.Within) →
    ∀ {owner : List String} {said : List Said} {t? : Option Table},
      Follows (Mark.fresh .declared) said t? →
      Follows (Mark.fresh .declared) (remarksFrom owner said lines)
        (t?.bind fun t => actAll? owner t lines)
  | [], _, owner, said, t?, h => by
      have hbind : (t?.bind fun t => actAll? owner t []) = t? := by cases t? <;> rfl
      rw [hbind]
      exact h
  | line :: lines, hwithin, owner, said, t?, h => by
      obtain ⟨hline, hlines⟩ := List.forall_mem_cons.mp hwithin
      have hnext : Follows (Mark.fresh .declared) (said ++ line.remarks owner (elementsAt said))
          (t?.bind (line.act? owner)) := by
        refine h.bind fun t marks hmarks hagrees => follows_line hline hagrees fun site => ?_
        rw [Mark.count_takeAll? (hmarks site), ← counts_empty .declared site]
        rfl
      have hrest := @follows_actAll? lines hlines (line.section owner) _ _ hnext
      rw [Option.bind_assoc] at hrest
      exact hrest

/-- **Within the limits, the table of a row of lines is followed by what the lines say.** -/
theorem follows_build {lines : List Line} (h : ∀ line ∈ lines, line.Within) :
    Follows (Mark.fresh .declared) (remarks lines) (build lines) := by
  have hempty : Follows (Mark.fresh .declared) [] (some (.empty .declared)) :=
    .taken _ (fun _ => rfl) (agrees_empty .declared)
  rw [build_eq]
  exact follows_actAll? h hempty

/-- **Lines beyond the limits are no document.** -/
theorem within_of_build {lines : List Line} {t : Table} (h : build lines = some t) :
    ∀ line ∈ lines, line.Within := by
  have hall : ∀ {lines : List Line} {owner : List String} {t t' : Table},
      actAll? owner t lines = some t' → ∀ line ∈ lines, line.Within := by
    intro lines
    induction lines with
    | nil => exact fun _ _ h => by cases h
    | cons line lines ih =>
      intro owner t t' h
      rw [actAll?] at h
      obtain ⟨t₁, hline, hlines⟩ := Option.bind_eq_some_iff.mp h
      exact List.forall_mem_cons.mpr ⟨Line.within_of_act? hline, ih hlines⟩
  rw [build_eq] at h
  exact hall h

/-- **The lines of a document are lawful.** -/
theorem lawful_of_build {lines : List Line} {t : Table} (h : build lines = some t) :
    Lawful (remarks lines) := by
  have hfollows := follows_build (within_of_build h)
  rw [h] at hfollows
  cases hfollows with
  | taken _ taken =>
    intro site
    rw [taken site]
    rfl

/-- **Lawful lines within the limits are a document.** -/
theorem exists_build {lines : List Line} (h : ∀ line ∈ lines, line.Within)
    (hlawful : Lawful (remarks lines)) : ∃ t, build lines = some t := by
  have hfollows := follows_build h
  cases hbuild : build lines with
  | some t => exact ⟨t, rfl⟩
  | none =>
    rw [hbuild] at hfollows
    cases hfollows with
    | refused site refused =>
      have hsite := hlawful site
      rw [refused] at hsite
      cases hsite

/-! ## 4. What a document holds -/

/-- The value that steps lead to inside another. -/
def Value.at? : Value → Site → Option Value
  | v, [] => some v
  | v, x :: site => (v.next? x).bind fun v => v.at? site

theorem Spot.at?_inside : ∀ (v : Value) (site : Site),
    (Spot.inside v).at? site = (v.at? site).map Spot.inside
  | _, [] => rfl
  | v, x :: site => by
      rw [Spot.at?, Spot.next?, Value.at?, Option.bind_map, Option.map_bind]
      exact congrArg (Option.bind _) (funext fun v => Spot.at?_inside v site)

/-- **What a mark says of a finished value**: nothing is where nothing was said, a table where a table
    was, an array where an array of tables was, and a value where it was said to be. -/
inductive Shows : Option Mark → Option Value → Prop where
  | absent : Shows none none
  | table {origin : Origin} {entries : List (String × Value)}
      (distinct : (Value.table entries).Distinct) :
      Shows (some (.table origin)) (some (.table entries))
  | tables {count : Nat} {items : List Value} : Shows (some (.tables count)) (some (.array items))
  | value {v : Value} (distinct : v.Distinct) : Shows (some (.value v.held)) (some v)

theorem Fits.shows {m : Option Mark} {s? : Option Spot} (h : Fits m s?) :
    Shows m (s?.map Spot.finished) := by
  cases h with
  | absent => exact .absent
  | @table t distinct =>
    obtain ⟨origin, entries⟩ := t
    have hvalue := distinct.value
    rw [Table.value] at hvalue
    exact .table hvalue
  | tables => exact .tables
  | leaf distinct => exact .value distinct
  | inside distinct => exact .value distinct
  | opened distinct => exact .table distinct

/-- Behind a value nothing is said but the keys its table takes. -/
theorem Mark.takeAll?_value {held : Held} : ∀ {rs : List Remark} {m : Option Mark},
    takeAll? (some (.value held)) rs = some m → m = some (.value held)
  | [], _, h => (Option.some.inj h).symm
  | r :: rs, _, h => by
      rw [takeAll?] at h
      obtain ⟨m₁, hstep, h⟩ := Option.bind_eq_some_iff.mp h
      rw [(take?_value hstep).1] at h
      exact takeAll?_value h

/-- A value stays where it was said to be. -/
theorem Mark.of_value_mem {m m' : Option Mark} {rs : List Remark} {held : Held}
    (h : takeAll? m rs = some m') (hmem : .value held ∈ rs) : m' = some (.value held) := by
  induction rs generalizing m with
  | nil => cases hmem
  | cons r rs ih =>
    rw [takeAll?] at h
    obtain ⟨m₁, hstep, h⟩ := Option.bind_eq_some_iff.mp h
    rcases List.mem_cons.mp hmem with rfl | hmem
    · have hm₁ : m₁ = .value held := by
        rcases m with _ | m
        · exact (Option.some.inj hstep).symm
        · rw [take?_some_value] at hstep
          cases hstep
      subst hm₁
      exact takeAll?_value h
    · exact ih h hmem

/-- **What a document holds at each site is what its lines say of it.** -/
theorem shows_of_build {lines : List Line} {t : Table} (h : build lines = some t) (site : Site) :
    ∃ m, Mark.takeAll? (Mark.fresh .declared site) (remarksAt site (remarks lines)) = some m ∧
      Shows m (t.value.at? site) := by
  have hfollows := follows_build (within_of_build h)
  rw [h] at hfollows
  cases hfollows with
  | @taken _ marks taken agrees =>
    refine ⟨marks site, taken site, ?_⟩
    have hspot := Spot.at?_finished (.node (.table t)) site
    rw [Spot.finished, Node.value, Spot.at?_inside] at hspot
    have hvalue : t.value.at? site = (t.at? site).map Spot.finished := by
      have hmap := congrArg (Option.map Spot.finished) hspot
      rw [Option.map_map, Option.map_map, show Spot.finished ∘ Spot.inside = id from rfl,
        Option.map_id] at hmap
      exact hmap
    rw [hvalue]
    exact (agrees site).shows

/-- What a value is that stands for a mark: a table, an array, or what was said. -/
def Mark.held : Mark → Held
  | .table _ => .inline
  | .tables _ => .array
  | .value held => held

/-- What a remark says that is at its site, if it puts something there. -/
def Remark.held? : Remark → Option Held
  | .passed | .declared | .dotted => some .inline
  | .element => some .array
  | .filled _ => none
  | .value held => some held

/-- What stands at a site stays what it is. -/
theorem Mark.held_take? {m m' : Mark} {r : Remark} (h : take? (some m) r = some m') :
    m'.held = m.held := by
  rcases m with ⟨_ | _ | _⟩ | n | ⟨_ | _ | _ | _⟩ <;>
    rcases r with _ | _ | _ | _ | ⟨_ | _⟩ | _ <;> cases h <;> rfl

theorem Mark.held_takeAll? : ∀ {rs : List Remark} {m m' : Mark},
    takeAll? (some m) rs = some (some m') → m'.held = m.held
  | [], _, _, h => by
      cases h
      rfl
  | r :: rs, m, m', h => by
      obtain ⟨m₁, hr, h⟩ := Option.bind_eq_some_iff.mp h
      exact (held_takeAll? h).trans (held_take? hr)

/-- What stands at a site is what the first remark puts there. -/
theorem Mark.exists_held {rs : List Remark} {m : Mark} (h : takeAll? none rs = some (some m)) :
    ∃ r ∈ rs, r.held? = some m.held := by
  cases rs with
  | nil => cases h
  | cons r rs =>
    obtain ⟨m₁, hr, h⟩ := Option.bind_eq_some_iff.mp h
    refine ⟨r, List.mem_cons_self, ?_⟩
    rw [held_takeAll? h]
    cases r <;> cases hr <;> rfl

theorem Shows.held {m : Option Mark} {v : Value} (h : Shows m (some v)) :
    ∃ m', m = some m' ∧ v.held = m'.held := by
  cases h with
  | table | tables | value => exact ⟨_, rfl, rfl⟩

/-- **Where a document holds something, it says what.** -/
theorem said_of_at? {lines : List Line} {t : Table} (h : build lines = some t) {site : Site}
    (hne : site ≠ []) {v : Value} (hv : t.value.at? site = some v) :
    ∃ r ∈ remarksAt site (remarks lines), r.held? = some v.held := by
  obtain ⟨m, hm, hshows⟩ := shows_of_build h site
  rw [hv] at hshows
  obtain ⟨m', rfl, hheld⟩ := hshows.held
  rw [Mark.fresh, if_neg hne] at hm
  obtain ⟨r, hr, hrheld⟩ := Mark.exists_held hm
  exact ⟨r, hr, hheld ▸ hrheld⟩

/-- Where a document says nothing, it holds nothing. -/
theorem at?_eq_none {lines : List Line} {t : Table} (h : build lines = some t) {site : Site}
    (hne : site ≠ []) (hsaid : remarksAt site (remarks lines) = []) : t.value.at? site = none := by
  cases hv : t.value.at? site with
  | none => rfl
  | some v =>
    obtain ⟨r, hr, -⟩ := said_of_at? h hne hv
    rw [hsaid] at hr
    cases hr

/-- **Where a document says that a string is, there is this string.** -/
theorem at?_text {lines : List Line} {t : Table} (h : build lines = some t) {site : Site} {s : String}
    (hsaid : ⟨site, .value (.text s)⟩ ∈ remarks lines) : t.value.at? site = some (.text s) := by
  obtain ⟨m, hm, hshows⟩ := shows_of_build h site
  rw [Mark.of_value_mem hm (mem_remarksAt.mpr hsaid)] at hshows
  generalize t.value.at? site = v? at hshows
  generalize hheld : some (Mark.value (.text s)) = m at hshows
  cases hshows with
  | absent | table | tables => cases hheld
  | @value v distinct =>
    have htext : v.held = .text s := (Mark.value.inj (Option.some.inj hheld)).symm
    cases v <;> cases htext
    rfl

/-- No key stands in a table of a document twice. -/
theorem distinct_of_build {lines : List Line} {t : Table} (h : build lines = some t) {site : Site}
    {v : Value} (hv : t.value.at? site = some v) : v.Distinct := by
  obtain ⟨m, -, hshows⟩ := shows_of_build h site
  rw [hv] at hshows
  cases hshows with
  | table distinct => exact distinct
  | tables => trivial
  | value distinct => exact distinct

end HostGlue.Toml
