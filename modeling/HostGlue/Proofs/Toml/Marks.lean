import HostGlue.Proofs.Toml.Sections

/-!
# A tree is what the remarks say

Changes of a tree are followed by remarks: a change is refused exactly if a remark is, and otherwise
what stands at each site of the tree is what the remarks about that site make of what stood there.

* `Spot`, what stands at a site of a tree, and `Fits`, that a mark says so;
* `Follows`, that a change is followed by remarks, and **`sound_modifyAt`: a change at a path is
  followed by what is said along the path**, if the change at its end is followed by what is said
  there (`Sound`);
* `Follows.bind`, one change after another.
-/

namespace HostGlue.Toml

/-! ## 1. What stands at a site -/

/-- What a value is at its own site. -/
def Value.held : Value → Held
  | .text s => .text s
  | .array _ => .array
  | .table _ => .inline
  | _ => .scalar

/-- The value a step leads to inside another. -/
def Value.next? : Value → Step → Option Value
  | .array items, .index i => items[i]?
  | .table entries, .key key => (entries.find? fun e => e.1 == key).map (·.2)
  | _, _ => none

/-- No key of a table stands in it twice. -/
def Value.Distinct : Value → Prop
  | .table entries => (entries.map (·.1)).Nodup
  | _ => True

/-- What stands at a site of a tree: a node, or a value inside another. -/
inductive Spot where
  | node (n : Node)
  | inside (v : Value)

/-- What a step leads to. -/
def Spot.next? : Spot → Step → Option Spot
  | .node (.table t), .key key => (t.find? key).map .node
  | .node (.tables ts), .index i => ts[i]?.map fun t => .node (.table t)
  | .node (.leaf v), s => (v.next? s).map .inside
  | .inside v, s => (v.next? s).map .inside
  | _, _ => none

/-- What steps lead to. -/
def Spot.at? : Spot → Site → Option Spot
  | s, [] => some s
  | s, x :: site => (s.next? x).bind fun s => s.at? site

/-- What steps in a tree lead to. -/
def Table.at? (t : Table) (site : Site) : Option Spot := (Spot.node (.table t)).at? site

/-- **A mark says what stands at a site.** A table of dotted keys inside an inline table is known by its
    remarks only. -/
inductive Fits : Option Mark → Option Spot → Prop where
  | absent : Fits none none
  | table {t : Table} (distinct : t.Distinct) : Fits (some (.table t.origin)) (some (.node (.table t)))
  | tables {ts : List Table} (nonempty : ts ≠ []) :
      Fits (some (.tables ts.length)) (some (.node (.tables ts)))
  | leaf {v : Value} (distinct : v.Distinct) : Fits (some (.value v.held)) (some (.node (.leaf v)))
  | inside {v : Value} (distinct : v.Distinct) : Fits (some (.value v.held)) (some (.inside v))
  | opened {entries : List (String × Value)} (distinct : (Value.table entries).Distinct) :
      Fits (some (.table .dotted)) (some (.inside (.table entries)))

/-- Marks say what stands at all sites of a tree. -/
def Agrees (marks : Site → Option Mark) (t : Table) : Prop := ∀ site, Fits (marks site) (t.at? site)

/-- A count says how many elements the arrays of tables have. -/
def Counts (count : Site → Nat) (marks : Site → Option Mark) : Prop :=
  ∀ site, count site = Mark.count (marks site)

/-- **A change is followed by remarks**: it is refused where a remark is, and otherwise the remarks say
    what stands at each site of the tree that comes of it. -/
inductive Follows (marks : Site → Option Mark) (said : List Said) : Option Table → Prop where
  | taken {t : Table} (marks' : Site → Option Mark)
      (taken : ∀ site, Mark.takeAll? (marks site) (remarksAt site said) = some (marks' site))
      (agrees : Agrees marks' t) : Follows marks said (some t)
  | refused (site : Site) (refused : Mark.takeAll? (marks site) (remarksAt site said) = none) :
      Follows marks said none

/-- One change after another is followed by what is said of both. -/
theorem Follows.bind {marks : Site → Option Mark} {a b : List Said} {t? : Option Table}
    {f : Table → Option Table} (h : Follows marks a t?)
    (hf : ∀ t marks', (∀ site, Mark.takeAll? (marks site) (remarksAt site a) = some (marks' site)) →
      Agrees marks' t → Follows marks' b (f t)) : Follows marks (a ++ b) (t?.bind f) := by
  cases h with
  | refused site refused =>
    refine .refused site ?_
    rw [remarksAt_append, Mark.takeAll?_append, refused]
    rfl
  | @taken t marks' taken agrees =>
    have hb := hf t marks' taken agrees
    rw [Option.bind_some]
    generalize f t = t' at hb
    cases hb with
    | @taken _ marks'' hafter agrees' =>
      refine .taken marks'' (fun site => ?_) agrees'
      rw [remarksAt_append, Mark.takeAll?_append, taken site, Option.bind_some, hafter site]
    | refused site hafter =>
      refine .refused site ?_
      rw [remarksAt_append, Mark.takeAll?_append, taken site, Option.bind_some, hafter]

/-! ## 2. Steps into a table -/

theorem Table.at?_nil (t : Table) : t.at? [] = some (.node (.table t)) := rfl

theorem Table.at?_key (t : Table) (key : String) (site : Site) :
    t.at? (.key key :: site) = (t.find? key).bind fun n => (Spot.node n).at? site := by
  rw [Table.at?, Spot.at?, Spot.next?, Option.bind_map]
  rfl

theorem Table.at?_index (t : Table) (i : Nat) (site : Site) : t.at? (.index i :: site) = none := rfl

theorem Spot.at?_tables (ts : List Table) (i : Nat) (site : Site) :
    (Spot.node (.tables ts)).at? (.index i :: site) = ts[i]?.bind fun t => t.at? site := by
  rw [Spot.at?, Spot.next?, Option.bind_map]
  rfl

theorem Fits.eq_none {m : Option Mark} (h : Fits m none) : m = none := by
  cases h
  rfl

/-- Where marks agree with a tree, its own site is marked as it came about. -/
theorem Agrees.root {marks : Site → Option Mark} {t : Table} (h : Agrees marks t) :
    marks [] = some (.table t.origin) ∧ t.Distinct := by
  have hroot := h []
  rw [Table.at?_nil] at hroot
  generalize marks [] = m at hroot
  cases hroot with
  | table distinct => exact ⟨rfl, distinct⟩

/-- Where a tree has nothing under a key, nothing is marked there or below. -/
theorem Agrees.absent {marks : Site → Option Mark} {t : Table} (h : Agrees marks t) {key : String}
    (hkey : t.find? key = none) (site : Site) : marks (.key key :: site) = none := by
  have hsite := h (.key key :: site)
  rw [Table.at?_key, hkey, Option.bind_none] at hsite
  exact hsite.eq_none

/-- What stands under a key of a tree, from the marks below the key. -/
theorem Agrees.under {marks : Site → Option Mark} {t : Table} (h : Agrees marks t) {key : String}
    {n : Node} (hf : t.find? key = some n) (site : Site) :
    Fits (marks (.key key :: site)) ((Spot.node n).at? site) := by
  have hsite := h (.key key :: site)
  rwa [Table.at?_key, hf] at hsite

theorem Agrees.leaf {marks : Site → Option Mark} {t : Table} (h : Agrees marks t) {key : String}
    {v : Value} (hf : t.find? key = some (.leaf v)) : marks [.key key] = some (.value v.held) := by
  have hkey := h.under hf []
  rw [Spot.at?] at hkey
  generalize marks [.key key] = m at hkey
  cases hkey
  rfl

theorem Agrees.table {marks : Site → Option Mark} {t child : Table} (h : Agrees marks t)
    {key : String} (hf : t.find? key = some (.table child)) :
    marks [.key key] = some (.table child.origin) ∧ child.Distinct := by
  have hkey := h.under hf []
  rw [Spot.at?] at hkey
  generalize marks [.key key] = m at hkey
  cases hkey with
  | table distinct => exact ⟨rfl, distinct⟩

theorem Agrees.tables {marks : Site → Option Mark} {t : Table} (h : Agrees marks t) {key : String}
    {ts : List Table} (hf : t.find? key = some (.tables ts)) :
    marks [.key key] = some (.tables ts.length) ∧ ts ≠ [] := by
  have hkey := h.under hf []
  rw [Spot.at?] at hkey
  generalize marks [.key key] = m at hkey
  cases hkey with
  | tables nonempty => exact ⟨rfl, nonempty⟩

/-- A remark about the site under a key that is refused. -/
theorem follows_refused {marks : Site → Option Mark} {key : String} {r : Remark}
    (h : Mark.take? (marks [.key key]) r = none) (said : List Said) :
    Follows marks (⟨[.key key], r⟩ :: said) none := by
  refine .refused [.key key] ?_
  rw [remarksAt_cons_self, Mark.takeAll?, h, Option.bind_none]

/-! ## 3. One key changed -/

/-- A table that differs from another by what stands under one key. -/
structure Table.Puts (t : Table) (key : String) (n : Node) (t' : Table) : Prop where
  origin : t'.origin = t.origin
  distinct : t'.Distinct
  self : t'.find? key = some n
  others : ∀ k, k ≠ key → t'.find? k = t.find? k

theorem Table.puts_put {t : Table} (h : t.Distinct) (key : String) (n : Node) :
    t.Puts key n (t.put key n) :=
  ⟨rfl, h.put key n, find?_put_self key n t, fun _ hk => find?_put_ne hk n t⟩

theorem Table.puts_erase {t : Table} (h : t.Distinct) (key : String) (n : Node) :
    t.Puts key n ((t.erase key).put key n) := by
  refine ⟨rfl, (h.erase key).put key n, find?_put_self key n _, fun k hk => ?_⟩
  rw [find?_put_ne hk, find?_erase_ne hk]

/-- Nothing is said but below one key. -/
def Below (key : String) (said : List Said) : Prop := ∀ s ∈ said, [.key key] <+: s.site

theorem Below.eq_nil {key : String} {said : List Said} (h : Below key said) {site : Site}
    (hsite : ¬ [.key key] <+: site) : remarksAt site said = [] :=
  remarksAt_eq_nil fun s hs heq => hsite (heq ▸ h s hs)

theorem below_under (key : String) (front : Site) (said : List Said) :
    Below key (said.map (Said.under (.key key :: front))) := by
  intro s hs
  obtain ⟨s', -, rfl⟩ := List.mem_map.mp hs
  exact ⟨front ++ s'.site, rfl⟩

theorem Below.cons {key : String} {said : List Said} (h : Below key said) (front : Site)
    (r : Remark) : Below key (⟨.key key :: front, r⟩ :: said) :=
  List.forall_mem_cons.mpr ⟨⟨front, rfl⟩, h⟩

/-- Marks where a key leads to other marks. -/
def marksUnder (key : String) (m marks : Site → Option Mark) : Site → Option Mark
  | .key k :: rest => if k = key then m rest else marks (.key k :: rest)
  | site => marks site

theorem marksUnder_self (key : String) (m marks : Site → Option Mark) (rest : Site) :
    marksUnder key m marks (.key key :: rest) = m rest := if_pos rfl

theorem marksUnder_ne {key k : String} (hk : k ≠ key) (m marks : Site → Option Mark) (rest : Site) :
    marksUnder key m marks (.key k :: rest) = marks (.key k :: rest) := if_neg hk

/-- **What is put under a key is followed by what is said below it.** -/
theorem follows_of_puts {marks m : Site → Option Mark} {t t' : Table} {key : String} {n : Node}
    {said : List Said} (h : Agrees marks t) (ht' : t.Puts key n t') (hbelow : Below key said)
    (hself : ∀ site, Mark.takeAll? (marks (.key key :: site)) (remarksAt (.key key :: site) said) =
      some (m site)) (hn : ∀ site, Fits (m site) ((Spot.node n).at? site)) :
    Follows marks said (some t') := by
  have hothers : ∀ site, ¬ [.key key] <+: site →
      Mark.takeAll? (marks site) (remarksAt site said) = some (marks site) := by
    intro site hsite
    rw [hbelow.eq_nil hsite]
    rfl
  refine .taken (marksUnder key m marks) (fun site => ?_) fun site => ?_
  · cases site with
    | nil => exact hothers [] (by simp)
    | cons x rest =>
      cases x with
      | index i => exact hothers _ (by simp)
      | key k =>
        by_cases hk : k = key
        · subst hk
          rw [hself rest, marksUnder_self]
        · rw [hothers _ (by simpa using Ne.symm hk), marksUnder_ne hk]
  · have hold := h site
    cases site with
    | nil =>
      rw [show marksUnder key m marks [] = some (.table t'.origin) by
        rw [ht'.origin]; exact h.root.1]
      exact .table ht'.distinct
    | cons x rest =>
      cases x with
      | index i =>
        rw [Table.at?_index] at hold ⊢
        exact hold
      | key k =>
        rw [Table.at?_key] at hold ⊢
        by_cases hk : k = key
        · subst hk
          rw [ht'.self, marksUnder_self]
          exact hn rest
        · rw [ht'.others k hk, marksUnder_ne hk]
          exact hold

/-! ## 4. Changes at a path -/

/-- An empty table is marked at its own site only. -/
theorem agrees_empty (origin : Origin) : Agrees (Mark.fresh origin) (.empty origin) := by
  intro site
  match site with
  | [] => exact .table (Table.distinct_empty origin)
  | .key k :: site => exact .absent
  | .index i :: site => exact .absent

theorem counts_empty (origin : Origin) : Counts (fun _ => 0) (Mark.fresh origin) := by
  intro site
  match site with
  | [] => rfl
  | _ :: _ => rfl

/-- A change of tables that is followed by remarks, wherever it is made. -/
def Sound (change : Table → Option Table) (last : (Site → Nat) → List Said) : Prop :=
  ∀ (t : Table) (marks : Site → Option Mark) (count : Site → Nat), Agrees marks t →
    Counts count marks → Follows marks (last count) (change t)

/-- A change in a table is followed by what is said below its key. -/
theorem follows_table {marks marks' : Site → Option Mark} {t child : Table} {key : String}
    {r : Remark} {said : List Said} {c? : Option Table} (h : Agrees marks t)
    (hstep : Mark.take? (marks [.key key]) r = some (.table child.origin))
    (hroot : marks' [] = some (.table child.origin))
    (hbelow : ∀ x site, marks' (x :: site) = marks (.key key :: x :: site))
    (hchild : Follows marks' said c?) :
    Follows marks (⟨[.key key], r⟩ :: said.map (Said.under [.key key]))
      (c?.map fun c => t.put key (.table c)) := by
  have hrun : ∀ site, Mark.takeAll? (marks (.key key :: site))
      (remarksAt (.key key :: site) (⟨[.key key], r⟩ :: said.map (Said.under [.key key]))) =
      Mark.takeAll? (marks' site) (remarksAt site said) := by
    intro site
    have hunder := remarksAt_under [.key key] site said
    match site with
    | [] =>
      rw [remarksAt_cons_self, Mark.takeAll?, hstep, Option.bind_some, hroot, ← hunder]
      rfl
    | x :: site =>
      rw [remarksAt_cons_ne (by simp), hbelow, ← hunder]
      rfl
  cases hchild with
  | refused site refused => exact .refused (.key key :: site) ((hrun site).trans refused)
  | @taken c m taken agrees =>
    exact follows_of_puts h (Table.puts_put h.root.2 key (.table c))
      ((below_under key [] said).cons [] r) (fun site => (hrun site).trans (taken site)) agrees

/-- The marks under a key where an element leads to other marks. -/
def marksAtElement (key : String) (i : Nat) (m marks : Site → Option Mark) : Site → Option Mark
  | .index j :: rest => if j = i then m rest else marks (.key key :: .index j :: rest)
  | site => marks (.key key :: site)

theorem marksAtElement_self (key : String) (i : Nat) (m marks : Site → Option Mark) (rest : Site) :
    marksAtElement key i m marks (.index i :: rest) = m rest := if_pos rfl

theorem marksAtElement_ne (key : String) {i j : Nat} (hj : j ≠ i) (m marks : Site → Option Mark)
    (rest : Site) : marksAtElement key i m marks (.index j :: rest) =
      marks (.key key :: .index j :: rest) := if_neg hj

section LastElement

variable {marks m : Site → Option Mark} {t child c : Table} {key : String} {ts : List Table} {i : Nat}
  {r : Remark} {said : List Said}

/-- What is said of an array of tables, and below one of its elements. -/
def throughElement (key : String) (i : Nat) (r : Remark) (said : List Said) : List Said :=
  ⟨[.key key], r⟩ :: said.map (Said.under [.key key, .index i])

theorem remarksAt_throughElement_self (site : Site) :
    remarksAt (.key key :: .index i :: site) (throughElement key i r said) =
      remarksAt site said := by
  rw [throughElement, remarksAt_cons_ne (by simp), ← remarksAt_under [.key key, .index i] site said]
  rfl

/-- Behind the array itself, what is said below one element is said of nothing else. -/
theorem remarksAt_throughElement_ne {x : Step} (hx : x ≠ .index i) (rest : Site) :
    remarksAt (.key key :: x :: rest) (throughElement key i r said) = [] := by
  have hfront : ¬ [.key key, .index i] <+: .key key :: x :: rest := by simpa using Ne.symm hx
  rw [throughElement, remarksAt_cons_ne (by simp), remarksAt_under_ne hfront]

/-- The marks under the key take what is said if the remark on the array changes nothing. -/
theorem takeAll?_throughElement {mark : Mark} (hmark : marks [.key key] = some mark)
    (hstep : Mark.take? (marks [.key key]) r = marks [.key key])
    (htaken : ∀ site, Mark.takeAll? (marks (.key key :: .index i :: site)) (remarksAt site said) =
      some (m site)) : ∀ site,
    Mark.takeAll? (marks (.key key :: site)) (remarksAt (.key key :: site)
      (throughElement key i r said)) = some (marksAtElement key i m marks site)
  | [] => by
      rw [throughElement, remarksAt_cons_self, remarksAt_under_ne (by simp), Mark.takeAll?, hstep]
      rw [hmark]
      exact congrArg some hmark.symm
  | .key k :: rest => by
      rw [remarksAt_throughElement_ne (by simp)]
      rfl
  | .index j :: rest => by
      by_cases hj : j = i
      · subst hj
        rw [remarksAt_throughElement_self, htaken, marksAtElement_self]
      · rw [remarksAt_throughElement_ne (by simpa using hj), marksAtElement_ne key hj]
        rfl

/-- The marks where the last element leads to its own say what stands under the key. -/
theorem fits_lastElement (h : Agrees marks t) (hts : t.find? key = some (.tables (ts ++ [child])))
    (hc : Agrees m c) : ∀ site,
    Fits (marksAtElement key ts.length m marks site)
      ((Spot.node (.tables (ts ++ [c]))).at? site)
  | [] => by
      have hlength : (ts ++ [child]).length = (ts ++ [c]).length := by simp
      rw [show marksAtElement key ts.length m marks [] = some (.tables (ts ++ [c]).length) from
        hlength ▸ (h.tables hts).1]
      exact .tables (by simp)
  | .key k :: rest => h.under hts (.key k :: rest)
  | .index j :: rest => by
      have hold := h.under hts (.index j :: rest)
      rw [Spot.at?_tables] at hold ⊢
      by_cases hj : j = ts.length
      · subst hj
        rw [marksAtElement_self, List.getElem?_concat_length]
        exact hc rest
      · have helse : (ts ++ [c])[j]? = (ts ++ [child])[j]? := by
          rcases Nat.lt_or_gt_of_ne hj with hlt | hgt
          · rw [List.getElem?_append_left hlt, List.getElem?_append_left hlt]
          · rw [List.getElem?_eq_none (by simp; omega), List.getElem?_eq_none (by simp; omega)]
        rw [helse, marksAtElement_ne key hj]
        exact hold

/-- The last element of an array of tables has the marks below its number. -/
theorem Agrees.last (h : Agrees marks t) (hts : t.find? key = some (.tables (ts ++ [child]))) :
    Agrees (fun site => marks (.key key :: .index ts.length :: site)) child := by
  intro site
  have hsite := h.under hts (.index ts.length :: site)
  rwa [Spot.at?_tables, List.getElem?_concat_length] at hsite

/-- A change in the last element of an array of tables is followed by what is said below it. -/
theorem follows_tables {c? : Option Table} (h : Agrees marks t)
    (hts : t.find? key = some (.tables (ts ++ [child])))
    (hstep : Mark.take? (marks [.key key]) r = marks [.key key])
    (hchild : Follows (fun site => marks (.key key :: .index ts.length :: site)) said c?) :
    Follows marks (throughElement key ts.length r said)
      (c?.map fun c => t.put key (.tables (ts ++ [c]))) := by
  cases hchild with
  | refused site refused =>
    refine .refused (.key key :: .index ts.length :: site) ?_
    rwa [remarksAt_throughElement_self]
  | @taken c m taken agrees =>
    exact follows_of_puts h (Table.puts_put h.root.2 key (.tables (ts ++ [c])))
      ((below_under key [.index ts.length] said).cons [] r)
      (takeAll?_throughElement (h.tables hts).1 hstep taken)
      (fits_lastElement h hts agrees)

end LastElement

theorem stem_of_zero {count : Site → Nat} {key : String} (h : count [.key key] = 0) :
    stem count key = [.key key] := by
  rw [stem, h]

theorem stem_of_succ {count : Site → Nat} {key : String} {n : Nat} (h : count [.key key] = n + 1) :
    stem count key = [.key key, .index n] := by
  rw [stem, h]

/-- A remark made along a path, and the origin of the tables it creates. -/
def alongRemark (byDots : Bool) : Remark := if byDots then .dotted else .passed

/-- A path creates the tables that are missing. -/
theorem take?_along_missing (byDots : Bool) : Mark.take? none (alongRemark byDots) =
    some (.table (if byDots then .dotted else .implied)) := by
  cases byDots <;> rfl

/-- Dots do not lead into a table that was declared. -/
theorem take?_along_declared : Mark.take? (some (.table .declared)) (alongRemark true) = none := rfl

/-- A path leads through any other table, and leaves it as it is. -/
theorem take?_along_table {byDots : Bool} {origin : Origin}
    (h : ¬ (byDots && origin == .declared) = true) :
    Mark.take? (some (.table origin)) (alongRemark byDots) = some (.table origin) := by
  cases byDots with
  | false => cases origin <;> rfl
  | true =>
    have hne : origin ≠ .declared := by simpa using h
    exact if_neg hne

theorem take?_along_tables (byDots : Bool) (n : Nat) :
    Mark.take? (some (.tables n)) (alongRemark byDots) = some (.tables n) := by
  cases byDots <;> rfl

/-- No path leads through a value. -/
theorem take?_along_value (byDots : Bool) (v : Value) :
    Mark.take? (some (.value v.held)) (alongRemark byDots) = none := by
  cases byDots <;> cases v.held <;> rfl

/-- **A change at a path is followed by what is said along the path**, if the change at its end is
    followed by what is said there. -/
theorem sound_modifyAt {change : Table → Option Table} {last : (Site → Nat) → List Said}
    (h : Sound change last) (byDots : Bool) : ∀ path : List String,
      Sound (Table.modifyAt byDots change path) (along (alongRemark byDots) last path)
  | [] => h
  | key :: path => by
      intro t marks count hagrees hcounts
      have ih := sound_modifyAt h byDots path
      rw [Table.modifyAt_cons, Table.descend, along]
      cases hf : t.find? key with
      | none =>
        have hmark := hagrees.absent hf
        have hzero : ∀ site, count (.key key :: site) = 0 := by
          intro site
          rw [hcounts, hmark]
          rfl
        have hstep := take?_along_missing byDots
        rw [← hmark []] at hstep
        rw [stem_of_zero (hzero [])]
        -- a table that was missing is marked by what is said of it
        exact @follows_table _ _ _ (.empty (if byDots then .dotted else .implied)) _ _ _ _
          hagrees hstep rfl (fun x site => (hmark (x :: site)).symm)
          (ih _ _ _ (agrees_empty _) fun site => (hzero site).trans (counts_empty _ site))
      | some n =>
        cases n with
        | leaf v =>
          refine follows_refused ?_ _
          rw [hagrees.leaf hf]
          exact take?_along_value byDots v
        | table child =>
          obtain ⟨hmark, -⟩ := hagrees.table hf
          rw [stem_of_zero (by rw [hcounts, hmark]; rfl)]
          dsimp only
          by_cases hclosed : (byDots && child.origin == .declared) = true
          · rw [if_pos hclosed]
            rw [Bool.and_eq_true, beq_iff_eq] at hclosed
            refine follows_refused ?_ _
            rw [hmark, hclosed.1, hclosed.2]
            exact take?_along_declared
          · rw [if_neg hclosed]
            have hstep := take?_along_table hclosed
            rw [← hmark] at hstep
            exact @follows_table _ _ _ child _ _ _ _ hagrees (hstep.trans hmark) hmark
              (fun x site => rfl) (ih child (fun site => marks (.key key :: site)) _
                (hagrees.under hf) fun site => hcounts _)
        | tables ts =>
          obtain ⟨hmark, hne⟩ := hagrees.tables hf
          obtain ⟨front, child, rfl⟩ : ∃ front child, ts = front ++ [child] :=
            ⟨ts.dropLast, ts.getLast hne, (List.dropLast_concat_getLast hne).symm⟩
          have hlength : count [.key key] = front.length + 1 := by
            rw [hcounts, hmark]
            exact List.length_append
          have hstep := take?_along_tables byDots (front ++ [child]).length
          rw [← hmark] at hstep
          rw [stem_of_succ hlength]
          simp only [List.getLast?_append, List.getLast?_singleton, Option.some_or, Option.map_some,
            Option.bind_some, List.dropLast_concat]
          exact follows_tables hagrees hf hstep (ih child _ _ (hagrees.last hf) fun site => hcounts _)

end HostGlue.Toml
