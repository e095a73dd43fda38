import HostGlue.Proofs.Toml.Marks

/-!
# A value is what the remarks about it say

* `Item.induction`, the induction on items that the facts about values share, and `Item.Within`, the
  items that are not nested too deep;
* `Followed`, that an item has a value and the remarks about it say what stands at each site of it,
  or that a remark is refused;
* **`followed_read?`: this is so for every item within the limits.** The tables of an inline table are
  built like those of a document, and its members are remarks of the same kind.
-/

namespace HostGlue.Toml

/-! ## 1. Items -/

/-- **What an array has if its elements have it, and an inline table if its members do, all items
    have.** -/
theorem Item.induction {P : Item → Prop} (text : ∀ s, P (.text s)) (scalar : ∀ x, P (.scalar x))
    (array : ∀ items, (∀ item ∈ items, P item) → P (.array items))
    (inline : ∀ members : List (Key × Item), (∀ m ∈ members, P m.2) → P (.inline members))
    (item : Item) : P item :=
  @Item.rec P (fun items => ∀ item ∈ items, P item) (fun members => ∀ m ∈ members, P m.2)
    (fun m => P m.2) text scalar array inline (fun _ h => by cases h)
    (fun _ _ head tail => List.forall_mem_cons.mpr ⟨head, tail⟩) (fun _ h => by cases h)
    (fun _ _ head tail => List.forall_mem_cons.mpr ⟨head, tail⟩) (fun _ _ head => head) item

mutual

/-- An item is nested at most so deep, and no key in it has too many segments. -/
def Item.Within : Nat → Item → Prop
  | _, .text _ => True
  | _, .scalar _ => True
  | 0, .array _ => False
  | depth + 1, .array items => Item.AllWithin depth items
  | 0, .inline _ => False
  | depth + 1, .inline members => Item.MembersWithin depth members
termination_by structural _ item => item

/-- Each element of an array is nested at most so deep. -/
def Item.AllWithin (depth : Nat) : List Item → Prop
  | [] => True
  | item :: items => item.Within depth ∧ Item.AllWithin depth items
termination_by structural items => items

/-- Each member of an inline table is nested at most so deep, under a key of not too many segments. -/
def Item.MembersWithin (depth : Nat) : List (Key × Item) → Prop
  | [] => True
  | m :: ms => Item.MemberWithin depth m ∧ Item.MembersWithin depth ms
termination_by structural members => members

/-- A member of an inline table is nested at most so deep, under a key of not too many segments. -/
def Item.MemberWithin (depth : Nat) : Key × Item → Prop
  | (key, item) => key.Short ∧ item.Within depth
termination_by structural m => m

end

theorem Item.allWithin_iff {depth : Nat} : ∀ {items : List Item},
    Item.AllWithin depth items ↔ ∀ item ∈ items, item.Within depth
  | [] => by simp [Item.AllWithin]
  | item :: items => by
      rw [Item.AllWithin, Item.allWithin_iff, List.forall_mem_cons]

theorem Item.membersWithin_iff {depth : Nat} : ∀ {members : List (Key × Item)},
    Item.MembersWithin depth members ↔ ∀ m ∈ members, m.1.Short ∧ m.2.Within depth
  | [] => by simp [Item.MembersWithin]
  | (key, item) :: ms => by
      rw [Item.MembersWithin, Item.membersWithin_iff, List.forall_mem_cons, Item.MemberWithin]

/-! ## 2. What is said of a value -/

/-- The remarks that are made of the sites in a value. -/
def Remark.isInner : Remark → Bool
  | .dotted | .filled _ | .value _ => true
  | _ => false

/-- Nothing is said but what is said of the sites in a value. -/
def Inner (said : List Said) : Prop := ∀ s ∈ said, s.remark.isInner = true

theorem Inner.under {said : List Said} (h : Inner said) (front : Site) :
    Inner (said.map (Said.under front)) := by
  intro s hs
  obtain ⟨s', hs', rfl⟩ := List.mem_map.mp hs
  exact h s' hs'

theorem Inner.cons {said : List Said} (h : Inner said) {s : Said}
    (hs : s.remark.isInner = true) : Inner (s :: said) :=
  List.forall_mem_cons.mpr ⟨hs, h⟩

theorem Inner.append {a b : List Said} (ha : Inner a) (hb : Inner b) : Inner (a ++ b) := by
  intro s hs
  rcases List.mem_append.mp hs with hs | hs
  · exact ha s hs
  · exact hb s hs

theorem Inner.of_mem {said : List Said} (h : Inner said) {site : Site} {r : Remark}
    (hr : r ∈ remarksAt site said) : r.isInner = true :=
  h _ (mem_remarksAt.mp hr)

theorem inner_along {last : (Site → Nat) → List Said} (h : ∀ count, Inner (last count)) :
    ∀ (path : List String) (count : Site → Nat), Inner (along .dotted last path count)
  | [], count => h count
  | _ :: path, _ => ((inner_along h path _).under _).cons rfl

theorem inner_pair {said : List Said} (h : Inner said) (key : Key) (count : Site → Nat) :
    Inner (pairRemarks key said count) :=
  inner_along (fun _ => (h.under _).cons rfl) key.1 count

theorem inner_elements {items : List Item} (h : ∀ item ∈ items, Inner item.remarks) (i : Nat) :
    Inner (Item.elementRemarks i items) := by
  induction items generalizing i with
  | nil => exact fun _ hs => by cases hs
  | cons item items ih =>
    obtain ⟨hitem, hitems⟩ := List.forall_mem_cons.mp h
    rw [Item.elementRemarks]
    exact (hitem.under _).append (ih hitems _)

theorem inner_members {members : List (Key × Item)} (h : ∀ m ∈ members, Inner m.2.remarks) :
    Inner (Item.memberRemarks members) := by
  induction members with
  | nil => exact fun _ hs => by cases hs
  | cons m ms ih =>
    obtain ⟨key, item⟩ := m
    obtain ⟨hm, hms⟩ := List.forall_mem_cons.mp h
    rw [Item.memberRemarks, Item.memberRemark]
    exact (inner_pair hm key _).append (ih hms)

theorem inner_item (item : Item) : Inner item.remarks := by
  have hsingle : ∀ s : Said, s.remark.isInner = true → Inner [s] := fun s hs =>
    List.forall_mem_singleton.mpr hs
  refine Item.induction (P := fun item => Inner item.remarks) ?_ ?_ ?_ ?_ item
  · exact fun s => hsingle _ rfl
  · exact fun x => hsingle _ rfl
  · intro items ih
    rw [Item.remarks]
    exact (inner_elements ih 0).cons rfl
  · intro members ih
    rw [Item.remarks]
    exact (inner_members ih).cons rfl

/-- What is said of the elements of an array from an index on. -/
theorem remarksAt_elements (items : List Item) (i : Nat) (site : Site) :
    (∀ j, remarksAt (.index (i + j) :: site) (Item.elementRemarks i items) =
      (items[j]?.map fun item => remarksAt site item.remarks).getD []) ∧
    (∀ j < i, remarksAt (.index j :: site) (Item.elementRemarks i items) = []) ∧
    (∀ key, remarksAt (.key key :: site) (Item.elementRemarks i items) = []) ∧
    remarksAt [] (Item.elementRemarks i items) = [] := by
  induction items generalizing i with
  | nil => exact ⟨fun _ => rfl, fun _ _ => rfl, fun _ => rfl, rfl⟩
  | cons item items ih =>
    obtain ⟨hbelow, hbefore, hkey, hroot⟩ := ih (i + 1)
    simp only [Item.elementRemarks, remarksAt_append]
    refine ⟨fun j => ?_, fun j hj => ?_, fun key => ?_, ?_⟩
    · cases j with
      | zero =>
        have hunder := remarksAt_under [.index i] site item.remarks
        rw [Nat.add_zero, hbefore i (Nat.lt_succ_self i), List.append_nil]
        exact hunder
      | succ j =>
        rw [remarksAt_under_ne (by simp), List.nil_append, ← Nat.add_assoc,
          Nat.add_right_comm, hbelow j]
        rfl
    · rw [remarksAt_under_ne (by simp; omega), hbefore j (Nat.lt_succ_of_lt hj)]
      rfl
    · rw [remarksAt_under_ne (by simp), hkey]
      rfl
    · rw [remarksAt_under_ne (by simp), hroot]
      rfl

/-- Of the own site of an item it is said first what it is. -/
theorem remarksAt_item (item : Item) :
    ∃ held rs, remarksAt [] item.remarks = .value held :: rs := by
  cases item with
  | text s =>
    rw [Item.remarks, remarksAt_cons_self]
    exact ⟨_, _, rfl⟩
  | scalar x =>
    rw [Item.remarks, remarksAt_cons_self]
    exact ⟨_, _, rfl⟩
  | array items =>
    rw [Item.remarks, remarksAt_cons_self]
    exact ⟨_, _, rfl⟩
  | inline members =>
    rw [Item.remarks, remarksAt_cons_self]
    exact ⟨_, _, rfl⟩

/-! ## 3. Values that are followed -/

/-- **A value is followed by remarks**: there is none where a remark is refused, and otherwise the
    remarks say what stands at its own site and at each site below. -/
inductive Followed (said : List Said) : Option Value → Prop where
  | taken {v : Value} (distinct : v.Distinct)
      (root : Mark.takeAll? none (remarksAt [] said) = some (some (.value v.held)))
      (below : ∀ x site, ∃ m, Mark.takeAll? none (remarksAt (x :: site) said) = some m ∧
        Fits m ((Spot.inside v).at? (x :: site))) : Followed said (some v)
  | refused (site : Site) (refused : Mark.takeAll? none (remarksAt site said) = none) :
      Followed said none

/-- What is said of a value holds wherever the value stands inside another. -/
theorem Followed.fits {said : List Said} {v : Value} (h : Followed said (some v)) (site : Site) :
    ∃ m, Mark.takeAll? none (remarksAt site said) = some m ∧ Fits m ((Spot.inside v).at? site) := by
  cases h with
  | taken distinct root below =>
    cases site with
    | nil => exact ⟨_, root, .inside distinct⟩
    | cons x site => exact below x site

/-- Where something stands under a key, there is a mark. -/
theorem Agrees.marked {marks : Site → Option Mark} {t : Table} (h : Agrees marks t) {key : String}
    {n : Node} (hf : t.find? key = some n) : ∃ m, marks [.key key] = some m := by
  have hkey := h [.key key]
  rw [Table.at?_key, hf, Option.bind_some, Spot.at?] at hkey
  generalize marks [.key key] = m at hkey
  cases hkey <;> exact ⟨_, rfl⟩

/-- **A value under a new key is followed by what is said of it below the key.** -/
theorem follows_add {said : List Said} {v? : Option Value} (h : Followed said v?)
    (hsaid : ∃ held rs, remarksAt [] said = .value held :: rs) {marks : Site → Option Mark}
    {t : Table} (hagrees : Agrees marks t) (key : String) :
    Follows marks (said.map (Said.under [.key key])) (v?.bind fun v => t.add key v) := by
  have hunder : ∀ site, remarksAt (.key key :: site) (said.map (Said.under [.key key])) =
      remarksAt site said := fun site => remarksAt_under [.key key] site said
  cases hf : t.find? key with
  | some n =>
    -- something stands there already, and a value is refused behind it
    obtain ⟨m, hm⟩ := hagrees.marked hf
    obtain ⟨held, rs, hroot⟩ := hsaid
    have hnone : (v?.bind fun v => t.add key v) = none := by
      cases v? with
      | none => rfl
      | some v => rw [Option.bind_some, Table.add, hf]
    rw [hnone]
    refine .refused [.key key] ?_
    rw [hunder, hroot, hm, Mark.takeAll?, Mark.take?_some_value]
    rfl
  | none =>
    have hmark := hagrees.absent hf
    cases h with
    | refused site refused =>
      exact .refused (.key key :: site) (by rw [hunder, hmark, refused])
    | @taken v distinct root below =>
      rw [Option.bind_some, Table.add, hf]
      refine follows_of_puts (m := fun site => (Mark.takeAll? none (remarksAt site said)).getD none)
        hagrees (Table.puts_put hagrees.root.2 key (.leaf v)) (below_under key [] said)
        (fun site => ?_) fun site => ?_
      · rw [hunder, hmark]
        obtain ⟨m, hm, -⟩ := (Followed.taken distinct root below).fits site
        rw [hm]
        rfl
      · cases site with
        | nil =>
          rw [root]
          exact .leaf distinct
        | cons x site =>
          obtain ⟨m, hm, hfits⟩ := below x site
          rw [hm]
          exact hfits

/-- A table is filled, by dotted keys exactly if it came about by them: a remark says so and changes
    nothing. -/
theorem follows_filled {marks : Site → Option Mark} {t : Table} (hagrees : Agrees marks t)
    (plain : Bool) : Follows marks [⟨[], .filled !plain⟩]
      (if (t.origin == .dotted) == plain then none else some t) := by
  have htake : Mark.take? (some (.table t.origin)) (.filled !plain) =
      if (t.origin == .dotted) == plain then none else some (.table t.origin) := by
    cases t.origin <;> cases plain <;> rfl
  have hroot := hagrees.root.1
  split
  · rename_i hrefused
    refine .refused [] ?_
    rw [remarksAt_cons_self, Mark.takeAll?, hroot, htake, if_pos hrefused]
    rfl
  · rename_i htaken
    refine .taken marks (fun site => ?_) hagrees
    cases site with
    | nil =>
      rw [remarksAt_cons_self, Mark.takeAll?, hroot, htake, if_neg htaken]
      rfl
    | cons x site =>
      rw [remarksAt_cons_ne (by simp)]
      rfl

/-- **A value under a dotted key is followed by what is said along the key and of the value.** -/
theorem sound_insert {said : List Said} {v? : Option Value} (h : Followed said v?)
    (hsaid : ∃ held rs, remarksAt [] said = .value held :: rs) (key : Key) :
    Sound (fun t => v?.bind fun v => t.insert key.1 key.2 v) (pairRemarks key said) := by
  obtain ⟨path, name⟩ := key
  have hinsert : (fun t : Table => v?.bind fun v => t.insert path name v) =
      Table.modifyAt true (fun t => v?.bind fun v =>
        if (t.origin == .dotted) == path.isEmpty then none else t.add name v) path := by
    funext t
    exact (Table.modifyAt_bind_left true v? (fun v t =>
      if (t.origin == .dotted) == path.isEmpty then none else t.add name v) path t).symm
  rw [hinsert]
  refine sound_modifyAt (fun t marks count hagrees _ => ?_) true path
  have hadd := (follows_filled hagrees path.isEmpty).bind fun t' marks' _ hagrees' =>
    follows_add h hsaid hagrees' name
  have hchange : ((if (t.origin == .dotted) == path.isEmpty then none else some t).bind
      fun t' => v?.bind fun v => t'.add name v) =
      v?.bind fun v => if (t.origin == .dotted) == path.isEmpty then none else t.add name v := by
    split
    · cases v? <;> rfl
    · rfl
  rw [hchange] at hadd
  exact hadd

/-! ## 4. Finished tables -/

/-- What stands at a spot as a value. -/
def Spot.finished : Spot → Value
  | .node n => n.value
  | .inside v => v

theorem Node.find?_entryValues (key : String) : ∀ es : List (String × Node),
    ((Node.entryValues es).find? fun e => e.1 == key) =
      (es.find? fun e => e.1 == key).map fun e => (e.1, e.2.value)
  | [] => rfl
  | (k, n) :: es => by
      rw [Node.entryValues, Node.entryValue, List.find?_cons, List.find?_cons,
        Node.find?_entryValues key es]
      dsimp only
      cases k == key <;> rfl

theorem Table.getElem?_values : ∀ (ts : List Table) (i : Nat),
    (Table.values ts)[i]? = ts[i]?.map Table.value
  | [], _ => rfl
  | _ :: _, 0 => rfl
  | _ :: ts, i + 1 => Table.getElem?_values ts i

theorem Node.keys_entryValues : ∀ es : List (String × Node),
    (Node.entryValues es).map (·.1) = es.map (·.1)
  | [] => rfl
  | (k, n) :: es => by
      rw [Node.entryValues, List.map_cons, List.map_cons, Node.keys_entryValues es]
      rfl

/-- A step leads to the same in a finished value. -/
theorem Spot.next?_finished (s : Spot) (x : Step) :
    (Spot.inside s.finished).next? x = (s.next? x).map fun s => .inside s.finished := by
  cases s with
  | inside v =>
    rw [Spot.next?, Spot.next?, Option.map_map]
    rfl
  | node n =>
    cases n with
    | leaf v =>
      rw [Spot.next?, Spot.next?, Option.map_map]
      rfl
    | table t =>
      obtain ⟨origin, entries⟩ := t
      cases x with
      | index i => rfl
      | key key =>
        rw [Spot.next?, Spot.next?, Option.map_map]
        simp only [Spot.finished, Node.value, Table.value, Value.next?, Node.find?_entryValues,
          Table.find?, Option.map_map]
        rfl
    | tables ts =>
      cases x with
      | key key => rfl
      | index i =>
        rw [Spot.next?, Spot.next?, Option.map_map]
        simp only [Spot.finished, Node.value, Value.next?, Table.getElem?_values, Option.map_map]
        rfl

/-- **Steps lead to the same in a finished value.** -/
theorem Spot.at?_finished : ∀ (s : Spot) (site : Site),
    (Spot.inside s.finished).at? site = (s.at? site).map fun s => .inside s.finished
  | _, [] => rfl
  | s, x :: site => by
      rw [Spot.at?, Spot.at?, Spot.next?_finished, Option.bind_map, Option.map_bind]
      exact congrArg (Option.bind _) (funext fun s => Spot.at?_finished s site)

theorem Table.Distinct.value {t : Table} (h : t.Distinct) : t.value.Distinct := by
  obtain ⟨origin, entries⟩ := t
  rw [Table.value, Value.Distinct, Node.keys_entryValues]
  exact h

/-! ## 5. Inline tables -/

/-- What may be said of the own site of an inline table is what may be said of a declared one. -/
theorem Mark.takeAll?_inline : ∀ {rs : List Remark}, (∀ r ∈ rs, r.isInner = true) →
    takeAll? (some (.value .inline)) rs =
      (takeAll? (some (.table .declared)) rs).map fun _ => some (.value .inline)
  | [], _ => rfl
  | r :: rs, h => by
      obtain ⟨hr, hrs⟩ := List.forall_mem_cons.mp h
      have ih := takeAll?_inline hrs
      rw [takeAll?, takeAll?]
      cases r with
      | passed | declared | element => cases hr
      | dotted => rfl
      | filled byDots =>
        cases byDots with
        | false => exact ih
        | true => rfl
      | value _ => rfl

/-- What stands at a site in a value. -/
def Mark.IsInner (m : Option Mark) : Prop :=
  m = none ∨ m = some (.table .dotted) ∨ ∃ held, m = some (.value held)

theorem Mark.isInner_takeAll? : ∀ {m m' : Option Mark} {rs : List Remark},
    (∀ r ∈ rs, r.isInner = true) → IsInner m → takeAll? m rs = some m' → IsInner m'
  | _, _, [], _, hm, h => by
      cases h
      exact hm
  | m, m', r :: rs, hrs, hm, h => by
      obtain ⟨hr, hrs⟩ := List.forall_mem_cons.mp hrs
      rw [takeAll?] at h
      obtain ⟨m₁, hstep, h⟩ := Option.bind_eq_some_iff.mp h
      refine isInner_takeAll? hrs ?_ h
      rcases hm with rfl | rfl | ⟨held, rfl⟩
      · rcases r with _ | _ | _ | _ | _ | held <;> cases hr <;> cases hstep
        · exact .inr (.inl rfl)
        · exact .inr (.inr ⟨held, rfl⟩)
      · exact .inr (.inl (congrArg some (take?_dotted hstep).1))
      · exact .inr (.inr ⟨held, congrArg some (take?_value hstep).1⟩)

/-- What stands at a site of a finished table, if only dotted keys and values were said. -/
theorem Fits.finished {m : Option Mark} {s? : Option Spot} (h : Fits m s?) (hm : Mark.IsInner m) :
    Fits m (s?.map fun s => .inside s.finished) := by
  cases h with
  | absent => exact .absent
  | @table t distinct =>
    have horigin : t.origin = .dotted := by
      rcases hm with hm | hm | ⟨held, hm⟩
      · cases hm
      · exact Mark.table.inj (Option.some.inj hm)
      · cases hm
    obtain ⟨origin, entries⟩ := t
    have hvalue := distinct.value
    rw [Table.value] at hvalue
    obtain rfl : origin = .dotted := horigin
    exact .opened hvalue
  | tables =>
    rcases hm with hm | hm | ⟨held, hm⟩ <;> cases hm
  | leaf distinct => exact .inside distinct
  | inside distinct => exact .inside distinct
  | opened distinct => exact .opened distinct

/-- **An inline table is followed by what is said of its members.** -/
theorem followed_inline {said : List Said} {t? : Option Table}
    (h : Follows (Mark.fresh .declared) said t?) (hinner : Inner said) :
    Followed (⟨[], .value .inline⟩ :: said) (t?.map Table.value) := by
  have hroot : Mark.takeAll? none (remarksAt [] (⟨[], .value .inline⟩ :: said)) =
      (Mark.takeAll? (Mark.fresh .declared []) (remarksAt [] said)).map
        fun _ => some (.value .inline) := by
    rw [remarksAt_cons_self]
    exact Mark.takeAll?_inline fun r hr => hinner.of_mem hr
  have hbelow : ∀ x site, Mark.takeAll? none (remarksAt (x :: site) (⟨[], .value .inline⟩ :: said)) =
      Mark.takeAll? (Mark.fresh .declared (x :: site)) (remarksAt (x :: site) said) := by
    intro x site
    rw [remarksAt_cons_ne (by simp)]
    rfl
  cases h with
  | refused site refused =>
    refine .refused site ?_
    cases site with
    | nil => rw [hroot, refused, Option.map_none]
    | cons x site => rw [hbelow, refused]
  | @taken t marks taken agrees =>
    have hheld : t.value.held = .inline := by
      obtain ⟨origin, entries⟩ := t
      rfl
    refine .taken agrees.root.2.value ?_ fun x site => ⟨marks (x :: site), ?_, ?_⟩
    · rw [hroot, taken, hheld, Option.map_some]
    · rw [hbelow, taken]
    · have hm : Mark.IsInner (marks (x :: site)) :=
        Mark.isInner_takeAll? (fun r hr => hinner.of_mem hr) (.inl rfl) (taken (x :: site))
      rw [show t.value = (Spot.node (.table t)).finished by rw [Spot.finished, Node.value],
        Spot.at?_finished]
      exact (agrees (x :: site)).finished hm

theorem Inner.count_element {said : List Said} (h : Inner said) (site : Site) :
    (remarksAt site said).count .element = 0 := by
  rw [List.count_eq_zero]
  intro hmem
  exact absurd (h.of_mem hmem) (by decide)

/-- The members of an inline table are followed one after the other. -/
theorem follows_members {depth : Nat} : ∀ {members : List (Key × Item)},
    (∀ m ∈ members, m.1.Short ∧ Followed m.2.remarks (m.2.read? depth)) →
    ∀ {t : Table} {marks : Site → Option Mark}, Agrees marks t → Counts (fun _ => 0) marks →
      Follows marks (Item.memberRemarks members) (Item.readMembers? depth members t)
  | [], _, t, marks, hagrees, _ => .taken marks (fun _ => rfl) hagrees
  | (key, item) :: members, h, t, marks, hagrees, hcounts => by
      obtain ⟨⟨hshort, hitem⟩, hmembers⟩ := List.forall_mem_cons.mp h
      have hinner : Inner (pairRemarks key item.remarks fun _ => 0) :=
        inner_pair (inner_item item) key _
      have hmember : Follows marks (Item.memberRemark (key, item))
          (Item.readMember? depth (key, item) t) := by
        rw [Item.memberRemark, Item.readMember?,
          if_pos (show key.segments.length ≤ maxSegments from hshort)]
        exact sound_insert hitem (remarksAt_item item) key t marks _ hagrees hcounts
      rw [Item.memberRemarks, Item.readMembers?]
      refine hmember.bind fun t' marks' hmarks' hagrees' => follows_members hmembers hagrees' ?_
      intro site
      rw [Item.memberRemark] at hmarks'
      rw [Mark.count_takeAll? (hmarks' site), hinner.count_element, ← hcounts site, Nat.zero_add]

/-! ## 6. All items -/

/-- A value that no step leads into is followed by what it is. -/
theorem followed_single {v : Value} (hnext : ∀ x, v.next? x = none) (hdistinct : v.Distinct) :
    Followed [⟨[], .value v.held⟩] (some v) := by
  refine .taken hdistinct rfl fun x site => ⟨none, ?_, ?_⟩
  · rw [remarksAt_cons_ne (by simp)]
    rfl
  · rw [Spot.at?, Spot.next?, hnext]
    exact .absent

theorem of_readAll? {depth : Nat} : ∀ {items : List Item} {vs : List Value},
    Item.readAll? depth items = some vs → vs.length = items.length ∧
      ∀ (j : Nat) (item : Item), items[j]? = some item →
        ∃ v, vs[j]? = some v ∧ item.read? depth = some v
  | [], _, h => by
      cases h
      exact ⟨rfl, fun _ _ h => by cases h⟩
  | item :: items, vs, h => by
      rw [Item.readAll?] at h
      obtain ⟨v, hv, h⟩ := Option.bind_eq_some_iff.mp h
      obtain ⟨vs', hvs', rfl⟩ := Option.map_eq_some_iff.mp h
      obtain ⟨hlength, hall⟩ := of_readAll? hvs'
      refine ⟨congrArg (· + 1) hlength, fun j item' hj => ?_⟩
      cases j with
      | zero =>
        cases hj
        exact ⟨v, rfl, hv⟩
      | succ j => exact hall j item' hj

theorem of_readAll?_none {depth : Nat} : ∀ {items : List Item}, Item.readAll? depth items = none →
    ∃ (j : Nat) (item : Item), items[j]? = some item ∧ item.read? depth = none
  | [], h => by cases h
  | item :: items, h => by
      rw [Item.readAll?] at h
      cases hv : item.read? depth with
      | none => exact ⟨0, item, rfl, hv⟩
      | some v =>
        rw [hv, Option.bind_some, Option.map_eq_none_iff] at h
        obtain ⟨j, item', hj, hnone⟩ := of_readAll?_none h
        exact ⟨j + 1, item', hj, hnone⟩

/-- **An array is followed by what is said of its elements.** -/
theorem followed_array {depth : Nat} {items : List Item}
    (h : ∀ item ∈ items, Followed item.remarks (item.read? depth)) :
    Followed (Item.remarks (.array items)) ((Item.readAll? depth items).map .array) := by
  rw [Item.remarks]
  have helement : ∀ j site, remarksAt (.index j :: site)
      (⟨[], .value .array⟩ :: Item.elementRemarks 0 items) =
      (items[j]?.map fun item => remarksAt site item.remarks).getD [] := by
    intro j site
    have hbelow := (remarksAt_elements items 0 site).1 j
    rw [Nat.zero_add] at hbelow
    rw [remarksAt_cons_ne (by simp), hbelow]
  cases hread : Item.readAll? depth items with
  | none =>
    obtain ⟨j, item, hj, hnone⟩ := of_readAll?_none hread
    have hitem := h item (List.mem_of_getElem? hj)
    rw [hnone] at hitem
    cases hitem with
    | refused site refused =>
      refine .refused (.index j :: site) ?_
      rw [helement, hj]
      exact refused
  | some vs =>
    obtain ⟨hlength, hall⟩ := of_readAll? hread
    refine .taken trivial ?_ fun x site => ?_
    · rw [remarksAt_cons_self, (remarksAt_elements items 0 []).2.2.2]
      rfl
    · cases x with
      | key key =>
        refine ⟨none, ?_, .absent⟩
        rw [remarksAt_cons_ne (by simp), (remarksAt_elements items 0 site).2.2.1]
        rfl
      | index j =>
        rw [helement, Spot.at?, Spot.next?, Value.next?, Option.bind_map]
        cases hj : items[j]? with
        | none =>
          have hvs : vs[j]? = none := by
            rw [List.getElem?_eq_none_iff] at hj ⊢
            omega
          rw [hvs]
          exact ⟨none, rfl, .absent⟩
        | some item =>
          obtain ⟨v, hv, hvalue⟩ := hall j item hj
          have hitem := h item (List.mem_of_getElem? hj)
          rw [hvalue] at hitem
          rw [hv]
          exact hitem.fits site

/-- **Every item within the limits is followed by what it says.** -/
theorem followed_read? (item : Item) :
    ∀ depth, item.Within depth → Followed item.remarks (item.read? depth) := by
  refine Item.induction (P := fun item => ∀ depth, item.Within depth →
    Followed item.remarks (item.read? depth)) ?_ ?_ ?_ ?_ item
  · intro s depth _
    rw [Item.read?, Item.remarks]
    exact followed_single (v := .text s) (fun x => by cases x <;> rfl) trivial
  · intro x depth _
    rw [Item.read?, Item.remarks]
    have hnext : ∀ step, x.value.next? step = none := by
      intro step
      cases x <;> cases step <;> rfl
    have hsingle := followed_single hnext (by cases x <;> trivial)
    cases x <;> exact hsingle
  · intro items ih depth hwithin
    cases depth with
    | zero => exact absurd hwithin (by rw [Item.Within]; exact not_false)
    | succ depth =>
      rw [Item.Within, Item.allWithin_iff] at hwithin
      rw [Item.read?]
      exact followed_array fun item hitem => ih item hitem depth (hwithin item hitem)
  · intro members ih depth hwithin
    cases depth with
    | zero => exact absurd hwithin (by rw [Item.Within]; exact not_false)
    | succ depth =>
      rw [Item.Within, Item.membersWithin_iff] at hwithin
      rw [Item.read?, Item.remarks]
      exact followed_inline (follows_members
        (fun m hm => ⟨(hwithin m hm).1, ih m hm depth (hwithin m hm).2⟩)
        (agrees_empty .declared) (counts_empty .declared))
        (inner_members fun m _ => inner_item m.2)

end HostGlue.Toml
