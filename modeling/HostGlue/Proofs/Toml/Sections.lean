import HostGlue.Proofs.Toml.Remarks

/-!
# A document is one tree all the time

The builder keeps the table of the last header apart from the others. This is seen only while lines
are taken: with the last table put back, every line is one change at one path of one tree.

* `Table.descend`, one step of a path into a table with the way back, and the laws of `Table.modifyAt`
  and `Builder.tableAt` along it;
* `Line.act?`, what a line does to the whole tree, and `actAll?`, what a row of lines does;
* **`build_eq`: the table of a row of lines is what their changes make of the empty one.**
-/

namespace HostGlue.Toml

namespace Table

/-! ## 1. Looking up and putting -/

theorem find?_putEntry_self (key : String) (n : Node) : ∀ es : List (String × Node),
    (putEntry key n es).find? (fun e => e.1 == key) = some (key, n)
  | [] => by simp [putEntry]
  | e :: es => by
      rw [putEntry]
      split
      · simp
      · rename_i hne
        rw [List.find?_cons, Bool.eq_false_iff.mpr hne]
        exact find?_putEntry_self key n es

theorem find?_putEntry_ne {key key' : String} (h : key' ≠ key) (n : Node) :
    ∀ es : List (String × Node),
      (putEntry key n es).find? (fun e => e.1 == key') = es.find? fun e => e.1 == key'
  | [] => by simp [putEntry, h.symm]
  | e :: es => by
      rw [putEntry]
      split
      · rename_i heq
        have he : e.1 = key := eq_of_beq heq
        rw [List.find?_cons_of_neg (by simpa using h.symm), List.find?_cons_of_neg]
        simpa [he] using h.symm
      · rw [List.find?_cons, List.find?_cons, find?_putEntry_ne h n es]

@[simp] theorem find?_put_self (key : String) (n : Node) (t : Table) :
    (t.put key n).find? key = some n := by
  rw [find?, put, find?_putEntry_self]
  rfl

theorem find?_put_ne {key key' : String} (h : key' ≠ key) (n : Node) (t : Table) :
    (t.put key n).find? key' = t.find? key' := by
  rw [find?, find?, put, find?_putEntry_ne h]

theorem putEntry_putEntry (key : String) (a b : Node) : ∀ es : List (String × Node),
    putEntry key b (putEntry key a es) = putEntry key b es
  | [] => by simp [putEntry]
  | e :: es => by
      rw [putEntry, putEntry]
      split
      · simp [putEntry]
      · rename_i hne
        rw [putEntry, if_neg hne, putEntry_putEntry key a b es]

@[simp] theorem put_put (key : String) (a b : Node) (t : Table) :
    (t.put key a).put key b = t.put key b := by
  rw [put, put, put, putEntry_putEntry]

theorem find?_erase_ne {key key' : String} (h : key' ≠ key) (t : Table) :
    (t.erase key).find? key' = t.find? key' := by
  rw [find?, find?, erase, List.find?_filter]
  congr 2
  funext e
  by_cases he : e.1 = key'
  · simp [he, h]
  · simp [he]

/-- No key of a table stands in it twice. -/
def Distinct (t : Table) : Prop := (t.entries.map (·.1)).Nodup

theorem mem_putEntry {key k : String} {n : Node} : ∀ {es : List (String × Node)},
    k ∈ (putEntry key n es).map (·.1) ↔ k = key ∨ k ∈ es.map (·.1)
  | [] => by simp [putEntry]
  | e :: es => by
      rw [putEntry]
      split
      · rename_i heq
        have he : e.1 = key := eq_of_beq heq
        simp [he]
      · rw [List.map_cons, List.mem_cons, mem_putEntry, List.map_cons, List.mem_cons]
        exact or_left_comm

theorem nodup_putEntry (key : String) (n : Node) : ∀ {es : List (String × Node)},
    (es.map (·.1)).Nodup → ((putEntry key n es).map (·.1)).Nodup
  | [], _ => by simp [putEntry]
  | e :: es, h => by
      rw [List.map_cons, List.nodup_cons] at h
      rw [putEntry]
      split
      · rename_i heq
        have he : e.1 = key := eq_of_beq heq
        rw [List.map_cons, List.nodup_cons]
        exact ⟨he ▸ h.1, h.2⟩
      · rename_i hne
        rw [List.map_cons, List.nodup_cons, mem_putEntry, not_or]
        exact ⟨⟨fun heq => hne (beq_iff_eq.mpr heq), h.1⟩, nodup_putEntry key n h.2⟩

theorem Distinct.put {t : Table} (h : t.Distinct) (key : String) (n : Node) :
    (t.put key n).Distinct :=
  nodup_putEntry key n h

theorem Distinct.erase {t : Table} (h : t.Distinct) (key : String) : (t.erase key).Distinct :=
  List.Nodup.sublist (List.filter_sublist.map _) h

theorem distinct_empty (origin : Origin) : (empty origin).Distinct := List.nodup_nil

/-! ## 2. One step of a path -/

/-- The table a path goes into under a key, and what is put under the key when that table is
    another. -/
def descend (byDots : Bool) (key : String) (t : Table) : Option (Table × (Table → Node)) :=
  match t.find? key with
  | none => some (empty (if byDots then .dotted else .implied), .table)
  | some (.leaf _) => none
  | some (.table child) =>
    if byDots && child.origin == .declared then none else some (child, .table)
  | some (.tables children) =>
    children.getLast?.map fun child => (child, fun c => .tables (children.dropLast ++ [c]))

theorem modifyAt_cons (byDots : Bool) (change : Table → Option Table) (key : String)
    (path : List String) (t : Table) : modifyAt byDots change (key :: path) t =
      (t.descend byDots key).bind fun d =>
        (modifyAt byDots change path d.1).map fun c => t.put key (d.2 c) := by
  rw [modifyAt, descend]
  cases t.find? key with
  | none => exact Option.map_eq_bind.symm
  | some n =>
    cases n with
    | leaf v => rfl
    | table child =>
      dsimp only
      split
      · rfl
      · exact Option.map_eq_bind.symm
    | tables children =>
      cases hlast : children.getLast? with
      | none => simp only [hlast, Option.map_none, Option.bind_none]
      | some child =>
        simp only [hlast, Option.map_some, Option.bind_some]
        exact Option.map_eq_bind.symm

/-- The way back into a table is the way in again. -/
theorem descend_put {key : String} {t child : Table} {back : Table → Node}
    (h : t.descend false key = some (child, back)) (c : Table) :
    (t.put key (back c)).descend false key = some (c, back) := by
  rw [descend] at h
  split at h
  · cases h
    rw [descend, find?_put_self]
    rfl
  · cases h
  · rw [Bool.false_and, if_neg Bool.false_ne_true] at h
    cases h
    rw [descend, find?_put_self]
    rfl
  · obtain ⟨_, -, heq⟩ := Option.map_eq_some_iff.mp h
    cases heq
    rw [descend, find?_put_self]
    simp

/-- A change at a path behind another change there. -/
theorem modifyAt_bind (f g : Table → Option Table) : ∀ (path : List String) (t : Table),
    (modifyAt false f path t).bind (modifyAt false g path) =
      modifyAt false (fun t => (f t).bind g) path t
  | [], _ => rfl
  | key :: path, t => by
      rw [modifyAt_cons, modifyAt_cons]
      cases hd : t.descend false key with
      | none => rfl
      | some d =>
        have ih := modifyAt_bind f g path d.1
        rw [Option.bind_some, Option.bind_some, ← ih]
        cases modifyAt false f path d.1 with
        | none => rfl
        | some c =>
          rw [Option.map_some, Option.bind_some, Option.bind_some, modifyAt_cons, descend_put hd]
          simp only [Option.bind_some, put_put]

/-- A change at a path with one more step. -/
theorem modifyAt_append (byDots : Bool) (f : Table → Option Table) (key : String) :
    ∀ (path : List String) (t : Table), modifyAt byDots f (path ++ [key]) t =
      modifyAt byDots (modifyAt byDots f [key]) path t
  | [], _ => rfl
  | k :: path, t => by
      rw [List.cons_append, modifyAt_cons, modifyAt_cons]
      simp only [modifyAt_append byDots f key path]

/-- Nothing comes of a change that is refused wherever it is made. -/
theorem modifyAt_none (byDots : Bool) : ∀ (path : List String) (t : Table),
    modifyAt byDots (fun _ => none) path t = none
  | [], _ => rfl
  | key :: path, t => by
      rw [modifyAt_cons]
      simp only [modifyAt_none byDots path, Option.map_none, Option.bind_fun_none]

/-- A change at a path may be chosen before. -/
theorem modifyAt_bind_left {α : Type} (byDots : Bool) (a : Option α) (f : α → Table → Option Table)
    (path : List String) (t : Table) :
    modifyAt byDots (fun t => a.bind fun x => f x t) path t =
      a.bind fun x => modifyAt byDots (f x) path t := by
  cases a with
  | none => exact modifyAt_none byDots path t
  | some x => rfl

end Table

namespace Builder

open Table

/-- The table a path goes to lies one step down. -/
theorem tableAt_cons {key : String} {path : List String} {t c : Table}
    (h : tableAt (key :: path) t = some c) :
    ∃ child back, t.descend false key = some (child, back) ∧ tableAt path child = some c := by
  rw [tableAt] at h
  rw [descend]
  split at h
  · rename_i child hfind
    exact ⟨child, .table, by simp [hfind], h⟩
  · rename_i children hfind
    obtain ⟨child, hlast, hchild⟩ := Option.bind_eq_some_iff.mp h
    refine ⟨child, fun c => .tables (children.dropLast ++ [c]), ?_, hchild⟩
    simp only [hfind, hlast, Option.map_some]
  · cases h

theorem tableAt_put {key : String} {t child : Table} {back : Table → Node}
    (h : t.descend false key = some (child, back)) (path : List String) (c : Table) :
    tableAt (key :: path) (t.put key (back c)) = tableAt path c := by
  rw [tableAt, find?_put_self]
  rw [descend] at h
  split at h
  · cases h
    rfl
  · cases h
  · rw [Bool.false_and, if_neg Bool.false_ne_true] at h
    cases h
    rfl
  · obtain ⟨_, -, heq⟩ := Option.map_eq_some_iff.mp h
    cases heq
    simp

/-- Where a change was made, its result stands. -/
theorem tableAt_modifyAt {f : Table → Option Table} : ∀ {path : List String} {t t' : Table},
    modifyAt false f path t = some t' → ∃ c c', f c = some c' ∧ tableAt path t' = some c'
  | [], t, t', h => ⟨t, t', h, rfl⟩
  | key :: path, t, t', h => by
      rw [modifyAt_cons] at h
      obtain ⟨⟨child, back⟩, hd, h⟩ := Option.bind_eq_some_iff.mp h
      obtain ⟨c, hc, rfl⟩ := Option.map_eq_some_iff.mp h
      obtain ⟨c₀, c₁, hf, hat⟩ := tableAt_modifyAt hc
      exact ⟨c₀, c₁, hf, (tableAt_put hd path c).trans hat⟩

/-- A table that stands at a path may be replaced. -/
theorem exists_replace {path : List String} {t c : Table} (h : tableAt path t = some c)
    (c' : Table) : ∃ t', modifyAt false (fun _ => some c') path t = some t' := by
  induction path generalizing t with
  | nil => exact ⟨c', rfl⟩
  | cons key path ih =>
    obtain ⟨child, back, hd, hat⟩ := tableAt_cons h
    obtain ⟨t', ht'⟩ := ih hat
    exact ⟨t.put key (back t'), by rw [modifyAt_cons, hd, Option.bind_some, ht']; rfl⟩

/-- **A change at a path replaces the table that stands there.** -/
theorem modifyAt_of_tableAt {path : List String} {t c : Table} (h : tableAt path t = some c)
    (g : Table → Option Table) : modifyAt false g path t =
      (g c).bind fun c' => modifyAt false (fun _ => some c') path t := by
  induction path generalizing t with
  | nil =>
    cases h
    exact (Option.bind_fun_some _).symm
  | cons key path ih =>
    obtain ⟨child, back, hd, hat⟩ := tableAt_cons h
    simp only [modifyAt_cons, hd, Option.bind_some]
    rw [ih hat]
    cases g c <;> rfl

/-- A path may be gone twice. -/
theorem modifyAt_passed {path : List String} {t t' : Table} (h : modifyAt false some path t = some t')
    (g : Table → Option Table) : modifyAt false g path t = modifyAt false g path t' := by
  have hbind := modifyAt_bind some g path t
  rw [h, Option.bind_some] at hbind
  exact hbind.symm

end Builder

/-! ## 3. What a line does to the whole tree -/

/-- Declares a table under a key: a new one, or one that was only implied. It moves to the end. -/
def declare? (key : String) (t : Table) : Option Table :=
  (Builder.reopened? key t).map fun c => (t.erase key).put key (.table c)

/-- Adds an element to the array of tables under a key. -/
def pushElement? (key : String) (c : Table) (t : Table) : Option Table :=
  match t.find? key with
  | none => some (t.put key (.tables [c]))
  | some (.tables ts) => some (t.put key (.tables (ts ++ [c])))
  | some _ => none

/-- What a line does to the whole tree. A pair belongs to the table of the header before it, whose
    path and name are given. -/
def Line.act? (owner : List String) (t : Table) : Line → Option Table
  | .table key =>
    if key.segments.length ≤ maxSegments then Table.modifyAt false (declare? key.2) key.1 t else none
  | .element key =>
    if key.segments.length ≤ maxSegments then
      Table.modifyAt false (pushElement? key.2 (.empty .declared)) key.1 t
    else none
  | .pair key item =>
    if key.segments.length ≤ maxSegments then
      (item.read? maxDepth).bind fun v => Table.modifyAt false (Table.insert key.1 key.2 v) owner t
    else none

/-- What lines do to the whole tree. -/
def actAll? : List String → Table → List Line → Option Table
  | _, t, [] => some t
  | owner, t, line :: lines => (line.act? owner t).bind fun t => actAll? (line.section owner) t lines

/-! ## 4. The builder -/

namespace Builder

open Table

/-- A builder holds a tree, with its current table at a path. -/
structure Holds (b : Builder) (owner : List String) (t : Table) : Prop where
  closed : b.close = some t
  current : tableAt owner t = some b.current
  replaced : ∀ c, close { b with current := c } = modifyAt false (fun _ => some c) owner t

theorem holds_start : Holds .start [] (.empty .declared) := ⟨rfl, rfl, fun _ => rfl⟩

/-- A builder after a line and the tree after it: both are refused, or the one holds the other. -/
inductive Result (owner : List String) : Option Builder → Option Table → Prop where
  | refused : Result owner none none
  | taken {b : Builder} {t : Table} (holds : Holds b owner t) : Result owner (some b) (some t)

/-- A pair changes the current table only. -/
theorem Holds.addValue {b : Builder} {owner : List String} {t : Table} (h : Holds b owner t)
    (path : List String) (key : String) (v : Value) :
    Result owner (b.addValue path key v) (modifyAt false (insert path key v) owner t) := by
  rw [modifyAt_of_tableAt h.current, Builder.addValue]
  cases b.current.insert path key v with
  | none => exact .refused
  | some c =>
    obtain ⟨t', ht'⟩ := exists_replace h.current c
    obtain ⟨_, _, hc, hat⟩ := tableAt_modifyAt ht'
    cases hc
    rw [Option.bind_some, ht']
    refine .taken ⟨(h.replaced c).trans ht', hat, fun d => ?_⟩
    -- the current table may be replaced twice
    have hbind := modifyAt_bind (fun _ => some c) (fun _ => some d) owner t
    rw [ht', Option.bind_some] at hbind
    exact (h.replaced d).trans hbind.symm

theorem tableAt_append (key : String) : ∀ (path : List String) (t : Table),
    tableAt (path ++ [key]) t = (tableAt path t).bind (tableAt [key])
  | [], _ => rfl
  | k :: path, t => by
      rw [List.cons_append, tableAt, tableAt]
      split
      · exact tableAt_append key path _
      · rw [Option.bind_assoc]
        exact congrArg (Option.bind _) (funext (tableAt_append key path))
      · rfl

/-- A builder whose current table is put into a tree under a key at a path holds the tree that comes
    of it. -/
theorem holds_of_put {b : Builder} {path : List String} {key : String} {t t' : Table}
    {f : Table → Table → Option Table}
    (hclose : ∀ c, close { b with current := c } = modifyAt false (f c) path t)
    (ht' : modifyAt false (f b.current) path t = some t')
    (hput : ∀ t c d, (f c t).bind (modifyAt false (fun _ => some d) [key]) = f d t)
    (hat : ∀ t t₁ c, f c t = some t₁ → tableAt [key] t₁ = some c) :
    Holds b (path ++ [key]) t' := by
  refine ⟨(hclose b.current).trans ht', ?_, fun d => ?_⟩
  · obtain ⟨c₀, c₁, hc, hpath⟩ := tableAt_modifyAt ht'
    rw [tableAt_append, hpath, Option.bind_some, hat c₀ c₁ b.current hc]
  · have hbind := modifyAt_bind (f b.current) (modifyAt false (fun _ => some d) [key]) path t
    rw [ht', Option.bind_some] at hbind
    rw [hclose d, modifyAt_append, hbind]
    simp only [hput]

/-- A change that is made of a step and a further change is refused where the step is. -/
theorem modifyAt_eq_none {f g : Table → Option Table} {path : List String} {t : Table}
    (h : modifyAt false f path t = none) : modifyAt false (fun t => (f t).bind g) path t = none := by
  rw [← modifyAt_bind f g path t, h, Option.bind_none]

/-- **A header for a table** declares it in the whole tree. -/
theorem Holds.openTable {b : Builder} {owner : List String} {t : Table} (h : Holds b owner t)
    (path : List String) (key : String) :
    Result (path ++ [key]) (b.openTable path key) (modifyAt false (declare? key) path t) := by
  rw [Builder.openTable, h.closed]
  simp only [Option.bind_eq_bind, Option.bind_some]
  cases hpassed : modifyAt false some path t with
  | none =>
    rw [show modifyAt false (declare? key) path t = none from modifyAt_eq_none hpassed]
    exact .refused
  | some root =>
    obtain ⟨parent, _, hparent, hat⟩ := tableAt_modifyAt hpassed
    cases hparent
    rw [modifyAt_passed hpassed, modifyAt_of_tableAt hat, declare?, Option.bind_some, hat,
      Option.bind_some, modifyAt_of_tableAt hat]
    cases reopened? key parent with
    | none => exact .refused
    | some c =>
      obtain ⟨root', hroot'⟩ := exists_replace hat (parent.erase key)
      obtain ⟨t', ht'⟩ := exists_replace hat ((parent.erase key).put key (.table c))
      simp only [Option.bind_some, Option.map_some, hroot', ht']
      refine .taken (holds_of_put (f := fun c t => some ((t.erase key).put key (.table c)))
        (t := root) (fun d => ?_) ?_ (fun t c d => ?_) fun t t₁ c hc => ?_)
      · have hbind := modifyAt_bind (fun t => some (t.erase key))
          (fun t => some (t.put key (.table d))) path root
        rw [modifyAt_of_tableAt hat, Option.bind_some, hroot', Option.bind_some] at hbind
        exact hbind
      · rw [modifyAt_of_tableAt hat]
        exact ht'
      · simp [modifyAt]
      · cases hc
        simp [tableAt]

/-- What makes room for an element of an array of tables. -/
def prepare? (key : String) (t : Table) : Option Table :=
  match t.find? key with
  | none => some (t.put key (.tables []))
  | some (.tables _) => some t
  | some _ => none

theorem prepare?_bind (key : String) (c : Table) (t : Table) :
    (prepare? key t).bind (pushElement? key c) = pushElement? key c t := by
  rw [prepare?, pushElement?]
  cases hf : t.find? key with
  | none => simp [pushElement?]
  | some n => cases n <;> simp [pushElement?, hf]

/-- An element of an array of tables may be replaced. -/
theorem pushElement?_bind (key : String) (t c d : Table) :
    (pushElement? key c t).bind (modifyAt false (fun _ => some d) [key]) =
      pushElement? key d t := by
  rw [pushElement?, pushElement?]
  cases t.find? key with
  | none => simp [modifyAt]
  | some n => cases n <;> simp [modifyAt]

theorem tableAt_pushElement? {key : String} {t t₁ c : Table} (h : pushElement? key c t = some t₁) :
    tableAt [key] t₁ = some c := by
  rw [pushElement?] at h
  split at h
  · cases h
    simp [tableAt]
  · cases h
    simp [tableAt]
  · cases h

/-- **A header for an element of an array of tables** adds it in the whole tree. -/
theorem Holds.openElement {b : Builder} {owner : List String} {t : Table} (h : Holds b owner t)
    (path : List String) (key : String) :
    Result (path ++ [key]) (b.openElement path key)
      (modifyAt false (pushElement? key (.empty .declared)) path t) := by
  have hpush : ∀ c, (modifyAt false (prepare? key) path t).bind
      (modifyAt false (pushElement? key c) path) = modifyAt false (pushElement? key c) path t := by
    intro c
    rw [modifyAt_bind]
    simp only [prepare?_bind]
  rw [Builder.openElement, h.closed, ← hpush]
  simp only [Option.bind_eq_bind, Option.bind_some]
  change Result _ ((modifyAt false (prepare? key) path t).bind _) _
  cases hprepared : modifyAt false (prepare? key) path t with
  | none => exact .refused
  | some root =>
    obtain ⟨c₀, c₁, hc, hat⟩ := tableAt_modifyAt hprepared
    have hsome : ∃ t', modifyAt false (pushElement? key (.empty .declared)) path root = some t' := by
      rw [modifyAt_of_tableAt hat]
      have hroom : ∃ c₂, pushElement? key (.empty .declared) c₁ = some c₂ := by
        rw [prepare?] at hc
        split at hc
        · cases hc
          exact ⟨_, by rw [pushElement?, find?_put_self]⟩
        · rename_i ts hf
          cases hc
          exact ⟨_, by rw [pushElement?, hf]⟩
        · cases hc
      obtain ⟨c₂, hc₂⟩ := hroom
      rw [hc₂]
      exact exists_replace hat c₂
    obtain ⟨t', ht'⟩ := hsome
    rw [Option.bind_some, Option.bind_some, ht']
    exact .taken (holds_of_put (f := pushElement? key) (t := root) (fun _ => rfl) ht'
      (pushElement?_bind key) fun _ _ _ => tableAt_pushElement?)

/-- **A line changes the tree a builder holds.** -/
theorem Holds.apply {b : Builder} {owner : List String} {t : Table} (h : Holds b owner t)
    (line : Line) : Result (line.section owner) (line.apply b) (line.act? owner t) := by
  cases line with
  | table key =>
    rw [Line.apply, Line.act?]
    split
    · exact h.openTable key.1 key.2
    · exact .refused
  | element key =>
    rw [Line.apply, Line.act?]
    split
    · exact h.openElement key.1 key.2
    · exact .refused
  | pair key item =>
    rw [Line.apply, Line.act?]
    split
    · cases item.read? maxDepth with
      | none => exact .refused
      | some v => exact h.addValue key.1 key.2 v
    · exact .refused

theorem Holds.applyAll {b : Builder} {owner : List String} {t : Table} (h : Holds b owner t) :
    ∀ lines : List Line, (lines.foldlM Line.apply b).bind close = actAll? owner t lines
  | [] => h.closed
  | line :: lines => by
      have hline := h.apply line
      rw [List.foldlM_cons, actAll?]
      cases hb : line.apply b with
      | none =>
        rw [hb] at hline
        generalize line.act? owner t = t' at hline
        cases hline
        rfl
      | some b' =>
        rw [hb] at hline
        generalize line.act? owner t = t' at hline
        cases hline with
        | taken holds => exact holds.applyAll lines

end Builder

/-- **The table of a row of lines is what their changes make of the empty one.** -/
theorem build_eq (lines : List Line) : build lines = actAll? [] (.empty .declared) lines :=
  Builder.holds_start.applyAll lines

end HostGlue.Toml
