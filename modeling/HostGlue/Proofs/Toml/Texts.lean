import HostGlue.Proofs.Toml.Keys
import HostGlue.Proofs.Toml.Scalars

/-!
# How a TOML document may be written

* `Item`, what a document says a value is, with the members of inline tables in the order and under
  the dotted keys in which they are written, and `Line`, what a line of a document says;
* **`Item.Spelled`, `Line.Spelled` and `Spelled`, how items, lines and whole documents may be
  written**;
* `Item.read?`, the value an item has, `Line.apply`, what a line does to the document so far, and
  `build`, the table of a row of lines;
* **`documentOf?_spelled`: the table of a text is built from the lines it is written from.**
-/

namespace HostGlue.Toml

/-! ## 1. What a document says -/

/-- What a document says a value is. -/
inductive Item where
  | text (s : String)
  | scalar (x : Scalar)
  | array (items : List Item)
  | inline (members : List (Key × Item))

/-- What a line of a document says: that a table begins, that an element of an array of tables begins,
    or that a key has a value. -/
inductive Line where
  | table (key : Key)
  | element (key : Key)
  | pair (key : Key) (item : Item)

/-! ## 2. The grammar -/

mutual

/-- An item as it may be written. -/
inductive Item.Spelled : Item → List Char → Prop where
  | text {s : String} {cs : List Char} (string : StringSpelled s cs) : Item.Spelled (.text s) cs
  | scalar {x : Scalar} {cs : List Char} (scalar : ScalarSpelled x cs) :
      Item.Spelled (.scalar x) cs
  | array {items : List Item} {cs : List Char} (elements : ItemsSpelled items cs) :
      Item.Spelled (.array items) ('[' :: cs)
  | noMembers {ws : List Char} (blank : Blank ws) :
      Item.Spelled (.inline []) ('\x7b' :: (ws ++ ['\x7d']))
  | inline {members : List (Key × Item)} {cs : List Char} (spelled : MembersSpelled members cs) :
      Item.Spelled (.inline members) ('\x7b' :: cs)

/-- The elements of an array as they may be written, with the closing bracket. Line ends and comments
    may stand between them, and a comma behind the last. -/
inductive ItemsSpelled : List Item → List Char → Prop where
  | nil {g : List Char} (gap : Gap g) : ItemsSpelled [] (g ++ [']'])
  | last {item : Item} {g cs g' : List Char} (gap : Gap g) (spelled : item.Spelled cs)
      (behind : Gap g') : ItemsSpelled [item] (g ++ (cs ++ (g' ++ [']'])))
  | cons {item : Item} {items : List Item} {g cs g' ds : List Char} (gap : Gap g)
      (spelled : item.Spelled cs) (behind : Gap g') (others : ItemsSpelled items ds) :
      ItemsSpelled (item :: items) (g ++ (cs ++ (g' ++ ',' :: ds)))

/-- The members of an inline table as they may be written, with the closing brace. -/
inductive MembersSpelled : List (Key × Item) → List Char → Prop where
  | last {key : Key} {item : Item} {ws ks vs cs us : List Char} (blank : Blank ws)
      (named : KeySpelled key ks) (before : Blank vs) (spelled : item.Spelled cs) (behind : Blank us) :
      MembersSpelled [(key, item)] (ws ++ (ks ++ '=' :: (vs ++ (cs ++ (us ++ ['\x7d'])))))
  | cons {key : Key} {item : Item} {members : List (Key × Item)} {ws ks vs cs us ds : List Char}
      (blank : Blank ws) (named : KeySpelled key ks) (before : Blank vs) (spelled : item.Spelled cs)
      (behind : Blank us) (others : MembersSpelled members ds) :
      MembersSpelled ((key, item) :: members)
        (ws ++ (ks ++ '=' :: (vs ++ (cs ++ (us ++ ',' :: ds)))))

end

/-- A line as it may be written, up to the blanks and the comment at its end. -/
inductive Line.Spelled : Line → List Char → Prop where
  | table {key : Key} {ws ks : List Char} (blank : Blank ws) (named : KeySpelled key ks) :
      Line.Spelled (.table key) ('[' :: (ws ++ (ks ++ [']'])))
  | element {key : Key} {ws ks : List Char} (blank : Blank ws) (named : KeySpelled key ks) :
      Line.Spelled (.element key) ('[' :: '[' :: (ws ++ (ks ++ [']', ']'])))
  | pair {key : Key} {item : Item} {ks vs cs : List Char} (named : KeySpelled key ks)
      (before : Blank vs) (spelled : item.Spelled cs) :
      Line.Spelled (.pair key item) (ks ++ '=' :: (vs ++ cs))

/-- Lines as they may be written one behind the other. The last one needs no line end, and empty lines
    and comments may stand between them. -/
inductive LinesSpelled : List Line → List Char → Prop where
  | nil {g note : List Char} (gap : Gap g) (comment : Comment note) : LinesSpelled [] (g ++ note)
  | last {line : Line} {g cs ws note : List Char} (gap : Gap g) (spelled : line.Spelled cs)
      (blank : Blank ws) (comment : Comment note) : LinesSpelled [line] (g ++ (cs ++ (ws ++ note)))
  | cons {line : Line} {lines : List Line} {g cs ws note nl ds : List Char} (gap : Gap g)
      (spelled : line.Spelled cs) (blank : Blank ws) (comment : Comment note)
      (newline : Newline nl) (others : LinesSpelled lines ds) :
      LinesSpelled (line :: lines) (g ++ (cs ++ (ws ++ (note ++ (nl ++ ds)))))

/-- **A text is one of those that a row of lines may be written as**, perhaps behind a byte order
    mark. -/
inductive Spelled (lines : List Line) : String → Prop where
  | plain {cs : List Char} (spelled : LinesSpelled lines cs) : Spelled lines (String.ofList cs)
  | marked {cs : List Char} (spelled : LinesSpelled lines cs) :
      Spelled lines (String.ofList ('\ufeff' :: cs))

/-! ## 3. What the lines make -/

mutual

/-- The value of an item, if containers may be nested so deep. Items that are nested deeper, inline
    tables that give a key twice and keys of too many segments have none. -/
def Item.read? : Nat → Item → Option Value
  | _, .text s => some (.text s)
  | _, .scalar x => some x.value
  | 0, .array _ => none
  | depth + 1, .array items => (Item.readAll? depth items).map .array
  | 0, .inline _ => none
  | depth + 1, .inline members =>
    (Item.readMembers? depth members (.empty .declared)).map Table.value
termination_by structural _ item => item

/-- The values of the elements of an array. -/
def Item.readAll? (depth : Nat) : List Item → Option (List Value)
  | [] => some []
  | item :: items => (item.read? depth).bind fun v => (Item.readAll? depth items).map (v :: ·)
termination_by structural items => items

/-- The table of the members of an inline table, behind those before them. -/
def Item.readMembers? (depth : Nat) : List (Key × Item) → Table → Option Table
  | [], t => some t
  | m :: ms, t => (Item.readMember? depth m t).bind (Item.readMembers? depth ms)
termination_by structural members => members

/-- A table with one more member. -/
def Item.readMember? (depth : Nat) : Key × Item → Table → Option Table
  | (key, item), t =>
    if key.segments.length ≤ maxSegments then (item.read? depth).bind (t.insert key.1 key.2) else none
termination_by structural member => member

end

/-- What a line does to the document so far. -/
def Line.apply (b : Builder) : Line → Option Builder
  | .table key => if key.segments.length ≤ maxSegments then b.openTable key.1 key.2 else none
  | .element key => if key.segments.length ≤ maxSegments then b.openElement key.1 key.2 else none
  | .pair key item =>
    if key.segments.length ≤ maxSegments then
      (item.read? maxDepth).bind (b.addValue key.1 key.2)
    else none

/-- The table of a row of lines, if it is a document. -/
def build (lines : List Line) : Option Table :=
  (lines.foldlM Line.apply .start).bind Builder.close

/-! ## 4. Reading items -/

/-- What is read as a scalar is read as a value, however deep it stands. -/
theorem scanValue_of_scanScalar {cs : List Char} {r : Value × List Char}
    (h : scanScalar cs = some r) (depth : Nat) : scanValue depth cs = some r := by
  have harray : ∀ tail, cs ≠ '[' :: tail := by
    rintro tail rfl
    cases h
  have htable : ∀ tail, cs ≠ '\x7b' :: tail := by
    rintro tail rfl
    cases h
  cases depth with
  | zero =>
    rw [scanValue]
    · exact h
    · exact harray
    · exact htable
  | succ depth =>
    rw [scanValue]
    · exact h
    · exact harray
    · exact htable

/-- A character no value begins with. -/
def isNoStart (c : Char) : Bool := isGap c || c == ']'

/-- What is read as a scalar begins with no blank, no comment and no bracket. -/
theorem begins_of_scanScalar {cs : List Char} {r : Value × List Char} (h : scanScalar cs = some r) :
    ∃ c tail, cs = c :: tail ∧ isNoStart c = false := by
  rcases cs with _ | ⟨c, tail⟩
  · cases h
  · refine ⟨c, tail, rfl, ?_⟩
    rw [← Bool.not_eq_true]
    intro hc
    simp only [isNoStart, isGap, isBlank, Bool.or_eq_true, beq_iff_eq] at hc
    rcases hc with ((((rfl | rfl) | rfl) | rfl) | rfl) | rfl <;> cases h

/-- A string is read as a scalar. -/
theorem scanScalar_string {s : String} {cs : List Char} (h : StringSpelled s cs) {rest : List Char}
    (hrest : NotAhead isQuote rest) : scanScalar (cs ++ rest) = some (.text s, rest) := by
  have hread := congrArg (Option.map fun r : String × List Char => (Value.text r.1, r.2))
    (scanString_append h hrest)
  rw [Option.map_map] at hread
  obtain ⟨c, tail, rfl, hc⟩ := h.begins
  rw [List.cons_append, scanScalar]
  exact (if_pos hc).trans hread

/-- How an item begins. -/
theorem Item.Spelled.begins {item : Item} {cs : List Char} (h : item.Spelled cs) :
    ∃ c tail, cs = c :: tail ∧ isNoStart c = false := by
  have hfollow : Follow [] := ⟨[], [], rfl, blank_nil, nofun⟩
  cases h with
  | text string =>
    have hread := scanScalar_string string (notAhead_nil isQuote)
    rw [List.append_nil] at hread
    exact begins_of_scanScalar hread
  | scalar scalar =>
    have hread := scanScalar_append scalar hfollow
    rw [List.append_nil] at hread
    exact begins_of_scanScalar hread
  | array => exact ⟨'[', _, rfl, by decide⟩
  | noMembers => exact ⟨'\x7b', _, rfl, by decide⟩
  | inline => exact ⟨'\x7b', _, rfl, by decide⟩

theorem Item.Spelled.notBlank {item : Item} {cs : List Char} (h : item.Spelled cs)
    (rest : List Char) : NotAhead isBlank (cs ++ rest) := by
  obtain ⟨c, tail, rfl, hc⟩ := h.begins
  simp only [isNoStart, isGap, Bool.or_eq_false_iff] at hc
  exact notAhead_cons hc.1.1.1.1 _

/-- An item is not passed over. -/
theorem Item.Spelled.skipLines_gap {item : Item} {g cs : List Char} (h : item.Spelled cs)
    (gap : Gap g) (rest : List Char) :
    ∃ c tail, skipLines false (g ++ (cs ++ rest)) = c :: tail ∧ cs ++ rest = c :: tail ∧ c ≠ ']' := by
  obtain ⟨c, tail, rfl, hc⟩ := h.begins
  rw [isNoStart, Bool.or_eq_false_iff, beq_eq_false_iff_ne] at hc
  refine ⟨c, tail ++ rest, ?_, rfl, hc.2⟩
  rw [Toml.skipLines_gap gap]
  exact skipLines_cons hc.1 _

theorem ItemsSpelled.length_le {items : List Item} {cs : List Char} (h : ItemsSpelled items cs) :
    items.length ≤ cs.length := by
  induction items generalizing cs with
  | nil => exact Nat.zero_le _
  | cons item items ih =>
    cases h with
    | last =>
      simp only [List.length_cons, List.length_append, List.length_nil]
      omega
    | cons _ _ _ others =>
      have hle := ih others
      simp only [List.length_cons, List.length_append]
      omega

theorem MembersSpelled.length_le {members : List (Key × Item)} {cs : List Char}
    (h : MembersSpelled members cs) : members.length ≤ cs.length := by
  induction members generalizing cs with
  | nil => exact Nat.zero_le _
  | cons m members ih =>
    cases h with
    | last =>
      simp only [List.length_cons, List.length_append, List.length_nil]
      omega
    | cons _ _ _ _ _ others =>
      have hle := ih others
      simp only [List.length_cons, List.length_append]
      omega

/-- Blanks in front of members are passed over, and what follows them closes no table. -/
theorem MembersSpelled.skipBlanks {members : List (Key × Item)} {cs : List Char}
    (h : MembersSpelled members cs) : ∃ ds, MembersSpelled members ds ∧
      ∀ rest, Toml.skipBlanks (cs ++ rest) = ds ++ rest ∧ ∀ tail, ds ++ rest ≠ '\x7d' :: tail := by
  have hkey : ∀ {ws ks ds : List Char} {key : Key}, Blank ws → KeySpelled key ks → ∀ rest,
      Toml.skipBlanks (ws ++ (ks ++ ds) ++ rest) = ks ++ ds ++ rest ∧
        ∀ tail, ks ++ ds ++ rest ≠ '\x7d' :: tail := by
    intro ws ks ds key blank named rest
    rw [List.append_assoc, List.append_assoc]
    refine ⟨skipBlanks_append blank (SegmentsSpelled.notBlank named _), ?_⟩
    obtain ⟨c, tail, rfl, hc⟩ := SegmentsSpelled.begins named
    exact fun _ heq => ne_of_isKeyStart hc (by decide) (List.cons.inj heq).1
  cases h with
  | last blank named before spelled behind =>
    exact ⟨_, .last blank_nil named before spelled behind, hkey blank named⟩
  | cons blank named before spelled behind others =>
    exact ⟨_, .cons blank_nil named before spelled behind others, hkey blank named⟩

/-- A key, an equals sign and an item are read, if the key has not too many segments. -/
theorem scanPair_append {key : Key} {ws ks vs cs rest : List Char} {item : Item} {depth : Nat}
    (blank : Blank ws) (named : KeySpelled key ks) (before : Blank vs) (spelled : item.Spelled cs)
    (hread : scanValue depth (cs ++ rest) = (item.read? depth).map fun v => (v, rest)) :
    scanPair (scanValue depth) (ws ++ (ks ++ '=' :: (vs ++ (cs ++ rest)))) =
      if key.segments.length ≤ maxSegments then
        (item.read? depth).map fun v => ((key, v), rest)
      else none := by
  rw [scanPair, scanKey_append named ⟨'=', _, rfl, .inl rfl⟩ blank]
  split
  · simp only [Option.bind_eq_bind, Option.bind_some, scanChar_append,
      skipBlanks_append before (spelled.notBlank rest), hread]
    cases item.read? depth <;> rfl
  · rfl

/-- What a loop over the elements of an array does at an element. -/
theorem scanItems_item {value : Scan Value} {fuel : Nat} {cs tail : List Char} {c : Char}
    (h : skipLines false cs = c :: tail) (hc : c ≠ ']') :
    scanItems value (fuel + 1) cs = (value (c :: tail)).bind fun r =>
      match skipLines false r.2 with
      | ',' :: rest => (scanItems value fuel rest).map fun s => (r.1 :: s.1, s.2)
      | ']' :: rest => some ([r.1], rest)
      | _ => none := by
  rw [scanItems, h]
  split
  · rename_i heq
    exact absurd (List.cons.inj heq).1 hc
  · simp only [Option.bind_eq_bind, Option.map_eq_bind]
    rfl

/-- An element is read, whatever gaps stand around it, and the mark behind it says how to go on. -/
theorem scanItems_element {value : Scan Value} {fuel : Nat} {g cs g' tail : List Char} {c : Char}
    {item : Item} {v? : Option Value} (gap : Gap g) (spelled : item.Spelled cs) (behind : Gap g')
    (hmark : skipLines false (c :: tail) = c :: tail)
    (hread : value (cs ++ (g' ++ c :: tail)) = v?.map fun v => (v, g' ++ c :: tail)) :
    scanItems value (fuel + 1) (g ++ (cs ++ (g' ++ c :: tail))) = v?.bind fun v =>
      match c :: tail with
      | ',' :: rest => (scanItems value fuel rest).map fun s => (v :: s.1, s.2)
      | ']' :: rest => some ([v], rest)
      | _ => none := by
  obtain ⟨d, front, hskip, heq, hclose⟩ := spelled.skipLines_gap gap (g' ++ c :: tail)
  rw [scanItems_item hskip hclose, ← heq, hread]
  cases v? with
  | none => rfl
  | some v => simp only [Option.map_some, Option.bind_some, skipLines_gap behind, hmark]

/-- What closes no inline table at its start is read as members. -/
theorem scanInline_members {value : Scan Value} {cs ds : List Char} (h : skipBlanks cs = ds)
    (hclose : ∀ tail, ds ≠ '\x7d' :: tail) :
    scanInline value cs = scanMembers value (ds.length + 1) (.empty .declared) ds := by
  rw [scanInline, h]
  split
  · exact absurd rfl (hclose _)
  · rfl

/-- What a loop over the members of an inline table does at a member. -/
theorem scanMembers_member (value : Scan Value) (fuel : Nat) (t : Table) (cs : List Char) :
    scanMembers value (fuel + 1) t cs = (scanPair value cs).bind fun r =>
      (t.insert r.1.1.1 r.1.1.2 r.1.2).bind fun t =>
        match skipBlanks r.2 with
        | ',' :: rest => scanMembers value fuel t rest
        | '\x7d' :: rest => some (t, rest)
        | _ => none := rfl

mutual

/-- **An item that may be written is read as its value**, whatever a value may stand in front of. -/
theorem scanValue_append : ∀ (item : Item) {cs : List Char}, item.Spelled cs → ∀ (depth : Nat)
    {rest : List Char}, Follow rest →
    scanValue depth (cs ++ rest) = (item.read? depth).map fun v => (v, rest)
  | .text s, _, .text string, depth, rest, hrest => by
      rw [Item.read?]
      exact scanValue_of_scanScalar
        (scanScalar_string string (hrest.notAhead (by decide) (by decide))) depth
  | .scalar _, _, .scalar scalar, depth, rest, hrest => by
      rw [Item.read?]
      exact scanValue_of_scanScalar (scanScalar_append scalar hrest) depth
  | .array items, _, .array elements, 0, rest, _ => rfl
  | .array items, _, @Item.Spelled.array _ cs elements, depth + 1, rest, hrest => by
      have hlength := elements.length_le
      have hfuel : items.length < (cs ++ rest).length + 1 := by
        rw [List.length_append]
        omega
      rw [Item.read?, List.cons_append, scanValue, scanItems_append items elements depth hfuel rest,
        Option.map_map, Option.map_map]
      rfl
  | .inline members, _, h, 0, rest, _ => by
      cases h <;> rfl
  | .inline members, _, h, depth + 1, rest, _ => by
      rw [Item.read?]
      cases h with
      | noMembers blank =>
        have hskip := skipBlanks_append blank (notAhead_cons (c := '\x7d') (by decide) rest)
        rw [List.cons_append, List.append_assoc, List.singleton_append, scanValue, scanInline, hskip]
        rfl
      | inline spelled =>
        obtain ⟨ds, hds, hskip⟩ := spelled.skipBlanks
        obtain ⟨hblanks, hclose⟩ := hskip rest
        have hlength := hds.length_le
        have hfuel : members.length < (ds ++ rest).length + 1 := by
          rw [List.length_append]
          omega
        have hread := scanMembers_append members hds depth hfuel (.empty .declared) rest
        rw [List.cons_append, scanValue, scanInline_members hblanks hclose, hread, Option.map_map,
          Option.map_map]
        rfl
termination_by structural item => item

/-- The elements of an array are read up to its closing bracket. -/
theorem scanItems_append : ∀ (items : List Item) {cs : List Char}, ItemsSpelled items cs →
    ∀ (depth : Nat) {fuel : Nat}, items.length < fuel → ∀ rest : List Char,
    scanItems (scanValue depth) fuel (cs ++ rest) =
      (Item.readAll? depth items).map fun vs => (vs, rest)
  | _, _, _, _, 0, hfuel, _ => absurd hfuel (Nat.not_lt_zero _)
  | [], _, h, depth, fuel + 1, _, rest => by
      cases h with
      | nil gap =>
        rw [List.append_assoc, scanItems, skipLines_gap gap]
        rfl
  | item :: items, _, h, depth, fuel + 1, hfuel, rest => by
      have hfew : items.length < fuel := Nat.lt_of_succ_lt_succ hfuel
      rw [Item.readAll?]
      cases h with
      | @last _ g cs g' gap spelled behind =>
        have hread := scanValue_append item spelled depth
          (follow_gap behind (c := ']') (by decide) rest)
        simp only [List.append_assoc, List.singleton_append]
        rw [scanItems_element gap spelled behind rfl hread, Item.readAll?]
        cases item.read? depth <;> rfl
      | @cons _ _ g cs g' ds gap spelled behind others =>
        have hread := scanValue_append item spelled depth
          (follow_gap behind (c := ',') (by decide) (ds ++ rest))
        have hothers := scanItems_append items others depth hfew rest
        simp only [List.append_assoc, List.cons_append]
        rw [scanItems_element gap spelled behind rfl hread]
        cases item.read? depth with
        | none => rfl
        | some v =>
          simp only [Option.bind_some, hothers, Option.map_map]
          rfl
termination_by structural items => items

/-- The members of an inline table are read up to its closing brace. -/
theorem scanMembers_append : ∀ (members : List (Key × Item)) {cs : List Char},
    MembersSpelled members cs → ∀ (depth : Nat) {fuel : Nat}, members.length < fuel →
    ∀ (t : Table) (rest : List Char), scanMembers (scanValue depth) fuel t (cs ++ rest) =
      (Item.readMembers? depth members t).map fun t => (t, rest)
  | _, _, _, _, 0, hfuel, _, _ => absurd hfuel (Nat.not_lt_zero _)
  | [], _, h, depth, fuel + 1, _, t, rest => by
      cases h
  | m :: members, _, h, depth, fuel + 1, hfuel, t, rest => by
      have hfew : members.length < fuel := Nat.lt_of_succ_lt_succ hfuel
      have hmember := @scanMember_append m
      have hmembers := @scanMembers_append members
      rw [Item.readMembers?, scanMembers_member]
      cases h with
      | @last key item ws ks vs cs us blank named before spelled behind =>
        have hpair := hmember blank named before spelled depth
          (follow_blank behind (c := '\x7d') (by decide) rest)
        have hbehind := skipBlanks_append behind (notAhead_cons (c := '\x7d') (by decide) rest)
        simp only [List.append_assoc, List.cons_append, List.nil_append]
        rw [hpair, Item.readMember?]
        split
        · cases item.read? depth with
          | none => rfl
          | some v =>
            simp only [Option.map_some, Option.bind_some, hbehind]
            cases t.insert key.1 key.2 v <;> rfl
        · rfl
      | @cons key item _ ws ks vs cs us ds blank named before spelled behind others =>
        have hpair := hmember blank named before spelled depth
          (follow_blank behind (c := ',') (by decide) (ds ++ rest))
        have hbehind := skipBlanks_append behind (notAhead_cons (c := ',') (by decide) (ds ++ rest))
        have hothers := fun t => hmembers others depth hfew t rest
        simp only [List.append_assoc, List.cons_append]
        rw [hpair, Item.readMember?]
        split
        · cases item.read? depth with
          | none => rfl
          | some v =>
            simp only [Option.map_some, Option.bind_some, hbehind]
            cases t.insert key.1 key.2 v with
            | none => rfl
            | some t => exact hothers t
        · rfl
termination_by structural members => members

/-- A member of an inline table is read. -/
theorem scanMember_append : ∀ (m : Key × Item) {ws ks vs cs : List Char}, Blank ws →
    KeySpelled m.1 ks → Blank vs → m.2.Spelled cs → ∀ (depth : Nat) {rest : List Char}, Follow rest →
    scanPair (scanValue depth) (ws ++ (ks ++ '=' :: (vs ++ (cs ++ rest)))) =
      if m.1.segments.length ≤ maxSegments then
        (m.2.read? depth).map fun v => ((m.1, v), rest)
      else none
  | (_, item), _, _, _, _, blank, named, before, spelled, depth, _, hrest =>
      scanPair_append blank named before spelled (scanValue_append item spelled depth hrest)
termination_by structural m => m

end

/-! ## 5. Reading lines -/

/-- How a line begins. -/
theorem Line.Spelled.begins {line : Line} {cs : List Char} (h : line.Spelled cs) :
    ∃ c tail, cs = c :: tail ∧ (c = '[' ∨ isKeyStart c = true) := by
  cases h with
  | table => exact ⟨'[', _, rfl, .inl rfl⟩
  | element => exact ⟨'[', _, rfl, .inl rfl⟩
  | pair named =>
    obtain ⟨c, tail, rfl, hc⟩ := SegmentsSpelled.begins named
    exact ⟨c, _, rfl, .inr hc⟩

/-- What no line begins with. -/
theorem Line.Spelled.notAhead {line : Line} {cs : List Char} (h : line.Spelled cs)
    {p : Char → Bool} (hbracket : p '[' = false) (hkey : ∀ c, isKeyStart c = true → p c = false)
    (rest : List Char) : NotAhead p (cs ++ rest) := by
  obtain ⟨c, tail, rfl, rfl | hc⟩ := h.begins
  · exact notAhead_cons hbracket _
  · exact notAhead_cons (hkey c hc) _

/-- What a key begins with, no gap begins with. -/
theorem isGap_of_isKeyStart {c : Char} (h : isKeyStart c = true) : isGap c = false := by
  simp only [isGap, isBlank, Bool.or_eq_false_iff, beq_eq_false_iff_ne]
  exact ⟨⟨⟨⟨ne_of_isKeyStart h (by decide), ne_of_isKeyStart h (by decide)⟩,
    ne_of_isKeyStart h (by decide)⟩, ne_of_isKeyStart h (by decide)⟩,
    ne_of_isKeyStart h (by decide)⟩

/-- A line is not passed over. -/
theorem Line.Spelled.skipLines_gap {line : Line} {g cs : List Char} (h : line.Spelled cs)
    (gap : Gap g) (rest : List Char) :
    skipLines false (g ++ (cs ++ rest)) = cs ++ rest ∧ cs ++ rest ≠ [] := by
  have hstart := h.notAhead (p := isGap) (by decide) (fun c => isGap_of_isKeyStart) rest
  obtain ⟨c, tail, rfl, -⟩ := h.begins
  rw [Toml.skipLines_gap gap]
  exact ⟨skipLines_cons (hstart c rfl) _, List.cons_ne_nil _ _⟩

/-- **A line that may be written does to the document what it says**, if its end follows. -/
theorem scanLine_append {line : Line} {cs : List Char} (h : line.Spelled cs) (b : Builder)
    {behind rest : List Char} (hfollow : Follow behind) (hend : lineEnd? behind = some rest) :
    scanLine b (cs ++ behind) = (line.apply b).map fun b => (b, rest) := by
  cases h with
  | @table key ws ks blank named =>
    have hbehind : BehindKey (']' :: behind) := ⟨']', _, rfl, .inr rfl⟩
    have hkey := scanKey_append named hbehind blank
    have hother : ∀ tail, ws ++ (ks ++ ']' :: behind) ≠ '[' :: tail := by
      obtain ⟨c, ks, rfl, hc⟩ := SegmentsSpelled.begins named
      intro tail heq
      rcases ws with _ | ⟨w, ws⟩
      · exact ne_of_isKeyStart hc (by decide) (List.cons.inj heq).1
      · have hw := blank w List.mem_cons_self
        rw [(List.cons.inj heq).1] at hw
        exact absurd hw (by decide)
    simp only [List.cons_append, List.append_assoc, List.nil_append]
    rw [scanLine, hkey, Line.apply]
    · split
      · simp only [Option.bind_eq_bind, Option.bind_some, scanChar_append, hend]
        cases b.openTable key.1 key.2 <;> rfl
      · rfl
    · exact hother
  | @element key ws ks blank named =>
    have hbehind : BehindKey (']' :: ']' :: behind) := ⟨']', _, rfl, .inr rfl⟩
    have hkey := scanKey_append named hbehind blank
    simp only [List.cons_append, List.append_assoc, List.nil_append]
    rw [scanLine, hkey, Line.apply]
    split
    · simp only [Option.bind_eq_bind, Option.bind_some, scanChar_append, hend]
      cases b.openElement key.1 key.2 <;> rfl
    · rfl
  | @pair key item ks vs cs named before spelled =>
    have hpair := scanPair_append blank_nil named before spelled
      (scanValue_append item spelled maxDepth hfollow)
    have hother : ∀ tail, ks ++ '=' :: (vs ++ (cs ++ behind)) ≠ '[' :: tail := by
      obtain ⟨c, ks, rfl, hc⟩ := SegmentsSpelled.begins named
      exact fun tail heq => ne_of_isKeyStart hc (by decide) (List.cons.inj heq).1
    simp only [List.append_assoc, List.cons_append]
    rw [List.nil_append] at hpair
    rw [scanLine, hpair, Line.apply]
    · split
      · cases item.read? maxDepth with
        | none => rfl
        | some v =>
          simp only [Option.map_some, Option.bind_eq_bind, Option.bind_some, hend]
          cases b.addValue key.1 key.2 v <;> rfl
      · rfl
    · exact fun tail => hother ('[' :: tail)
    · exact hother

theorem LinesSpelled.length_le {lines : List Line} {cs : List Char} (h : LinesSpelled lines cs) :
    lines.length ≤ cs.length := by
  induction h with
  | nil => exact Nat.zero_le _
  | last _ spelled =>
    obtain ⟨c, tail, rfl, -⟩ := spelled.begins
    simp only [List.length_cons, List.length_append, List.length_nil]
    omega
  | cons _ spelled _ _ _ _ ih =>
    obtain ⟨c, tail, rfl, -⟩ := spelled.begins
    simp only [List.length_cons, List.length_append]
    omega

/-- What a loop over the lines does at a line. -/
theorem scanLines_line {fuel : Nat} {b : Builder} {cs ds : List Char}
    (h : skipLines false cs = ds) (hds : ds ≠ []) :
    scanLines (fuel + 1) b cs = (scanLine b ds).bind fun r => scanLines fuel r.1 r.2 := by
  rw [scanLines, h]
  split
  · exact absurd rfl hds
  · rfl

/-- **Lines that may be written are taken one after the other.** -/
theorem scanLines_append {lines : List Line} {cs : List Char} (h : LinesSpelled lines cs) :
    ∀ {fuel : Nat} (b : Builder), lines.length < fuel →
      scanLines fuel b cs = lines.foldlM Line.apply b := by
  induction h with
  | nil gap comment =>
    intro fuel b hfuel
    obtain ⟨fuel, rfl⟩ := Nat.exists_eq_succ_of_ne_zero (Nat.pos_iff_ne_zero.mp hfuel)
    rw [scanLines, skipLines_end gap comment]
    rfl
  | @last line g cs ws note gap spelled blank comment =>
    intro fuel b hfuel
    obtain ⟨fuel, rfl⟩ : ∃ k, fuel = k + 1 + 1 := ⟨fuel - 2, by simp at hfuel; omega⟩
    obtain ⟨hskip, hne⟩ := spelled.skipLines_gap gap (ws ++ note)
    rw [scanLines_line hskip hne, scanLine_append spelled b (follow_last blank comment)
      (lineEnd?_last blank comment), List.foldlM_cons]
    cases line.apply b <;> rfl
  | @cons line lines g cs ws note nl ds gap spelled blank comment newline _ ih =>
    intro fuel b hfuel
    obtain ⟨fuel, rfl⟩ : ∃ k, fuel = k + 1 := ⟨fuel - 1, by simp at hfuel; omega⟩
    obtain ⟨hskip, hne⟩ := spelled.skipLines_gap gap (ws ++ (note ++ (nl ++ ds)))
    rw [scanLines_line hskip hne, scanLine_append spelled b
      (follow_line blank comment newline ds) (lineEnd?_append blank comment newline ds),
      List.foldlM_cons]
    cases line.apply b with
    | none => rfl
    | some b => exact ih b (Nat.lt_of_succ_lt_succ hfuel)

theorem notAhead_gap {p : Char → Bool} (h : ∀ c, isGap c = true → p c = false) {g rest : List Char}
    (hg : Gap g) (hrest : NotAhead p rest) : NotAhead p (g ++ rest) := by
  cases hg with
  | nil => exact hrest
  | blank blank => exact notAhead_cons (h _ (by rw [isGap, blank]; rfl)) _
  | line comment newline =>
    rw [List.append_assoc, List.append_assoc]
    exact notAhead_comment (h '#' (by decide)) comment
      (notAhead_newline ⟨h '\n' (by decide), h '\r' (by decide)⟩ newline _)

/-- No lines begin with a byte order mark. -/
theorem LinesSpelled.notMarked {lines : List Line} {cs : List Char} (h : LinesSpelled lines cs) :
    NotAhead (· == '\ufeff') cs := by
  have hgap : ∀ c, isGap c = true → (c == '\ufeff') = false := by
    intro c hc
    rw [beq_eq_false_iff_ne]
    rintro rfl
    exact absurd hc (by decide)
  have hkey : ∀ c, isKeyStart c = true → (c == '\ufeff') = false := by
    intro c hc
    rw [beq_eq_false_iff_ne]
    exact ne_of_isKeyStart hc (by decide)
  cases h with
  | nil gap comment =>
    have hcomment := notAhead_comment (p := (· == '\ufeff')) (by decide) comment (notAhead_nil _)
    rw [List.append_nil] at hcomment
    exact notAhead_gap hgap gap hcomment
  | last gap spelled => exact notAhead_gap hgap gap (spelled.notAhead (by decide) hkey _)
  | cons gap spelled => exact notAhead_gap hgap gap (spelled.notAhead (by decide) hkey _)

/-- **The table of a text is built from the lines it is written from.** -/
theorem documentOf?_spelled {lines : List Line} {text : String} (h : Spelled lines text) :
    documentOf? text = build lines := by
  have hlines : ∀ {cs : List Char}, LinesSpelled lines cs →
      (scanLines (cs.length + 1) .start cs).bind Builder.close = build lines := by
    intro cs spelled
    rw [scanLines_append spelled .start (Nat.lt_succ_of_le spelled.length_le)]
    rfl
  cases h with
  | @plain cs spelled =>
    have hmark : dropMark cs = cs := by
      unfold dropMark
      split
      · exact absurd (spelled.notMarked _ rfl) (by decide)
      · rfl
    rw [documentOf?, String.toList_ofList, hmark]
    exact hlines spelled
  | @marked cs spelled =>
    rw [documentOf?, String.toList_ofList]
    exact hlines spelled

end HostGlue.Toml
