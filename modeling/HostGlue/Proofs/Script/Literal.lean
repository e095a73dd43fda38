import HostGlue.Proofs.Script.Nesting

/-!
# Object literals

A document registers an object literal. This file says what a reader of script text makes of one:

* `readProperties`, the properties of a literal from its text: a name, a colon, and as the value all that
  stands in front of the next comma outside of brackets and literals;
* `Passes`, a piece of text that belongs to the value it stands in; **`passes_of_turns`, that every piece
  in brackets that turns by itself is one**, whatever commas are in it;
* `Property.read_code`, that a property is read back, by its name and as the text of its function;
* `Object` and `Object.evaluate`, what the literal evaluates to. A property replaces an earlier one of
  its name, and the name `__proto__` sets the prototype.
-/

namespace HostGlue

namespace Text

/-! ## 1. Places behind a text -/

/-- Where a reader is behind a character. -/
def Place.behind : Place → Char → Place
  | .outside, c => if c = '\x27' then .inside else .outside
  | .inside, c => if c = '\\' then .escaped else if c = '\x27' then .outside else .inside
  | .escaped, _ => .inside

theorem bareFrom_append : ∀ (p : Place) (cs rest : List Char),
    bareFrom p (cs ++ rest) = bareFrom p cs ++ bareFrom (cs.foldl Place.behind p) rest
  | p, [], rest => by rw [List.nil_append, bareFrom, List.nil_append, List.foldl_nil]
  | .outside, c :: cs, rest => by
      rw [List.cons_append, bareFrom, bareFrom, List.foldl_cons, Place.behind]
      split
      · exact bareFrom_append .inside cs rest
      · rw [bareFrom_append .outside cs rest, List.cons_append]
  | .inside, c :: cs, rest => by
      rw [List.cons_append, bareFrom, bareFrom, List.foldl_cons, Place.behind]
      split
      · exact bareFrom_append .escaped cs rest
      · split
        · exact bareFrom_append .outside cs rest
        · exact bareFrom_append .inside cs rest
  | .escaped, c :: cs, rest => by
      rw [List.cons_append, bareFrom, bareFrom, List.foldl_cons, Place.behind]
      exact bareFrom_append .inside cs rest

/-- Behind a piece in which every literal ends a reader is outside of literals. -/
theorem Turns.behind {cs s t : List Char} (h : Turns cs s t) :
    cs.foldl Place.behind .outside = .outside := by
  have hsettled := h.settled ['x']
  rw [bare, bareFrom_append] at hsettled
  have hlast := List.append_cancel_left hsettled
  cases e : cs.foldl Place.behind .outside with
  | outside => rfl
  | inside | escaped =>
    rw [e] at hlast
    cases hlast

/-- Other brackets may be open below. -/
theorem nestChar_append {s t : List Char} {c : Char} (h : nestChar s c = some t) (below : List Char) :
    nestChar (s ++ below) c = some (t ++ below) := by
  have hclose : ∀ o : Char, close o s = some t → close o (s ++ below) = some (t ++ below) := by
    intro o h
    cases s with
    | nil => cases h
    | cons b s =>
      rw [close] at h
      rw [List.cons_append, close]
      split at h
      · rename_i hb
        rw [if_pos hb, ← Option.some.inj h]
      · cases h
  unfold nestChar at h ⊢
  split at h
  case h_4 | h_5 | h_6 => exact hclose _ h
  all_goals exact congrArg some (congrArg (· ++ below) (Option.some.inj h))

/-- Lines with blanks in front of them turn as the lines do. -/
theorem Laid.turns {s t : List Char} {ls : List (List Char)} (h : Laid s ls t) (n : Nat) :
    Turns (ls.flatMap fun l => List.replicate n ' ' ++ l ++ ['\n']) s t := by
  induction h with
  | nil s =>
    rw [List.flatMap_nil]
    exact Turns.of_plain (by decide) s
  | @cons s t u l ls _ turns _ ih =>
    have hblank : ∀ c ∈ List.replicate n ' ', (c == ' ') = true := fun c hc =>
      beq_iff_eq.mpr (List.eq_of_mem_replicate hc)
    have hblanks : Turns (List.replicate n ' ') s s :=
      Turns.of_plain (all_isPlain (by decide) hblank) s
    rw [List.flatMap_cons]
    exact ((hblanks.append turns).append (Turns.of_plain (by decide) t)).append ih

end Text

namespace Script

open Text (Turns nestChar)

/-! ## 2. Reading an object literal -/

/-- Where a reader of an object literal is: between properties, behind the start of a name, or behind
    the start of a value, with the brackets that are open in it. -/
inductive LiteralReader where
  | between
  | name (w : List Char)
  | value (w v : List Char) (place : Text.Place) (stack : List Char)

/-- The properties of an object literal that is read on, up to its closing brace, and what stands
    behind it. -/
def readProperties : LiteralReader → List Char → Option (List (String × String) × List Char)
  | _, [] => none
  | .between, c :: cs =>
    if c = ' ' ∨ c = '\n' then readProperties .between cs
    else if c = '\x7d' then some ([], cs)
    else if Ident.isStart c then readProperties (.name [c]) cs
    else none
  | .name w, c :: cs =>
    if Ident.isPart c then readProperties (.name (w ++ [c])) cs
    else if c = ':' then readProperties (.value w [] .outside []) cs
    else none
  | .value w v .outside stack, c :: cs =>
    if stack = [] ∧ c = ',' then
      (readProperties .between cs).map fun r => ((String.ofList w, String.ofList v) :: r.1, r.2)
    else match nestChar stack c with
      | some stack' => readProperties (.value w (v ++ [c]) (Text.Place.outside.behind c) stack') cs
      | none => if stack = [] ∧ c = '\x7d' then some ([(String.ofList w, String.ofList v)], cs) else none
  | .value w v place stack, c :: cs => readProperties (.value w (v ++ [c]) (place.behind c) stack) cs

/-- A piece of text that belongs to the value it stands in, with the brackets that are open in front of it
    and behind it. -/
def Passes (cs s t : List Char) : Prop := ∀ w v rest,
  readProperties (.value w v .outside s) (cs ++ rest) =
    readProperties (.value w (v ++ cs) .outside t) rest

theorem Passes.append {as bs s t u : List Char} (ha : Passes as s t) (hb : Passes bs t u) :
    Passes (as ++ bs) s u := by
  intro w v rest
  rw [List.append_assoc, ha, hb, List.append_assoc]

/-- A character that is no comma, or stands in brackets. -/
theorem passes_char {c : Char} {s t : List Char} (hnest : nestChar s c = some t) (hquote : c ≠ '\x27')
    (hcomma : s = [] → c ≠ ',') : Passes [c] s t := by
  intro w v rest
  have hend : ¬ (s = [] ∧ c = ',') := fun h => hcomma h.1 h.2
  rw [List.singleton_append, readProperties, if_neg hend, hnest]
  dsimp only
  rw [Text.Place.behind, if_neg hquote]

/-- A plain text without commas. -/
theorem passes_plain : ∀ {cs : List Char}, cs.all (fun c => Text.isPlain c && c != ',') = true →
    ∀ s, Passes cs s s
  | [], _, _ => fun w v rest => by rw [List.nil_append, List.append_nil]
  | c :: cs, h, s => by
      rw [List.all_cons, Bool.and_eq_true, Bool.and_eq_true] at h
      have hquote : c ≠ '\x27' := by
        rintro rfl
        exact absurd h.1.1 (by decide)
      have hcomma : c ≠ ',' := by simpa using h.1.2
      exact (passes_char (Text.nestChar_of_isPlain h.1.1 s) hquote fun _ => hcomma).append
        (passes_plain h.2 s)

/-- A piece that is read from some place on, inside brackets that stay open. -/
theorem readProperties_append {below : List Char} (hbelow : below ≠ []) :
    ∀ (cs : List Char) (place : Text.Place) (w v s t rest : List Char),
      Text.nest s (Text.bareFrom place cs) = some t → cs.foldl Text.Place.behind place = .outside →
      readProperties (.value w v place (s ++ below)) (cs ++ rest) =
        readProperties (.value w (v ++ cs) .outside (t ++ below)) rest
  | [], place, w, v, s, t, rest, hnest, hplace => by
      rw [Text.bareFrom] at hnest
      rw [List.nil_append, List.append_nil, ← hplace, ← Option.some.inj hnest]
      rfl
  | c :: cs, .outside, w, v, s, t, rest, hnest, hplace => by
      have hin : ¬ (s ++ below = [] ∧ c = ',') := fun h => hbelow (List.append_eq_nil_iff.mp h.1).2
      rw [List.cons_append, readProperties, if_neg hin]
      rw [List.foldl_cons] at hplace
      by_cases hc : c = '\x27'
      · rw [Text.bareFrom, if_pos hc] at hnest
        have hplain : nestChar (s ++ below) c = some (s ++ below) := by
          rw [hc]
          rfl
        rw [Text.Place.behind, if_pos hc] at hplace
        rw [hplain, Text.Place.behind, if_pos hc]
        dsimp only
        rw [readProperties_append hbelow cs .inside w _ s t rest hnest hplace, List.append_assoc]
        rfl
      · rw [Text.bareFrom, if_neg hc] at hnest
        obtain ⟨u, hu, hnest⟩ := Option.bind_eq_some_iff.mp hnest
        rw [Text.Place.behind, if_neg hc] at hplace
        rw [Text.nestChar_append hu below, Text.Place.behind, if_neg hc]
        dsimp only
        rw [readProperties_append hbelow cs .outside w _ u t rest hnest hplace, List.append_assoc]
        rfl
  | c :: cs, .inside, w, v, s, t, rest, hnest, hplace => by
      have hbare : Text.bareFrom .inside (c :: cs) =
          Text.bareFrom (Text.Place.inside.behind c) cs := by
        rw [Text.bareFrom, Text.Place.behind]
        split
        · rfl
        · split <;> rfl
      rw [hbare] at hnest
      rw [List.cons_append, readProperties,
        readProperties_append hbelow cs _ w _ s t rest hnest hplace, List.append_assoc]
      · rfl
      · intro hplace
        cases hplace
  | c :: cs, .escaped, w, v, s, t, rest, hnest, hplace => by
      rw [List.cons_append, readProperties, Text.Place.behind,
        readProperties_append hbelow cs .inside w _ s t rest hnest hplace, List.append_assoc]
      · rfl
      · intro hplace
        cases hplace

/-- **What turns by itself and stands in brackets belongs to the value.** -/
theorem passes_of_turns {cs s t below : List Char} (h : Turns cs s t) (hbelow : below ≠ []) :
    Passes cs (s ++ below) (t ++ below) := fun w v rest =>
  readProperties_append hbelow cs .outside w v s t rest h.nested h.behind

/-! ## 3. Properties -/

/-- The function of a property at a depth, as it is written behind the colon. -/
def Property.functionText (d : Nat) (p : Property) : String :=
  " " ++ functionHead p.params ++ " \x7b\n" ++
    Line.join (Code.bodyLines (d + 1) (Stmt.bodyCode p.body)) ++
    String.ofList (List.replicate (indentWidth * d) ' ') ++ "\x7d"

/-- A property is written as its name and its function, with a comma behind it. -/
theorem Property.join_code (d : Nat) (p : Property) :
    Line.join (p.code.lines d) = String.ofList (List.replicate (indentWidth * d) ' ') ++ p.name ++
      ":" ++ p.functionText d ++ ",\n" := by
  have hne : p.name ++ ": " ++ functionHead p.params ≠ "" := by
    intro e
    have h := congrArg (·.toList.length) e
    simp at h
  have hopen : Line.text ⟨d, openLine (p.name ++ ": " ++ functionHead p.params)⟩ =
      String.ofList (List.replicate (indentWidth * d) ' ') ++
        (p.name ++ ": " ++ functionHead p.params ++ " \x7b") ++ "\n" := by
    have hcontent : p.name ++ ": " ++ functionHead p.params ++ " \x7b" ≠ "" := by
      intro e
      have h := congrArg (·.toList.length) e
      simp at h
    rw [openLine, if_neg hne, Line.text, if_neg hcontent]
  have hclose : Line.text ⟨d, closeLine ","⟩ =
      String.ofList (List.replicate (indentWidth * d) ' ') ++ "\x7d," ++ "\n" := rfl
  rw [Property.code, Code.lines, List.cons_append, Line.join_cons, Line.join_append, Line.join_cons,
    hopen, hclose, Property.functionText]
  apply String.toList_injective
  simp only [String.toList_append, List.append_assoc]
  rfl

/-- Lines of a body at a depth turn by themselves. -/
theorem turns_body {cs : List Code} (hsolid : Code.Solid cs) (hnested : Code.Nested cs) (d : Nat) :
    Turns (Line.join (Code.bodyLines d cs)).toList [] [] := by
  have hdeeper : Code.bodyLines d cs = (Code.bodyLines 0 cs).map (Line.deeper d) := by
    have h := Code.bodyLines_add 0 d cs
    rwa [Nat.zero_add] at h
  rw [hdeeper, Line.join_deeper d (hsolid 0), Text.indent, String.toList_ofList,
    Line.lines_join (hsolid 0)]
  exact (hnested []).turns (indentWidth * d)

/-- The text of a function belongs to the value it stands in. -/
theorem Property.passes_functionText (d : Nat) {p : Property} (h : p.Named)
    (hs : Stmt.lacksAll Stmt.startsWithText p.body = true) :
    Passes (p.functionText d).toList [] [] := by
  have hfunction : Passes " function ".toList [] [] := passes_plain (by decide) []
  have hopen : Passes "(".toList [] ['('] := passes_char rfl (by decide) fun _ => by decide
  have hparams : Passes (commaList p.params).toList ['('] ['('] :=
    passes_of_turns (turns_commaList [] fun x hx => turns_name (h.params x hx) [])
      (List.cons_ne_nil _ _)
  have hclose : Passes ")".toList ['('] [] := passes_char rfl (by decide) fun _ => by decide
  have hblank : Passes " ".toList [] [] := passes_plain (by decide) []
  have hbrace : Passes "\x7b".toList [] ['\x7b'] := passes_char rfl (by decide) fun _ => by decide
  have hline : Passes "\n".toList ['\x7b'] ['\x7b'] := passes_plain (by decide) _
  have hbody := passes_of_turns (turns_body (Stmt.solid_bodyCode p.body h.body)
    (Stmt.nested_bodyCode p.body h.body hs) (d + 1)) (List.cons_ne_nil '\x7b' [])
  have hblanks : Passes (List.replicate (indentWidth * d) ' ') ['\x7b'] ['\x7b'] := by
    refine passes_plain (List.all_eq_true.mpr fun c hc => ?_) _
    rw [List.eq_of_mem_replicate hc]
    rfl
  have hunbrace : Passes "\x7d".toList ['\x7b'] [] := passes_char rfl (by decide) fun _ => by decide
  have hall := ((((((((hfunction.append hopen).append hparams).append hclose).append hblank).append
    hbrace).append hline).append hbody).append hblanks).append hunbrace
  have htext : (p.functionText d).toList = " function ".toList ++ "(".toList ++
      (commaList p.params).toList ++ ")".toList ++ " ".toList ++ "\x7b".toList ++ "\n".toList ++
      (Line.join (Code.bodyLines (d + 1) (Stmt.bodyCode p.body))).toList ++
      List.replicate (indentWidth * d) ' ' ++ "\x7d".toList := by
    simp only [Property.functionText, functionHead, String.toList_append, String.toList_ofList,
      List.append_assoc]
    rfl
  rw [htext]
  exact hall

/-- Blanks and line feeds stand between properties. -/
theorem read_blanks : ∀ cs : List Char, (∀ c ∈ cs, c = ' ' ∨ c = '\n') → ∀ rest,
    readProperties .between (cs ++ rest) = readProperties .between rest
  | [], _, _ => rfl
  | c :: cs, h, rest => by
      rw [List.cons_append, readProperties, if_pos (h c List.mem_cons_self)]
      exact read_blanks cs (fun d hd => h d (List.mem_cons_of_mem c hd)) rest

/-- The characters of a name go on with it, up to the colon. -/
theorem read_name : ∀ {cs : List Char}, (∀ c ∈ cs, Ident.isPart c = true) → ∀ w rest,
    readProperties (.name w) (cs ++ ':' :: rest) =
      readProperties (.value (w ++ cs) [] .outside []) rest
  | [], _, w, rest => by
      rw [List.nil_append, List.append_nil, readProperties, if_neg (by decide), if_pos rfl]
  | c :: cs, h, w, rest => by
      rw [List.cons_append, readProperties, if_pos (h c List.mem_cons_self),
        read_name fun d hd => h d (List.mem_cons_of_mem c hd), List.append_assoc]
      rfl

/-- **A property is read back**, whatever stands behind it. -/
theorem Property.read_code (d : Nat) {p : Property} (h : p.Named)
    (hs : Stmt.lacksAll Stmt.startsWithText p.body = true) (rest : List Char) :
    readProperties .between ((Line.join (p.code.lines d)).toList ++ rest) =
      (readProperties .between rest).map fun r => ((p.name, p.functionText d) :: r.1, r.2) := by
  obtain ⟨⟨c, cs, hname, hc⟩, hparts⟩ := (Ident.spellsIdentifier_iff p.name.toList).mp h.name
  have hcs : ∀ x ∈ cs, Ident.isPart x = true := fun x hx =>
    hparts x (hname ▸ List.mem_cons_of_mem c hx)
  have hblanks : ∀ x ∈ List.replicate (indentWidth * d) ' ', x = ' ' ∨ x = '\n' :=
    fun x hx => Or.inl (List.eq_of_mem_replicate hx)
  have hblank : ¬ (c = ' ' ∨ c = '\n') := by
    rintro (rfl | rfl) <;> exact absurd hc (by decide)
  have hbrace : c ≠ '\x7d' := by
    rintro rfl
    exact absurd hc (by decide)
  have hfeed := read_blanks ['\n'] (List.forall_mem_singleton.mpr (Or.inr rfl)) rest
  have hspelled : (Line.join (p.code.lines d)).toList ++ rest =
      List.replicate (indentWidth * d) ' ' ++ (c :: (cs ++ ':' ::
        ((p.functionText d).toList ++ ',' :: (['\n'] ++ rest)))) := by
    rw [Property.join_code]
    simp only [String.toList_append, String.toList_ofList, hname, List.append_assoc, List.cons_append]
    rfl
  rw [hspelled, read_blanks _ hblanks, readProperties, if_neg hblank, if_neg hbrace, if_pos hc,
    read_name hcs, p.passes_functionText d h hs, readProperties, if_pos ⟨rfl, rfl⟩, hfeed,
    List.nil_append, List.singleton_append, ← hname, String.ofList_toList, String.ofList_toList]

/-! ## 4. Evaluation -/

/-- An object: its own properties, in the order in which they were created, and its prototype if it was
    set. -/
structure Object (α : Type) where
  own : List (String × α)
  proto : Option α

namespace Object

variable {α : Type}

/-- The key that sets the prototype. -/
def protoKey : String := "__proto__"

/-- An object without properties. -/
def empty : Object α := ⟨[], none⟩

/-- Properties with one of a name: it replaces an earlier one of the name in its place. -/
def put (key : String) (value : α) : List (String × α) → List (String × α)
  | [] => [(key, value)]
  | p :: ps => if p.1 = key then (key, value) :: ps else p :: put key value ps

/-- An object with one more definition. -/
def define (o : Object α) (key : String) (value : α) : Object α :=
  if key = protoKey then { o with proto := some value } else { o with own := put key value o.own }

/-- What a literal with some definitions evaluates to. -/
def evaluate (definitions : List (String × α)) : Object α :=
  definitions.foldl (fun o d => o.define d.1 d.2) empty

theorem put_of_not_mem {key : String} {value : α} : ∀ {ps : List (String × α)},
    key ∉ ps.map (·.1) → put key value ps = ps ++ [(key, value)]
  | [], _ => rfl
  | p :: ps, h => by
      rw [List.map_cons, List.mem_cons, not_or] at h
      rw [put, if_neg (Ne.symm h.1), put_of_not_mem h.2, List.cons_append]

/-- Definitions of names that are new and pairwise different. -/
theorem foldl_define : ∀ {ds : List (String × α)} {o : Object α}, (ds.map (·.1)).Nodup →
    (∀ key ∈ ds.map (·.1), key ∉ o.own.map (·.1)) →
    ds.foldl (fun o d => o.define d.1 d.2) o =
      ⟨o.own ++ ds.filter (·.1 ≠ protoKey),
        ((ds.find? (·.1 = protoKey)).map (·.2)).or o.proto⟩
  | [], o, _, _ => by
      rw [List.foldl_nil, List.filter_nil, List.append_nil]
      rfl
  | d :: ds, o, hn, hnew => by
      rw [List.map_cons, List.nodup_cons] at hn
      rw [List.map_cons, List.forall_mem_cons] at hnew
      obtain ⟨hd, hothers⟩ := hnew
      rw [List.foldl_cons, define]
      by_cases hkey : d.1 = protoKey
      · have hnone : ds.find? (·.1 = protoKey) = none := by
          rw [List.find?_eq_none]
          intro e he hproto
          exact hn.1 (List.mem_map.mpr ⟨e, he, (of_decide_eq_true hproto).trans hkey.symm⟩)
        have ih := foldl_define (o := { o with proto := some d.2 }) hn.2 hothers
        rw [if_pos hkey, ih, hnone, List.filter_cons_of_neg (by simpa using hkey),
          List.find?_cons_of_pos (by simpa using hkey)]
        rfl
      · have hnew' : ∀ key ∈ ds.map (·.1), key ∉ (o.own ++ [d]).map (·.1) := by
          intro key hmem hin
          rw [List.map_append, List.mem_append, List.map_singleton, List.mem_singleton] at hin
          rcases hin with hin | rfl
          · exact hothers key hmem hin
          · exact hn.1 hmem
        have ih := foldl_define (o := { o with own := o.own ++ [d] }) hn.2 hnew'
        rw [if_neg hkey, put_of_not_mem hd, ih,
          List.filter_cons_of_pos (by simpa using hkey), List.find?_cons_of_neg (by simpa using hkey),
          List.append_assoc]
        rfl

/-- **What definitions of different names evaluate to**: own properties in order, and a prototype if one
    of them is `__proto__`. -/
theorem evaluate_of_nodup {ds : List (String × α)} (h : (ds.map (·.1)).Nodup) :
    evaluate ds =
      ⟨ds.filter (·.1 ≠ protoKey), (ds.find? (·.1 = protoKey)).map (·.2)⟩ := by
  rw [evaluate, foldl_define h fun _ _ => List.not_mem_nil, empty, List.nil_append, Option.or_none]

end Object

end Script

end HostGlue
