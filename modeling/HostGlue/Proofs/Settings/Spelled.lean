import HostGlue.Proofs.Settings.Given

/-!
# Every text that gives the settings

Settings may be written in many ways: the tables as headers, as dotted keys or inline, in any order,
the strings in any of their forms, and among keys that are not known.

* `gives_behind`, that a key which is not known changes nothing of what is given;
* **`ofToml_spelled`: the settings that a text gives are read, whichever text it is**; a text that
  lacks some of them is refused, and so is one that gives a key or a table twice;
* `ofToml_outside`, texts of which less is true: settings that are given by position need no keys,
  and a key of too many segments or a value that is nested too deep is refused wherever it stands.
-/

namespace HostGlue.Settings

open Toml

/-! ## 1. Texts -/

/-- What is read of a text that is a document. -/
theorem ofToml_eq {text : String} {t : Table} (h : documentOf? text = some t) :
    Settings.ofToml text = readRoot t.value := by
  rw [Settings.ofToml, h]
  rfl

/-- Lines that make no table are no document. -/
theorem ofToml_malformed {lines : List Toml.Line} {text : String} (h : Spelled lines text)
    (hbuild : build lines = none) : Settings.ofToml text = .error .malformed := by
  rw [Settings.ofToml, documentOf?_spelled h, hbuild]

/-- Lines beyond the limits make no table. -/
theorem build_beyond {lines : List Toml.Line} (h : ∃ line ∈ lines, ¬ line.Within) :
    build lines = none := by
  obtain ⟨line, hline, hwithin⟩ := h
  exact Option.eq_none_iff_forall_ne_some.mpr fun t ht => hwithin (within_of_build ht line hline)

/-! ## 2. Some lines and their texts -/

/-- A key of one bare segment. -/
theorem keySpelled_bare {s : String} (hsome : s.toList ≠ []) (hbare : s.toList.all isBareKey = true)
    {ws : List Char} (hws : Blank ws) : KeySpelled ([], s) (s.toList ++ ws) := by
  have hsegment := SegmentSpelled.bare hsome (List.all_eq_true.mp hbare)
  rw [String.ofList_toList] at hsegment
  exact .last hsegment hws

/-- A bare segment in front of a key. -/
theorem keySpelled_dot {s : String} (hsome : s.toList ≠ []) (hbare : s.toList.all isBareKey = true)
    {path : List String} {last : String} {cs : List Char} (hcs : KeySpelled (path, last) cs) :
    KeySpelled (s :: path, last) (s.toList ++ '.' :: cs) := by
  have hsegment := SegmentSpelled.bare hsome (List.all_eq_true.mp hbare)
  rw [String.ofList_toList] at hsegment
  exact .dot hsegment blank_nil blank_nil hcs

/-- A literal string. -/
theorem stringSpelled_literal {s : String}
    (h : s.toList.all (fun c => isPrinted c && c != '\x27') = true) :
    StringSpelled s ('\x27' :: (s.toList ++ ['\x27'])) := by
  have hcontent : LiteralSpelled s.toList := by
    intro c hc
    have hall := List.all_eq_true.mp h c hc
    rwa [Bool.and_eq_true, bne_iff_ne] at hall
  have hstring := StringSpelled.literal hcontent
  rwa [String.ofList_toList] at hstring

/-- The header of the paths. -/
theorem spelled_header : Toml.Line.Spelled (.table (["codegen"], "paths")) "[codegen.paths]".toList :=
  .table blank_nil
    (keySpelled_dot (by decide) (by decide) (keySpelled_bare (by decide) (by decide) blank_nil))

/-- A string under a key of one segment. -/
theorem spelled_entry {key s : String} (hsome : key.toList ≠ [])
    (hbare : key.toList.all isBareKey = true)
    (hs : s.toList.all (fun c => isPrinted c && c != '\x27') = true) :
    Toml.Line.Spelled (.pair ([], key) (.text s))
      (key.toList ++ [] ++ '=' :: ([] ++ ('\x27' :: (s.toList ++ ['\x27'])))) :=
  .pair (keySpelled_bare hsome hbare blank_nil) blank_nil (.text (stringSpelled_literal hs))

/-- Lines that give the paths under a header and a setting in an inline table, among a key that is not
    known. -/
def mixed : List Toml.Line :=
  [.table (["codegen"], "paths"), .pair ([], "output") (.text "o"), .pair ([], "catalog") (.text "c"),
   .table ([], "codegen"),
   .pair ([], "protocol")
     (.inline [(([], "dyncall"), .text "d"), ((["x"], "y"), .scalar (.bool true))])]

/-- Their text. -/
def mixedText : String :=
  "[codegen.paths]\noutput = 'o'\ncatalog=\"\\u0063\"\n" ++
    "[codegen]\nprotocol=\x7bdyncall='d',x.y=true\x7d"

theorem spelled_mixed : Spelled mixed mixedText := by
  have hspace : Blank [' '] := List.forall_mem_singleton.mpr rfl
  have hmember : KeySpelled (["x"], "y") ("x".toList ++ '.' :: ("y".toList ++ [])) :=
    keySpelled_dot (by decide) (by decide) (keySpelled_bare (by decide) (by decide) blank_nil)
  have hkey : ∀ {s : String}, s.toList ≠ [] → s.toList.all isBareKey = true →
      KeySpelled ([], s) (s.toList ++ []) := fun hsome hbare => keySpelled_bare hsome hbare blank_nil
  have hcatalog : StringSpelled "c" ['\x22', '\\', 'u', '0', '0', '6', '3', '\x22'] :=
    .basic (s := ['c']) (.escape (.four (by decide)) .nil)
  have hprotocol : Item.Spelled
      (.inline [(([], "dyncall"), .text "d"), ((["x"], "y"), .scalar (.bool true))]) _ :=
    .inline (.cons blank_nil (hkey (by decide) (by decide)) blank_nil
      (.text (stringSpelled_literal (by decide))) blank_nil
      (.last blank_nil hmember blank_nil (.scalar .true) blank_nil))
  have hentry : Toml.Line.Spelled (.pair ([], "output") (.text "o")) _ :=
    .pair (keySpelled_bare (by decide) (by decide) hspace) hspace
      (.text (stringSpelled_literal (by decide)))
  have hescaped : Toml.Line.Spelled (.pair ([], "catalog") (.text "c")) _ :=
    .pair (hkey (by decide) (by decide)) blank_nil (.text hcatalog)
  have hinline : Toml.Line.Spelled (.pair ([], "protocol") _) _ :=
    .pair (hkey (by decide) (by decide)) blank_nil hprotocol
  have hlines : LinesSpelled mixed _ :=
    .cons .nil spelled_header blank_nil .none .feed
      (.cons .nil hentry blank_nil .none .feed
        (.cons .nil hescaped blank_nil .none .feed
          (.cons .nil (.table blank_nil (hkey (by decide) (by decide))) blank_nil .none .feed
            (.last .nil hinline blank_nil .none))))
  exact .plain hlines

theorem gives_mixed : Gives (remarks mixed) "c" "o"
    fun x => if x = .dynCall then some "d" else none where
  catalog := by decide
  output := by decide
  settings := by
    intro x s h
    cases x <;> simp at h
    subst h
    decide
  absent := by
    intro x h
    cases x <;> simp at h <;> decide
  table := by decide

theorem within_mixed : ∀ line ∈ mixed, line.Within := by
  simp [mixed, Toml.Line.Within, Key.Short, Key.segments, maxSegments, Item.Within, maxDepth,
    Item.MembersWithin, Item.MemberWithin]

/-- Lines that do not give the output. -/
def withoutOutput : List Toml.Line :=
  [.table (["codegen"], "paths"), .pair ([], "catalog") (.text "c")]

theorem spelled_withoutOutput : Spelled withoutOutput "[codegen.paths]\ncatalog='c'" := by
  have hlines : LinesSpelled withoutOutput _ :=
    .cons .nil spelled_header blank_nil .none .feed
      (.last .nil (spelled_entry (by decide) (by decide) (by decide)) blank_nil .none)
  exact .plain hlines

/-- Lines that give a key twice. -/
def twice : List Toml.Line :=
  [.pair ([], "a") (.text "c"), .pair ([], "a") (.text "c")]

theorem spelled_twice : Spelled twice "a='c'\na='c'" := by
  have hlines : LinesSpelled twice _ :=
    .cons .nil (spelled_entry (by decide) (by decide) (by decide)) blank_nil .none .feed
      (.last .nil (spelled_entry (by decide) (by decide) (by decide)) blank_nil .none)
  exact .plain hlines

/-- Lines that declare a table which dotted keys went through. -/
def dottedTwice : List Toml.Line :=
  [.table ([], "codegen"), .pair (["paths", "x"], "y") (.scalar (.bool true)),
   .table (["codegen"], "paths")]

theorem spelled_dottedTwice :
    Spelled dottedTwice "[codegen]\npaths.x.y=true\n[codegen.paths]" := by
  have hheader : Toml.Line.Spelled (.table ([], "codegen")) _ :=
    .table blank_nil (keySpelled_bare (by decide) (by decide) blank_nil)
  have hkey : KeySpelled (["paths", "x"], "y") _ :=
    keySpelled_dot (by decide) (by decide)
      (keySpelled_dot (by decide) (by decide) (keySpelled_bare (by decide) (by decide) blank_nil))
  have hlines : LinesSpelled dottedTwice _ :=
    .cons .nil hheader blank_nil .none .feed
      (.cons .nil (.pair hkey blank_nil (.scalar .true)) blank_nil .none .feed
        (.last .nil spelled_header blank_nil .none))
  exact .plain hlines

/-- Lines that add an element to a table that a header went through. -/
def impliedTwice : List Toml.Line :=
  [.table (["codegen"], "paths"), .element ([], "codegen")]

theorem spelled_impliedTwice : Spelled impliedTwice "[codegen.paths]\n[[codegen]]" := by
  have helement : Toml.Line.Spelled (.element ([], "codegen")) _ :=
    .element blank_nil (keySpelled_bare (by decide) (by decide) blank_nil)
  have hlines : LinesSpelled impliedTwice _ :=
    .cons .nil spelled_header blank_nil .none .feed (.last .nil helement blank_nil .none)
  exact .plain hlines

/-- Settings that are given by position. -/
def byPosition : List Toml.Line :=
  [.table ([], "codegen"), .pair ([], "paths") (.array [.text "c", .text "o"])]

theorem spelled_byPosition : Spelled byPosition "[codegen]\npaths=['c','o']" := by
  have hheader : Toml.Line.Spelled (.table ([], "codegen")) _ :=
    .table blank_nil (keySpelled_bare (by decide) (by decide) blank_nil)
  have hpaths : Item.Spelled (.array [.text "c", .text "o"]) _ :=
    .array (.cons .nil (.text (stringSpelled_literal (by decide))) .nil
      (.last .nil (.text (stringSpelled_literal (by decide))) .nil))
  have hlines : LinesSpelled byPosition _ :=
    .cons .nil hheader blank_nil .none .feed
      (.last .nil (.pair (keySpelled_bare (by decide) (by decide) blank_nil) blank_nil hpaths)
        blank_nil .none)
  exact .plain hlines

/-! ## 3. Keys that are not known -/

/-- Lines that give the two paths, behind a key that is not known. -/
def behind (key : Key) (item : Item) : List Toml.Line :=
  [.pair key item, .table (["codegen"], "paths"), .pair ([], "catalog") (.text "c"),
   .pair ([], "output") (.text "o")]

/-- What such lines say of the settings. -/
def known : List Said :=
  [⟨site, .passed⟩, ⟨pathsSite, .declared⟩,
   ⟨site, .passed⟩, ⟨pathsSite, .passed⟩, ⟨pathsSite, .filled false⟩,
   ⟨pathsSite ++ [.key "catalog"], .value (.text "c")⟩,
   ⟨site, .passed⟩, ⟨pathsSite, .passed⟩, ⟨pathsSite, .filled false⟩,
   ⟨pathsSite ++ [.key "output"], .value (.text "o")⟩]

/-- Where no elements are added, no site has any. -/
theorem elementsAt_eq_zero {said : List Said} (h : ∀ s ∈ said, s.remark ≠ .element) :
    elementsAt said = fun _ => 0 := by
  funext site
  refine List.count_eq_zero.mpr fun hmem => ?_
  exact h _ (mem_remarksAt.mp hmem) rfl

theorem remarks_behind (key : Key) (item : Item) :
    remarks (behind key item) = pairRemarks key item.remarks (fun _ => 0) ++ known := by
  generalize hfirst : pairRemarks key item.remarks (fun _ => 0) = first
  have hinner : ∀ s ∈ first, s.remark ≠ .element := by
    intro s hs heq
    subst hfirst
    have hs := inner_pair (inner_item item) key _ s hs
    rw [heq] at hs
    cases hs
  have hcount : ∀ more : List Said, (∀ s ∈ more, s.remark ≠ .element) →
      elementsAt (first ++ more) = fun _ => 0 := by
    intro more hmore
    exact elementsAt_eq_zero fun s hs => (List.mem_append.mp hs).elim (hinner s) (hmore s)
  have hline : (Toml.Line.pair key item).remarks [] (elementsAt []) = first := hfirst
  have hheader : (Toml.Line.table (["codegen"], "paths")).remarks [] (elementsAt first) = known.take 2 := by
    rw [← List.append_nil first, hcount [] nofun]
    rfl
  have hcatalog : (Toml.Line.pair ([], "catalog") (.text "c")).remarks ["codegen", "paths"]
      (elementsAt (first ++ known.take 2)) = (known.take 6).drop 2 := by
    rw [hcount _ (by decide)]
    rfl
  have houtput : (Toml.Line.pair ([], "output") (.text "o")).remarks ["codegen", "paths"]
      (elementsAt (first ++ known.take 6)) = known.drop 6 := by
    rw [hcount _ (by decide)]
    rfl
  simp only [remarks, behind, remarksFrom, Toml.Line.section, List.nil_append, hline, hheader,
    show Key.segments (["codegen"], "paths") = ["codegen", "paths"] from rfl, hcatalog,
    List.append_assoc]
  rw [show known.take 2 ++ (known.take 6).drop 2 = known.take 6 from rfl, houtput]
  rfl

/-- What a pair says is said of its own table, or under the first segment of its key. -/
theorem head_of_pair (key : Key) (said : List Said) : ∀ s ∈ pairRemarks key said (fun _ => 0),
    s.site = [] ∨ s.site.head? = key.segments.head?.map Step.key := by
  obtain ⟨path, last⟩ := key
  cases path with
  | nil =>
    intro s hs
    rcases List.mem_cons.mp hs with rfl | hs
    · exact .inl rfl
    · obtain ⟨s', -, rfl⟩ := List.mem_map.mp hs
      exact .inr rfl
  | cons key path =>
    intro s hs
    rcases List.mem_cons.mp hs with rfl | hs
    · exact .inr rfl
    · obtain ⟨s', -, rfl⟩ := List.mem_map.mp hs
      exact .inr rfl

/-- **A key that is not known changes nothing of what a document gives**, if what is said of it may be
    said. -/
theorem gives_behind {key : Key} {item : Item}
    (h : LawfulUnder (some (.table .declared)) (pairRemarks key item.remarks fun _ => 0))
    (hother : key.segments.head? ≠ some "codegen") :
    Lawful (remarks (behind key item)) ∧
      Gives (remarks (behind key item)) "c" "o" fun _ => none := by
  rw [remarks_behind]
  generalize hfirst : pairRemarks key item.remarks (fun _ => 0) = first at h
  have hhead : ∀ s ∈ first, s.site.head? ≠ some (.key "codegen") := by
    intro s hs heq
    subst hfirst
    rcases head_of_pair key item.remarks s hs with hnil | hkey
    · rw [hnil] at heq
      cases heq
    · rw [heq] at hkey
      obtain ⟨k, hk, hkeq⟩ := Option.map_eq_some_iff.mp hkey.symm
      cases hkeq
      exact hother hk
  have hnone : ∀ front, remarksAt (site ++ front) first = [] := fun front =>
    remarksAt_eq_nil fun s hs heq => hhead s hs (heq ▸ rfl)
  refine ⟨Lawful.append h (by decide) fun x hx y hy heq => ?_, ?_⟩
  · have hknown : ∀ y ∈ known, y.site.head? = some (.key "codegen") := by decide
    exact hhead x hx (heq ▸ hknown y hy)
  · have hprotocol : ∀ front, remarksAt (protocolSite ++ front) (first ++ known) =
        remarksAt (protocolSite ++ front) known := by
      intro front
      rw [remarksAt_append, protocolSite, List.append_assoc, hnone, List.nil_append]
    constructor
    · exact List.mem_append_right first (by decide)
    · exact List.mem_append_right first (by decide)
    · intro x s h
      cases h
    · intro x _
      rw [hprotocol]
      cases x <;> decide
    · rw [← List.append_nil protocolSite, hprotocol]
      decide

/-- Arrays in one another. -/
def nested : Nat → Item
  | 0 => .array []
  | n + 1 => .array [nested n]

/-- Their brackets. -/
def brackets : Nat → List Char
  | 0 => ['[', ']']
  | n + 1 => '[' :: (brackets n ++ [']'])

theorem spelled_nested : ∀ n, (nested n).Spelled (brackets n)
  | 0 => .array (.nil .nil)
  | n + 1 => .array (.last .nil (spelled_nested n) .nil)

theorem not_within_nested : ∀ n, ¬ (nested n).Within n
  | 0 => by
      rw [nested, Item.Within]
      exact id
  | n + 1 => by
      rw [nested, Item.Within, Item.allWithin_iff]
      exact fun h => not_within_nested n (h _ List.mem_cons_self)

theorem lawful_nested : ∀ n, ∃ more, (nested n).remarks = ⟨[], .value .array⟩ :: more ∧
    LawfulUnder (some (.value .array)) more
  | 0 => ⟨[], rfl, lawfulUnder_nil _⟩
  | n + 1 => by
      obtain ⟨more, hmore, hlawful⟩ := lawful_nested n
      refine ⟨_, by rw [nested, Item.remarks, Item.elementRemarks, Item.elementRemarks, hmore], ?_⟩
      rw [List.append_nil]
      exact hlawful.below rfl _

/-- A key of one more segment than its dots. -/
def dots : Nat → List Char
  | 0 => ['a']
  | n + 1 => 'a' :: '.' :: dots n

theorem spelled_dots : ∀ n, KeySpelled (List.replicate n "a", "a") (dots n)
  | 0 => keySpelled_bare (s := "a") (by decide) (by decide) blank_nil
  | n + 1 => keySpelled_dot (s := "a") (by decide) (by decide) (spelled_dots n)

/-- The text of lines that give the two paths, behind a key that is not known. -/
def behindText (ks cs : List Char) : String :=
  String.ofList (ks ++ '=' :: (cs ++ "\n[codegen.paths]\ncatalog='c'\noutput='o'".toList))

theorem spelled_behind {key : Key} {item : Item} {ks cs : List Char} (named : KeySpelled key ks)
    (spelled : item.Spelled cs) : Spelled (behind key item) (behindText ks cs) := by
  have hlines : LinesSpelled (behind key item) _ :=
    .cons .nil (.pair named blank_nil spelled) blank_nil .none .feed
      (.cons .nil spelled_header blank_nil .none .feed
        (.cons .nil (spelled_entry (by decide) (by decide) (by decide)) blank_nil .none .feed
          (.last .nil (spelled_entry (by decide) (by decide) (by decide)) blank_nil .none)))
  have htext := Spelled.plain hlines
  simp only [List.nil_append, List.append_assoc, List.cons_append] at htext
  exact htext

/-- A value that is nested too deep, in front of the paths. -/
def deep : List Toml.Line := behind ([], "a") (nested 79)

theorem not_within_deep : ∃ line ∈ deep, ¬ line.Within :=
  ⟨_, List.mem_cons_self, fun h => not_within_nested 79 h.2⟩

theorem gives_deep : Lawful (remarks deep) ∧ Gives (remarks deep) "c" "o" fun _ => none := by
  obtain ⟨more, hmore, hlawful⟩ := lawful_nested 79
  refine gives_behind ?_ (by decide)
  rw [hmore]
  exact .here rfl (hlawful.below rfl _)

/-- A key of too many segments, in front of the paths. -/
def long : List Toml.Line := behind (List.replicate 79 "a", "a") (.scalar (.bool true))

theorem gives_long : Lawful (remarks long) ∧ Gives (remarks long) "c" "o" fun _ => none := by
  have hpath : LawfulUnder (some (.table .dotted)) (along .dotted
      (fun _ => ⟨[], .filled true⟩ :: [⟨[.key "a"], .value .scalar⟩]) (List.replicate 78 "a")
      fun _ => 0) :=
    lawfulUnder_along (.here rfl ((lawfulUnder_nil _).below rfl _)) _
  exact gives_behind (hpath.below rfl (.key "a")) (by decide)

/-! ## 4. All texts -/

/-- **The settings that a text gives are read, whichever text it is**: lawful lines within the limits
    are a document, and what it gives is what is read, with the standard values for the settings of the
    protocol that are not given. A text that lacks what it must give is refused. Lines that are not
    lawful, since they give a key twice or a table that there is, are no document, and neither are
    lines beyond the limits. -/
theorem ofToml_spelled {lines : List Toml.Line} {text : String} (h : Spelled lines text) :
    (∀ catalog output given, (∀ line ∈ lines, line.Within) → Lawful (remarks lines) →
      Gives (remarks lines) catalog output given →
        Settings.ofToml text = .ok ⟨catalog, output, protocolOf given⟩) ∧
    (Lacks (remarks lines) → ∃ e, Settings.ofToml text = .error e) ∧
    (¬ Lawful (remarks lines) → Settings.ofToml text = .error .malformed) ∧
    ((∃ line ∈ lines, ¬ line.Within) → Settings.ofToml text = .error .malformed) := by
  have hdocument := documentOf?_spelled h
  refine ⟨fun catalog output given hwithin hlawful hgives => ?_, fun hlacks => ?_,
    fun hnot => ?_, fun hbeyond => ofToml_malformed h (build_beyond hbeyond)⟩
  · obtain ⟨t, ht⟩ := exists_build hwithin hlawful
    rw [ofToml_eq (hdocument.trans ht)]
    exact readRoot_given ht hgives
  · cases ht : build lines with
    | none => exact ⟨_, ofToml_malformed h ht⟩
    | some t =>
      rw [ofToml_eq (hdocument.trans ht)]
      exact readRoot_lacking ht hlacks
  · refine ofToml_malformed h (Option.eq_none_iff_forall_ne_some.mpr fun t ht => ?_)
    exact hnot (lawful_of_build ht)

/-- Mixed lines are read. Lines without the output, lines that give a key or a table twice and lines
    that are nested too deep are not. -/
theorem ofToml_spelled_mixed :
    (Gives (remarks mixed) "c" "o" (fun x => if x = .dynCall then some "d" else none) ∧
      Settings.ofToml mixedText = .ok ⟨"c", "o", { dynCall := "d" }⟩) ∧
    (Lacks (remarks withoutOutput) ∧
      ∃ e, Settings.ofToml "[codegen.paths]\ncatalog='c'" = .error e) ∧
    (¬ Lawful (remarks twice) ∧ Settings.ofToml "a='c'\na='c'" = .error .malformed) ∧
    (¬ Lawful (remarks dottedTwice) ∧
      Settings.ofToml "[codegen]\npaths.x.y=true\n[codegen.paths]" = .error .malformed) ∧
    (¬ Lawful (remarks impliedTwice) ∧
      Settings.ofToml "[codegen.paths]\n[[codegen]]" = .error .malformed) ∧
    Settings.ofToml (behindText (dots 0) (brackets 79)) = .error .malformed := by
  have hlacks : Lacks (remarks withoutOutput) := .output (by decide) (by decide) (by decide)
  have htwice : ¬ Lawful (remarks twice) := by decide
  have hdotted : ¬ Lawful (remarks dottedTwice) := by decide
  have himplied : ¬ Lawful (remarks impliedTwice) := by decide
  refine ⟨⟨gives_mixed, ?_⟩, ⟨hlacks, (ofToml_spelled spelled_withoutOutput).2.1 hlacks⟩,
    ⟨htwice, (ofToml_spelled spelled_twice).2.2.1 htwice⟩,
    ⟨hdotted, (ofToml_spelled spelled_dottedTwice).2.2.1 hdotted⟩,
    ⟨himplied, (ofToml_spelled spelled_impliedTwice).2.2.1 himplied⟩, ?_⟩
  · exact (ofToml_spelled spelled_mixed).1 "c" "o" _ within_mixed (by decide) gives_mixed
  · have hspelled : Spelled deep _ := spelled_behind (spelled_dots 0) (spelled_nested 79)
    exact (ofToml_spelled hspelled).2.2.2 not_within_deep

/-- **Texts of which less is true**: one that says nothing of the catalog and the output is read, since
    it gives the paths by position, and two that give the paths beside a key that is not known are
    refused, since a value is nested 80 deep or the key has 80 segments. -/
theorem ofToml_outside :
    (Spelled byPosition "[codegen]\npaths=['c','o']" ∧
      remarksAt (pathsSite ++ [.key "catalog"]) (remarks byPosition) = [] ∧
      remarksAt (pathsSite ++ [.key "output"]) (remarks byPosition) = [] ∧
      Settings.ofToml "[codegen]\npaths=['c','o']" = .ok ⟨"c", "o", {}⟩) ∧
    (Spelled deep (behindText ['a'] (brackets 79)) ∧ Lawful (remarks deep) ∧
      Gives (remarks deep) "c" "o" (fun _ => none) ∧
      Settings.ofToml (behindText ['a'] (brackets 79)) = .error .malformed) ∧
    (Spelled long (behindText (dots 79) ['t', 'r', 'u', 'e']) ∧ Lawful (remarks long) ∧
      Gives (remarks long) "c" "o" (fun _ => none) ∧
      Settings.ofToml (behindText (dots 79) ['t', 'r', 'u', 'e']) = .error .malformed) := by
  refine ⟨⟨spelled_byPosition, by decide, by decide, by decide +kernel⟩, ?_, ?_⟩
  · have hspelled : Spelled deep _ := spelled_behind (spelled_dots 0) (spelled_nested 79)
    obtain ⟨hlawful, hgives⟩ := gives_deep
    exact ⟨hspelled, hlawful, hgives, ofToml_malformed hspelled (build_beyond not_within_deep)⟩
  · have hspelled : Spelled long _ := spelled_behind (spelled_dots 79) (.scalar .true)
    obtain ⟨hlawful, hgives⟩ := gives_long
    refine ⟨hspelled, hlawful, hgives, ofToml_malformed hspelled (build_beyond ?_)⟩
    exact ⟨_, List.mem_cons_self, fun h => Nat.not_succ_le_self 79 h.1⟩

end HostGlue.Settings
