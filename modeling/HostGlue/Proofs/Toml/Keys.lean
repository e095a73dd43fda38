import HostGlue.Proofs.Toml.Strings

/-!
# How the keys of a TOML text may be written

* `SegmentSpelled`, one segment of a key: a string on one line, or bare characters
  (`scanSimpleKey_append`);
* **`KeySpelled`, how a dotted key may be written**, with blanks around its dots. It is read if it is
  not of more than `maxSegments` segments (`scanKey_append`).
-/

namespace HostGlue.Toml

/-! ## 1. The grammar -/

/-- One segment of a key as it may be written: a string on one line, or bare characters. -/
inductive SegmentSpelled : String → List Char → Prop where
  | basic {s cs : List Char} (content : BasicSpelled s cs) :
      SegmentSpelled (String.ofList s) ('\x22' :: (cs ++ ['\x22']))
  | literal {s : List Char} (content : LiteralSpelled s) :
      SegmentSpelled (String.ofList s) ('\x27' :: (s ++ ['\x27']))
  | bare {cs : List Char} (some : cs ≠ []) (bare : ∀ c ∈ cs, isBareKey c = true) :
      SegmentSpelled (String.ofList cs) cs

/-- The segments of a key as they may be written, with blanks around each dot and behind the
    last. -/
inductive SegmentsSpelled : List String → List Char → Prop where
  | last {s : String} {cs ws : List Char} (segment : SegmentSpelled s cs) (blank : Blank ws) :
      SegmentsSpelled [s] (cs ++ ws)
  | dot {s : String} {ss : List String} {cs ws vs ds : List Char} (segment : SegmentSpelled s cs)
      (before : Blank ws) (behind : Blank vs) (others : SegmentsSpelled ss ds) :
      SegmentsSpelled (s :: ss) (cs ++ (ws ++ '.' :: (vs ++ ds)))

/-- A key: the path in front of its last segment, and the last segment. -/
abbrev Key := List String × String

/-- All segments of a key. -/
def Key.segments (k : Key) : List String := k.1 ++ [k.2]

/-- A key has not too many segments to be read. -/
def Key.Short (k : Key) : Prop := k.segments.length ≤ maxSegments

/-- **A dotted key as it may be written**, with blanks behind it. -/
def KeySpelled (k : Key) (cs : List Char) : Prop := SegmentsSpelled k.segments cs

/-! ## 2. Reading a key -/

/-- A character that begins a key. -/
def isKeyStart (c : Char) : Bool := isQuote c || isBareKey c

/-- What a key may stand in front of: an equals sign or a closing bracket. -/
def BehindKey (rest : List Char) : Prop := ∃ c tail, rest = c :: tail ∧ (c = '=' ∨ c = ']')

theorem BehindKey.notAhead {p : Char → Bool} {rest : List Char} (h : BehindKey rest)
    (hp : p '=' = false ∧ p ']' = false) : NotAhead p rest := by
  obtain ⟨c, tail, rfl, rfl | rfl⟩ := h
  · exact notAhead_cons hp.1 tail
  · exact notAhead_cons hp.2 tail

theorem SegmentSpelled.begins {s : String} {cs : List Char} (h : SegmentSpelled s cs) :
    ∃ c tail, cs = c :: tail ∧ isKeyStart c = true := by
  cases h with
  | basic => exact ⟨_, _, rfl, by decide⟩
  | literal => exact ⟨_, _, rfl, by decide⟩
  | bare some bare =>
    rcases cs with _ | ⟨c, cs⟩
    · exact absurd rfl some
    · exact ⟨c, cs, rfl, by rw [isKeyStart, bare c List.mem_cons_self, Bool.or_true]⟩

theorem SegmentsSpelled.begins {ss : List String} {cs : List Char} (h : SegmentsSpelled ss cs) :
    ∃ c tail, cs = c :: tail ∧ isKeyStart c = true := by
  cases h with
  | last segment =>
    obtain ⟨c, tail, rfl, hc⟩ := segment.begins
    exact ⟨c, _, rfl, hc⟩
  | dot segment =>
    obtain ⟨c, tail, rfl, hc⟩ := segment.begins
    exact ⟨c, _, rfl, hc⟩

/-- A character that begins a key is none that does not. -/
theorem ne_of_isKeyStart {c d : Char} (h : isKeyStart c = true) (hd : isKeyStart d = false) :
    c ≠ d := by
  rintro rfl
  rw [h] at hd
  cases hd

theorem notAhead_of_isKeyStart {p : Char → Bool} {c : Char} (hc : isKeyStart c = true)
    (hp : ∀ d, p d = true → isKeyStart d = false) (tail : List Char) : NotAhead p (c :: tail) := by
  refine notAhead_cons ?_ tail
  cases h : p c with
  | false => rfl
  | true => exact absurd hc (by simp [hp c h])

theorem SegmentsSpelled.notBlank {ss : List String} {cs : List Char} (h : SegmentsSpelled ss cs)
    (rest : List Char) : NotAhead isBlank (cs ++ rest) := by
  obtain ⟨c, tail, rfl, hc⟩ := h.begins
  have hblank : ∀ d, isBlank d = true → isKeyStart d = false := fun d =>
    of_isBlank (P := (isKeyStart · = false)) (by decide)
  exact notAhead_of_isKeyStart hc hblank _

/-- **A segment that may be written is read**, whatever follows, if it is no bare character. -/
theorem scanSimpleKey_append {s : String} {cs : List Char} (h : SegmentSpelled s cs)
    {rest : List Char} (hrest : NotAhead isBareKey rest) :
    scanSimpleKey (cs ++ rest) = some (s, rest) := by
  cases h with
  | basic content =>
    rw [List.cons_append, List.append_assoc, List.singleton_append, scanSimpleKey,
      basicBody_append content]
    rfl
  | literal content =>
    rw [List.cons_append, List.append_assoc, List.singleton_append, scanSimpleKey,
      literalBody_append content]
    rfl
  | bare some bare =>
    have hne : ∀ q tail, isBareKey q = false → cs ++ rest ≠ q :: tail := by
      rintro q tail hq heq
      rcases cs with _ | ⟨c, cs⟩
      · exact some rfl
      · have hc := bare c List.mem_cons_self
        rw [(List.cons.inj heq).1, hq] at hc
        cases hc
    have hempty : cs.isEmpty = false := by rwa [List.isEmpty_eq_false_iff]
    rw [scanSimpleKey]
    · simp only [takeWhile_append bare hrest, dropWhile_append bare hrest, hempty,
        Bool.false_eq_true, if_false]
    · exact fun tail => hne _ tail (by decide)
    · exact fun tail => hne _ tail (by decide)

/-- **The segments of a key that may be written are read, if they are not too many.** -/
theorem scanSegments_append {ss : List String} {cs : List Char} (h : SegmentsSpelled ss cs)
    {rest : List Char} (hrest : BehindKey rest) {ws : List Char} (hws : Blank ws) (fuel : Nat) :
    scanSegments fuel (ws ++ (cs ++ rest)) =
      if ss.length ≤ fuel then some (ss, rest) else none := by
  induction h generalizing ws fuel with
  | @last s cs vs segment blank =>
    cases fuel with
    | zero => rfl
    | succ fuel =>
      have hbare : NotAhead isBareKey (vs ++ rest) := by
        cases vs with
        | nil => exact hrest.notAhead (by decide)
        | cons v vs =>
          exact notAhead_cons (of_isBlank (P := (isBareKey · = false)) (by decide)
            (blank v List.mem_cons_self)) _
      have hstart := (SegmentsSpelled.last segment blank).notBlank rest
      have hskip : skipBlanks (vs ++ rest) = rest :=
        skipBlanks_append blank (hrest.notAhead (by decide))
      obtain ⟨c, tail, rfl, hc⟩ := hrest
      rw [scanSegments, skipBlanks_append hws hstart, List.append_assoc,
        scanSimpleKey_append segment hbare, List.length_singleton, if_pos (Nat.le_add_left 1 fuel)]
      simp only [Option.bind_eq_bind, Option.bind_some, hskip]
      rcases hc with rfl | rfl <;> rfl
  | @dot s ss cs us vs ds segment before behind others ih =>
    cases fuel with
    | zero => rfl
    | succ fuel =>
      have hbare : NotAhead isBareKey (us ++ '.' :: (vs ++ (ds ++ rest))) := by
        cases us with
        | nil => exact notAhead_cons (by decide) _
        | cons u us =>
          exact notAhead_cons (of_isBlank (P := (isBareKey · = false)) (by decide)
            (before u List.mem_cons_self)) _
      have hstart := (SegmentsSpelled.dot segment before behind others).notBlank rest
      have hskip : skipBlanks (us ++ '.' :: (vs ++ (ds ++ rest))) = '.' :: (vs ++ (ds ++ rest)) :=
        skipBlanks_append before (notAhead_cons (by decide) _)
      rw [scanSegments, skipBlanks_append hws hstart]
      simp only [List.append_assoc, List.cons_append]
      rw [scanSimpleKey_append segment hbare]
      simp only [Option.bind_eq_bind, Option.bind_some, hskip, ih behind fuel, List.length_cons,
        Nat.add_le_add_iff_right]
      split <;> rfl

/-- **A key that may be written is read, if it has not too many segments.** -/
theorem scanKey_append {k : Key} {cs : List Char} (h : KeySpelled k cs) {rest : List Char}
    (hrest : BehindKey rest) {ws : List Char} (hws : Blank ws) :
    scanKey (ws ++ (cs ++ rest)) =
      if k.segments.length ≤ maxSegments then some (k, rest) else none := by
  rw [scanKey, scanSegments_append h hrest hws]
  split
  · simp only [Option.bind_eq_bind, Option.bind_some, Key.segments, List.getLast?_append,
      List.getLast?_singleton, Option.some_or, List.dropLast_concat]
    rfl
  · rfl

end HostGlue.Toml
