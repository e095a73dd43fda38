import HostGlue.Json.Text
import HostGlue.Json.Numeral

/-!
# JSON texts as trees

A text is turned into a tree as far as it is grammatical. What is wrong with it stands in the tree
at the place where it was met, so that a reader that walks the tree from left to right meets
grammar faults and values of the wrong shape in the order of the text. This file fixes

* `Tree`: values, with a place for a fault instead of a value, and containers that know whether they
  were closed or broke off (`ending`);
* `tokens`, which splits a text, and stops behind the first piece that is no token;
* `grow`, which builds the tree over the tokens with an explicit stack of open containers, so the
  nesting of a text is bounded by memory only;
* `Document.ofText`, the tree of a whole text and whether anything stands behind it.
-/

namespace HostGlue.Json

/-! ## 1. Trees -/

/-- A value of a text, or what stands where one should stand. A container has the elements up to the
    fault, if there is one; of an object they are pairs of what stands for a key and of a value. -/
inductive Tree where
  | null
  | bool (b : Bool)
  | numeral (x : Numeral)
  | text (t : Text)
  | brokenWord (f : Fault)
  | brokenNumeral (f : Fault)
  | nothing (f : Fault)
  | array (items : List Tree) (ending : Option Fault)
  | object (members : List (Tree × Tree)) (ending : Option Fault)

/-- The fault of a value that is skipped. A numeral that breaks off is malformed then, even at the
    end of the text. -/
def Tree.skipFault : Tree → Option Fault
  | .null | .bool _ | .numeral _ => none
  | .text t => t.skipFault
  | .brokenWord f => some f
  | .brokenNumeral _ => some .malformed
  | .nothing f => some f
  | .array _ ending => ending
  | .object _ ending => ending

/-! ## 2. Tokens -/

/-- A piece of a text. A value that opens no container is a token of its own; one with a fault that
    even a skipping reader meets ends the text. -/
inductive Token where
  | openArray
  | closeArray
  | openObject
  | closeObject
  | comma
  | colon
  | value (t : Tree)
  | broken (t : Tree) (f : Fault)

/-- The four blanks between tokens. -/
def isSpace (c : Char) : Bool :=
  c == ' ' || c == '\t' || c == '\n' || c == '\r'

/-- The token a single character makes. -/
def punctuation? : Char → Option Token
  | '[' => some .openArray
  | ']' => some .closeArray
  | '\x7b' => some .openObject
  | '\x7d' => some .closeObject
  | ',' => some .comma
  | ':' => some .colon
  | _ => none

/-- The text behind a word, if it begins with it. -/
def scanWord : List Char → List Char → Except Fault (List Char)
  | [], cs => .ok cs
  | _ :: _, [] => .error .truncated
  | w :: ws, c :: cs => if w = c then scanWord ws cs else .error .malformed

/-- The token for one of the three words, from its second character on. -/
def wordToken (t : Tree) (word cs : List Char) : Token × List Char :=
  match scanWord word cs with
  | .ok rest => (.value t, rest)
  | .error f => (.broken (.brokenWord f) f, [])

/-- The token for a string, from behind its opening quote on. -/
def textToken (cs : List Char) : Token × List Char :=
  let s := scan cs
  let t : Text := ⟨s.pieces, s.fault⟩
  match t.skipFault with
  | none => (.value (.text t), s.rest)
  | some f => (.broken (.text t) f, [])

/-- The token for a numeral. -/
def numeralToken (cs : List Char) : Token × List Char :=
  match scanNumeral cs with
  | .ok (x, rest) => (.value (.numeral x), rest)
  | .error f => (.broken (.brokenNumeral f) .malformed, [])

/-- The token at a character that is neither a blank nor punctuation, and the text behind it. -/
def scalarToken (c : Char) (cs : List Char) : Token × List Char :=
  if c = 'n' then wordToken .null ['u', 'l', 'l'] cs
  else if c = 't' then wordToken (.bool true) ['r', 'u', 'e'] cs
  else if c = 'f' then wordToken (.bool false) ['a', 'l', 's', 'e'] cs
  else if c = '\x22' then textToken cs
  else if c = '-' ∨ c.isDigit then numeralToken (c :: cs)
  else (.broken (.nothing .malformed) .malformed, [])

theorem scanWord_length : ∀ {word cs rest : List Char},
    scanWord word cs = .ok rest → rest.length ≤ cs.length
  | [], _, _, h => by simp [scanWord] at h; simp [h]
  | _ :: _, [], _, h => by simp [scanWord] at h
  | w :: ws, c :: cs, rest, h => by
    unfold scanWord at h
    split at h
    · have := scanWord_length h
      simp only [List.length_cons]
      omega
    · cases h

theorem wordToken_length (t : Tree) (word cs : List Char) :
    (wordToken t word cs).2.length ≤ cs.length := by
  unfold wordToken
  split
  · rename_i h
    exact scanWord_length h
  · simp

theorem textToken_length (cs : List Char) : (textToken cs).2.length ≤ cs.length := by
  unfold textToken
  dsimp only
  split
  · exact scan_rest_length cs
  · simp

theorem numeralToken_length {cs : List Char} (hcs : cs ≠ []) :
    (numeralToken cs).2.length < cs.length := by
  unfold numeralToken
  split
  · rename_i h
    exact scanNumeral_length h
  · exact List.length_pos_iff.2 hcs

/-- A token takes at least its first character. -/
theorem scalarToken_length (c : Char) (cs : List Char) :
    (scalarToken c cs).2.length ≤ cs.length := by
  unfold scalarToken
  have hn : (numeralToken (c :: cs)).2.length ≤ cs.length :=
    Nat.le_of_lt_succ (numeralToken_length (by simp))
  repeat' split
  all_goals first
    | exact wordToken_length _ _ _
    | exact textToken_length _
    | exact hn
    | simp

/-- The tokens of a text, up to the first piece that is no token. -/
def tokens (cs : List Char) : List Token :=
  match cs with
  | [] => []
  | c :: rest =>
    if isSpace c then tokens rest
    else
      match punctuation? c with
      | some t => t :: tokens rest
      | none =>
        match (scalarToken c rest).1 with
        | .broken t f => [.broken t f]
        | t => t :: tokens (scalarToken c rest).2
termination_by cs.length
decreasing_by
  · simp
  · simp
  · exact Nat.lt_succ_of_le (scalarToken_length c rest)

/-! ## 3. Growing a tree -/

/-- A container that is still open: the elements in front of the current one, the last one first. -/
inductive Frame where
  | array (done : List Tree)
  | object (done : List (Tree × Tree)) (key : Tree)

/-- What the tokens go on with: a value, the key of a member, or whatever may follow a value that is
    complete. -/
inductive Position where
  | value
  | key (done : List (Tree × Tree))
  | behind (t : Tree)

/-- The tree of a text, and whether a token stands behind it. -/
structure Document where
  tree : Tree
  trailing : Bool

/-- Breaks off all open containers behind an element. -/
def breakOff (f : Fault) : Tree → List Frame → Document
  | t, [] => ⟨t, false⟩
  | t, .array done :: stack => breakOff f (.array (t :: done).reverse (some f)) stack
  | t, .object done key :: stack =>
    breakOff f (.object ((key, t) :: done).reverse (some f)) stack

/-- Breaks off an object at a member that has no proper key or no value. -/
def breakOffMember (f : Fault) (done : List (Tree × Tree)) (key value : Tree)
    (stack : List Frame) : Document :=
  breakOff f (.object ((key, value) :: done).reverse (some f)) stack

/-- The tree a token begins, where it is found in the place of a key. -/
def Token.beginning : Token → Tree
  | .openArray => .array [] (some .malformed)
  | .openObject => .object [] (some .malformed)
  | .value t => t
  | .broken t _ => t
  | .closeArray | .closeObject | .comma | .colon => .nothing .malformed

/-- Builds the tree over the tokens. -/
def grow : Position → List Frame → List Token → Document
  | .value, stack, [] => breakOff .truncated (.nothing .truncated) stack
  | .value, stack, .openArray :: .closeArray :: ts => grow (.behind (.array [] none)) stack ts
  | .value, stack, .openArray :: ts => grow .value (.array [] :: stack) ts
  | .value, stack, .openObject :: .closeObject :: ts => grow (.behind (.object [] none)) stack ts
  | .value, stack, .openObject :: ts => grow (.key []) stack ts
  | .value, stack, .value t :: ts => grow (.behind t) stack ts
  | .value, stack, .broken t f :: _ => breakOff f t stack
  | .value, stack, _ :: _ => breakOff .malformed (.nothing .malformed) stack
  | .key done, stack, [] =>
    breakOffMember .truncated done (.nothing .truncated) (.nothing .truncated) stack
  | .key done, stack, .value (.text t) :: .colon :: ts =>
    grow .value (.object done (.text t) :: stack) ts
  | .key done, stack, [.value (.text t)] =>
    breakOffMember .truncated done (.text t) (.nothing .truncated) stack
  | .key done, stack, .broken (.text t) f :: _ =>
    breakOffMember f done (.text t) (.nothing f) stack
  | .key done, stack, t :: _ =>
    breakOffMember .malformed done t.beginning (.nothing .malformed) stack
  | .behind t, [], ts => ⟨t, !ts.isEmpty⟩
  | .behind t, .array done :: stack, .comma :: ts => grow .value (.array (t :: done) :: stack) ts
  | .behind t, .array done :: stack, .closeArray :: ts =>
    grow (.behind (.array (t :: done).reverse none)) stack ts
  | .behind t, .array done :: stack, ts =>
    let f : Fault := if ts.isEmpty then .truncated else .malformed
    breakOff f (.array (t :: done).reverse (some f)) stack
  | .behind t, .object done key :: stack, .comma :: ts => grow (.key ((key, t) :: done)) stack ts
  | .behind t, .object done key :: stack, .closeObject :: ts =>
    grow (.behind (.object ((key, t) :: done).reverse none)) stack ts
  | .behind t, .object done key :: stack, ts =>
    let f : Fault := if ts.isEmpty then .truncated else .malformed
    breakOff f (.object ((key, t) :: done).reverse (some f)) stack
termination_by structural _ _ ts => ts

/-- The tree of a whole text. -/
def Document.ofText (text : String) : Document :=
  grow .value [] (tokens text.toList)

end HostGlue.Json
