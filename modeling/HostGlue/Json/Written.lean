import HostGlue.Json.Tree

/-!
# Trees as compact texts

The text of a tree without blanks. This file fixes

* `Piece.spell`, `Text.spell` and `Numeral.spell`, how scalars are written: a quote, a backslash and
  a control are escaped, all other characters stand for themselves;
* `Tree.spell`, how trees are written. A tree that broke off has no text of its own; it is written as
  if it were closed where it broke off, and what stands in the place of a value is left out;
* `Text.ofString` and `Tree.ofString`, a string as a scalar.
-/

namespace HostGlue.Json

/-! ## 1. Scalars -/

/-- The four hexadecimal digits of a 16-bit code. -/
def codeDigits (n : Nat) : List Char :=
  [n / 4096 % 16, n / 256 % 16, n / 16 % 16, n % 16].map Nat.digitChar

/-- The letter behind the backslash for a character that has an escape of one letter. -/
def escapeLetter? : Char → Option Char
  | '\x22' => some '\x22'
  | '\\' => some '\\'
  | '\x08' => some 'b'
  | '\x0c' => some 'f'
  | '\n' => some 'n'
  | '\r' => some 'r'
  | '\t' => some 't'
  | _ => none

/-- A piece of a string as it is written. -/
def Piece.spell : Piece → List Char
  | .char c =>
    match escapeLetter? c with
    | some letter => ['\\', letter]
    | none => [c]
  | .code n => '\\' :: 'u' :: codeDigits n

/-- A string as it is written. -/
def Text.spell (t : Text) : List Char :=
  '\x22' :: t.pieces.flatMap Piece.spell ++ ['\x22']

/-- A character as a piece: a control without an escape of one letter is given by its code. -/
def Piece.ofChar (c : Char) : Piece :=
  if c < ' ' ∧ escapeLetter? c = none then .code c.toNat else .char c

/-- A string of a text. -/
def Text.ofString (s : String) : Text := ⟨s.toList.map Piece.ofChar, none⟩

/-- A numeral as it is written. -/
def Numeral.spell (x : Numeral) : List Char :=
  (if x.negative then ['-'] else []) ++ x.whole ++
    (match x.fraction with
      | none => []
      | some ds => '.' :: ds) ++
    (match x.exponent with
      | none => []
      | some (negative, ds) => 'e' :: (if negative then '-' :: ds else ds))

/-- An integer as a numeral. -/
def Numeral.ofInt (n : Int) : Numeral :=
  ⟨decide (n < 0), Nat.toDigits 10 n.natAbs, none, none⟩

/-! ## 2. Trees -/

/-- A string as a tree. -/
def Tree.ofString (s : String) : Tree := .text (.ofString s)

/-- An array that is closed. -/
def Tree.ofItems (items : List Tree) : Tree := .array items none

/-- An object that is closed, with its members by name. -/
def Tree.ofMembers (members : List (String × Tree)) : Tree :=
  .object (members.map fun m => (.ofString m.1, m.2)) none

mutual

/-- A tree as it is written. -/
def Tree.spell : Tree → List Char
  | .null => ['n', 'u', 'l', 'l']
  | .bool true => ['t', 'r', 'u', 'e']
  | .bool false => ['f', 'a', 'l', 's', 'e']
  | .numeral x => x.spell
  | .text t => t.spell
  | .brokenWord _ | .brokenNumeral _ | .nothing _ => []
  | .array items _ => '[' :: Tree.spellItems items ++ [']']
  | .object members _ => '\x7b' :: Tree.spellMembers members ++ ['\x7d']
termination_by structural t => t

/-- The elements of an array as they are written. -/
def Tree.spellItems : List Tree → List Char
  | [] => []
  | t :: ts => t.spell ++ if ts.isEmpty then [] else ',' :: Tree.spellItems ts
termination_by structural ts => ts

/-- The members of an object as they are written. -/
def Tree.spellMembers : List (Tree × Tree) → List Char
  | [] => []
  | m :: ms => Tree.spellMember m ++ if ms.isEmpty then [] else ',' :: Tree.spellMembers ms
termination_by structural ms => ms

/-- A member of an object as it is written. -/
def Tree.spellMember : Tree × Tree → List Char
  | (key, value) => key.spell ++ ':' :: value.spell
termination_by structural m => m

end

end HostGlue.Json
