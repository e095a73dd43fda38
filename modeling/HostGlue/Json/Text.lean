import HostGlue.Digits
import HostGlue.Shape

/-!
# JSON strings

A string is read in two steps, because a string that is skipped has to satisfy less than one that is
read:

* `scan` goes up to the closing quote and splits the content into pieces: characters, and the
  16-bit codes written as `\u` escapes. It refuses raw controls, unknown escapes and codes that are
  not four hexadecimal digits;
* `join?` puts the pieces together to characters. Codes of a surrogate pair make one character; a
  surrogate alone is a fault (`hasLone`, `join?`).

`Text.read` is the content of a string that is wanted, `Text.skipFault` the fault of one that is
not.
-/

namespace HostGlue.Json

/-- A part of a string's content. -/
inductive Piece where
  | char (c : Char)
  | code (n : Nat)
  deriving DecidableEq

namespace Surrogate

/-- The first half of a surrogate pair. -/
def isHigh (n : Nat) : Bool := 0xD800 ≤ n && n ≤ 0xDBFF

/-- The second half of a surrogate pair. -/
def isLow (n : Nat) : Bool := 0xDC00 ≤ n && n ≤ 0xDFFF

/-- The character of a surrogate pair. -/
def pair (high low : Nat) : Char :=
  Char.ofNat (0x10000 + (high - 0xD800) * 0x400 + (low - 0xDC00))

end Surrogate

/-! ## 1. Scanning -/

/-- The character of a one-letter escape. -/
def shortEscape? : Char → Option Char
  | '\x22' => some '\x22'
  | '\\' => some '\\'
  | '/' => some '/'
  | 'b' => some '\x08'
  | 'f' => some '\x0c'
  | 'n' => some '\n'
  | 'r' => some '\r'
  | 't' => some '\t'
  | _ => none

/-- The content of a string as far as it was scanned: its pieces, the fault at which scanning
    stopped if it did not reach the closing quote, and the text behind. -/
structure Scanned where
  pieces : List Piece
  fault : Option Fault
  rest : List Char

/-- A scan that stopped at a fault. -/
def Scanned.stop (f : Fault) : Scanned := ⟨[], some f, []⟩

/-- A scan with one more piece in front. -/
def Scanned.cons (p : Piece) (s : Scanned) : Scanned := { s with pieces := p :: s.pieces }

/-- The bytes a text takes in UTF-8. -/
def byteCount : List Char → Nat
  | [] => 0
  | c :: cs => c.utf8Size + byteCount cs

/-- Scans the content of a string up to and including the closing quote. A code needs four more
    bytes of text: with fewer the text ends too early, otherwise what is no hexadecimal digit is
    malformed. -/
def scan : List Char → Scanned
  | [] => .stop .truncated
  | '\x22' :: rest => ⟨[], none, rest⟩
  | '\\' :: 'u' :: a :: b :: c :: d :: rest =>
    match Digits.hexNumber? [a, b, c, d] with
    | some n => (scan rest).cons (.code n)
    | none => .stop .malformed
  | '\\' :: 'u' :: few => if byteCount few < 4 then .stop .truncated else .stop .malformed
  | '\\' :: e :: rest =>
    match shortEscape? e with
    | some c => (scan rest).cons (.char c)
    | none => .stop .malformed
  | ['\\'] => .stop .truncated
  | c :: rest => if c < ' ' then .stop .malformed else (scan rest).cons (.char c)

/-- Scanning goes forward only. -/
theorem scan_rest_length (cs : List Char) : (scan cs).rest.length ≤ cs.length := by
  fun_induction scan cs <;> simp_all [Scanned.stop, Scanned.cons] <;> omega

/-! ## 2. Joining -/

/-- The characters of a content, unless it has a surrogate without its partner. -/
def join? : List Piece → Option (List Char)
  | [] => some []
  | .char c :: rest => (join? rest).map (c :: ·)
  | .code n :: rest =>
    if Surrogate.isLow n then none
    else if Surrogate.isHigh n then
      match rest with
      | .code m :: rest =>
        if Surrogate.isLow m then (join? rest).map (Surrogate.pair n m :: ·) else none
      | _ => none
    else (join? rest).map (Char.ofNat n :: ·)

/-- Whether a content has a surrogate that cannot find its partner any more, however the content may
    go on. -/
def hasLone : List Piece → Bool
  | [] => false
  | .char _ :: rest => hasLone rest
  | .code n :: rest =>
    if Surrogate.isLow n then true
    else if Surrogate.isHigh n then
      match rest with
      | [] => false
      | .code m :: rest => if Surrogate.isLow m then hasLone rest else true
      | .char _ :: _ => true
    else hasLone rest

/-! ## 3. Strings -/

/-- A string of a text: the pieces of its content, and the fault at which it broke off, if any. -/
structure Text where
  pieces : List Piece
  fault : Option Fault

namespace Text

/-- The content of a string that is wanted. Whichever fault comes first in the text is reported. -/
def read (t : Text) : Except Error String :=
  match t.fault with
  | some f => .error (.fault (if hasLone t.pieces then .malformed else f))
  | none =>
    match join? t.pieces with
    | some cs => .ok (String.ofList cs)
    | none => .error (.fault .malformed)

/-- The fault of a string that is skipped: its content is not put together. -/
def skipFault (t : Text) : Option Fault := t.fault

end Text

end HostGlue.Json
