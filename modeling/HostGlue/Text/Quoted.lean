/-!
# Single-quoted script literals

A value stands in the document between single quotes. Four characters are written as an escape:
the backslash, the quote, line feed and carriage return. All others stand for themselves.

* `encode` writes a literal;
* `decode?` reads one from the start of a text, as a script lexer does: a backslash takes the next
  character with it, a raw line break is no literal, the first bare quote ends it.
-/

namespace HostGlue.Text.Quoted

/-- The characters that stand for one character of a value inside a literal. -/
def encodeChar : Char → List Char
  | '\\' => ['\\', '\\']
  | '\x27' => ['\\', '\x27']
  | '\n' => ['\\', 'n']
  | '\r' => ['\\', 'r']
  | c => [c]

/-- The characters between the quotes. -/
def encodeBody (value : List Char) : List Char :=
  value.flatMap encodeChar

/-- A value as a single-quoted literal. -/
def encode (value : String) : String :=
  String.ofList ('\x27' :: encodeBody value.toList ++ ['\x27'])

/-- The character an escape denotes. -/
def escaped : Char → Char
  | 'n' => '\n'
  | 'r' => '\r'
  | c => c

/-- The value up to the closing quote, and what follows the quote. -/
def decodeBody? : List Char → Option (List Char × List Char)
  | [] => none
  | '\x27' :: rest => some ([], rest)
  | '\\' :: c :: rest => (decodeBody? rest).map fun r => (escaped c :: r.1, r.2)
  | c :: rest =>
    if c = '\n' ∨ c = '\r' ∨ c = '\\' then none
    else (decodeBody? rest).map fun r => (c :: r.1, r.2)

/-- Reads a literal at the start of a text: its value, and the text behind it. -/
def decode? : List Char → Option (List Char × List Char)
  | '\x27' :: rest => decodeBody? rest
  | _ => none

end HostGlue.Text.Quoted
