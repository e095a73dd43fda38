import HostGlue.Toml.Lexeme

/-!
# TOML documents

A document is a list of lines: headers, and keys with a value. Arrays and inline tables may be
nested 79 deep. This file holds

* `scanValue`, by recursion on the depth that is left; the elements of a container are read by loops
  whose fuel is the length of the text;
* `scanLine`, which takes one line into the document that is being built, and `scanLines`;
* `documentOf?`, the table of a whole text, if it is a document.
-/

namespace HostGlue.Toml

/-! ## 1. Values -/

/-- The greatest depth of containers. -/
def maxDepth : Nat := 79

/-- The elements of an array, from behind its bracket on, and the closing bracket. -/
def scanItems (value : Scan Value) : Nat → Scan (List Value)
  | 0, _ => none
  | fuel + 1, cs =>
    match skipLines false cs with
    | ']' :: rest => some ([], rest)
    | cs => do
      let (v, rest) ← value cs
      match skipLines false rest with
      | ',' :: rest => do
        let (vs, rest) ← scanItems value fuel rest
        return (v :: vs, rest)
      | ']' :: rest => return ([v], rest)
      | _ => none

/-- A key, an equals sign and a value. -/
def scanPair (value : Scan Value) : Scan ((List String × String) × Value) := fun cs => do
  let (key, rest) ← scanKey cs
  let rest ← scanChar '=' rest
  let (v, rest) ← value (skipBlanks rest)
  return ((key, v), rest)

/-- The members of an inline table, put into a table, and the closing brace. -/
def scanMembers (value : Scan Value) : Nat → Table → Scan Table
  | 0, _, _ => none
  | fuel + 1, t, cs => do
    let ((key, v), rest) ← scanPair value cs
    let t ← t.insert key.1 key.2 v
    match skipBlanks rest with
    | ',' :: rest => scanMembers value fuel t rest
    | '\x7d' :: rest => return (t, rest)
    | _ => none

/-- An inline table, from behind its brace on. -/
def scanInline (value : Scan Value) : Scan Table := fun cs =>
  match skipBlanks cs with
  | '\x7d' :: rest => some (.empty .declared, rest)
  | cs => scanMembers value (cs.length + 1) (.empty .declared) cs

/-- A word. -/
def scanWord : List Char → List Char → Option (List Char)
  | [], cs => some cs
  | _ :: _, [] => none
  | w :: ws, c :: cs => if w = c then scanWord ws cs else none

/-- A value that is no container. -/
def scanScalar : Scan Value := fun cs =>
  match cs with
  | [] => none
  | c :: rest =>
    if c == '\x22' || c == '\x27' then (scanString cs).map fun r => (.text (String.ofList r.1), r.2)
    else if c == '+' || c == '-' || c.isDigit then scanNumber cs
    else if c == 't' then (scanWord ['r', 'u', 'e'] rest).map fun r => (.bool true, r)
    else if c == 'f' then (scanWord ['a', 'l', 's', 'e'] rest).map fun r => (.bool false, r)
    else scanNamed cs

/-- A value. -/
def scanValue : Nat → Scan Value
  | 0, cs =>
    match cs with
    | '[' :: _ | '\x7b' :: _ => none
    | cs => scanScalar cs
  | depth + 1, cs =>
    match cs with
    | '[' :: rest =>
      (scanItems (scanValue depth) (rest.length + 1) rest).map fun r => (.array r.1, r.2)
    | '\x7b' :: rest => (scanInline (scanValue depth) rest).map fun r => (r.1.value, r.2)
    | cs => scanScalar cs

/-! ## 2. Lines -/

/-- Takes one line into a document. -/
def scanLine (b : Builder) (cs : List Char) : Option (Builder × List Char) :=
  match cs with
  | '[' :: '[' :: rest => do
    let (key, rest) ← scanKey rest
    let rest ← scanChar ']' rest
    let rest ← scanChar ']' rest
    let rest ← lineEnd? rest
    let b ← b.openElement key.1 key.2
    return (b, rest)
  | '[' :: rest => do
    let (key, rest) ← scanKey rest
    let rest ← scanChar ']' rest
    let rest ← lineEnd? rest
    let b ← b.openTable key.1 key.2
    return (b, rest)
  | cs => do
    let ((key, v), rest) ← scanPair (scanValue maxDepth) cs
    let rest ← lineEnd? rest
    let b ← b.addValue key.1 key.2 v
    return (b, rest)

/-- Takes all lines into a document. Lines that are empty but for blanks and comments are passed
    over. -/
def scanLines : Nat → Builder → List Char → Option Builder
  | 0, _, _ => none
  | fuel + 1, b, cs =>
    match skipLines false cs with
    | [] => some b
    | cs => do
      let (b, rest) ← scanLine b cs
      scanLines fuel b rest

/-- A text without the byte order mark at its start. -/
def dropMark : List Char → List Char
  | '\ufeff' :: rest => rest
  | cs => cs

/-- The table of a whole text. -/
def documentOf? (text : String) : Option Table := do
  let cs := dropMark text.toList
  let b ← scanLines (cs.length + 1) .start cs
  b.close

end HostGlue.Toml
