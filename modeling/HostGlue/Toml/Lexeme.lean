import HostGlue.Digits
import HostGlue.Toml.Table

/-!
# The small parts of a TOML text

Functions that read one thing at the start of a text and answer it with the rest, or nothing if it
does not stand there: line ends, comments, keys, the four kinds of strings, numbers, dates and
times. A text that breaks a rule of the format is refused; which rule it broke is not kept.
-/

namespace HostGlue.Toml

open Decimal (Binary)

/-- What reads something at the start of a text and answers it with the text behind. -/
abbrev Scan (α : Type) := List Char → Option (α × List Char)

/-! ## 1. Blanks, line ends, comments -/

/-- A blank inside a line. -/
def isBlank (c : Char) : Bool := c == ' ' || c == '\t'

/-- A text without its leading blanks. -/
def skipBlanks (cs : List Char) : List Char := cs.dropWhile isBlank

/-- A character that may stand in a comment or a literal string: any but the controls, of which only
    the tab may. -/
def isPrinted (c : Char) : Bool :=
  c == '\t' || (' ' ≤ c && c != '\x7f')

/-- The text behind a line end. -/
def newline? : List Char → Option (List Char)
  | '\n' :: rest => some rest
  | '\r' :: '\n' :: rest => some rest
  | _ => none

/-- The text behind the end of a line: blanks, perhaps a comment, and a line end or the end of the
    text. -/
def lineEnd? (cs : List Char) : Option (List Char) :=
  let cs := skipBlanks cs
  let cs := match cs with
    | '#' :: rest => rest.dropWhile isPrinted
    | cs => cs
  if cs.isEmpty then some [] else newline? cs

/-- A text without leading blanks, line ends and comments. -/
def skipLines (inComment : Bool) : List Char → List Char
  | [] => []
  | '\r' :: '\n' :: rest => skipLines false rest
  | c :: rest =>
    if c == '\n' then skipLines false rest
    else if inComment then (if isPrinted c then skipLines true rest else c :: rest)
    else if isBlank c then skipLines false rest
    else if c == '#' then skipLines true rest
    else c :: rest

/-! ## 2. Strings -/

/-- The character hexadecimal digits spell. Surrogates and numbers beyond the code space are
    none. -/
def hexChar? (ds : List Char) : Option Char := do
  let n ← Digits.hexNumber? ds
  if n.isValidChar then some (Char.ofNat n) else none

/-- The character of a one-letter escape. -/
def shortEscape? : Char → Option Char
  | 'b' => some '\x08'
  | 't' => some '\t'
  | 'n' => some '\n'
  | 'f' => some '\x0c'
  | 'r' => some '\r'
  | '\x22' => some '\x22'
  | '\\' => some '\\'
  | _ => none

/-- Puts a character in front of a string that was read. -/
def consChar (c : Char) (s : Option (List Char × List Char)) : Option (List Char × List Char) :=
  s.map fun r => (c :: r.1, r.2)

/-- The content of a basic string, from behind its opening quote on. -/
def basicBody : Scan (List Char)
  | [] => none
  | '\x22' :: rest => some ([], rest)
  | '\\' :: 'u' :: a :: b :: c :: d :: rest => do
    let x ← hexChar? [a, b, c, d]
    consChar x (basicBody rest)
  | '\\' :: 'U' :: a :: b :: c :: d :: e :: f :: g :: h :: rest => do
    let x ← hexChar? [a, b, c, d, e, f, g, h]
    consChar x (basicBody rest)
  | '\\' :: e :: rest => do
    let x ← shortEscape? e
    consChar x (basicBody rest)
  | c :: rest => if isPrinted c && c != '\\' then consChar c (basicBody rest) else none

/-- The content of a literal string, from behind its opening quote on. -/
def literalBody : Scan (List Char)
  | [] => none
  | '\x27' :: rest => some ([], rest)
  | c :: rest => if isPrinted c then consChar c (literalBody rest) else none

/-- The end of a string that is closed by three quotes. Up to two more quotes in front of them
    belong to the content. -/
def tripleEnd? (q : Char) : Scan (List Char)
  | a :: b :: c :: rest =>
    if a == q && b == q && c == q then
      match rest with
      | d :: e :: rest' =>
        if d == q && e == q then some ([q, q], rest')
        else if d == q then some ([q], e :: rest')
        else some ([], rest)
      | [d] => if d == q then some ([q], []) else some ([], [d])
      | [] => some ([], [])
    else none
  | _ => none

/-- The content of a basic string over several lines, from behind the opening quotes on. A backslash
    at the end of a line drops all blanks and line ends that follow; `dropping` says that it did. -/
def basicLines (dropping : Bool) : Scan (List Char)
  | [] => none
  | '\r' :: '\n' :: rest =>
    if dropping then basicLines true rest else consChar '\n' (basicLines false rest)
  | '\n' :: rest =>
    if dropping then basicLines true rest else consChar '\n' (basicLines false rest)
  | '\\' :: 'u' :: a :: b :: c :: d :: rest => do
    let x ← hexChar? [a, b, c, d]
    consChar x (basicLines false rest)
  | '\\' :: 'U' :: a :: b :: c :: d :: e :: f :: g :: h :: rest => do
    let x ← hexChar? [a, b, c, d, e, f, g, h]
    consChar x (basicLines false rest)
  | '\\' :: e :: rest =>
    match shortEscape? e with
    | some x => consChar x (basicLines false rest)
    | none =>
      if (newline? (skipBlanks (e :: rest))).isSome then basicLines true (e :: rest) else none
  | '\x22' :: rest =>
    match tripleEnd? '\x22' ('\x22' :: rest) with
    | some r => some r
    | none => consChar '\x22' (basicLines false rest)
  | c :: rest =>
    if dropping && isBlank c then basicLines true rest
    else if isPrinted c && c != '\\' then consChar c (basicLines false rest)
    else none

/-- The content of a literal string over several lines, from behind the opening quotes on. -/
def literalLines : Scan (List Char)
  | [] => none
  | '\r' :: '\n' :: rest => consChar '\n' (literalLines rest)
  | '\n' :: rest => consChar '\n' (literalLines rest)
  | '\x27' :: rest =>
    match tripleEnd? '\x27' ('\x27' :: rest) with
    | some r => some r
    | none => consChar '\x27' (literalLines rest)
  | c :: rest => if isPrinted c then consChar c (literalLines rest) else none

/-- A text without the line end at its start, if there is one. -/
def dropNewline (cs : List Char) : List Char :=
  (newline? cs).getD cs

/-- A string of any kind. -/
def scanString : Scan (List Char)
  | '\x22' :: '\x22' :: '\x22' :: rest => basicLines false (dropNewline rest)
  | '\x22' :: rest => basicBody rest
  | '\x27' :: '\x27' :: '\x27' :: rest => literalLines (dropNewline rest)
  | '\x27' :: rest => literalBody rest
  | _ => none

/-! ## 3. Keys -/

/-- A character of a bare key. -/
def isBareKey (c : Char) : Bool :=
  c.isAlphanum || c == '_' || c == '-'

/-- One segment of a key: a string on one line, or bare characters. -/
def scanSimpleKey : Scan String
  | '\x22' :: rest => (basicBody rest).map fun r => (String.ofList r.1, r.2)
  | '\x27' :: rest => (literalBody rest).map fun r => (String.ofList r.1, r.2)
  | cs =>
    let bare := cs.takeWhile isBareKey
    if bare.isEmpty then none else some (String.ofList bare, cs.dropWhile isBareKey)

/-- The segments of a key between dots, with blanks around each; at most `fuel` of them. -/
def scanSegments : Nat → Scan (List String)
  | 0, _ => none
  | fuel + 1, cs => do
    let (segment, rest) ← scanSimpleKey (skipBlanks cs)
    match skipBlanks rest with
    | '.' :: rest => do
      let (segments, rest) ← scanSegments fuel rest
      return (segment :: segments, rest)
    | rest => return ([segment], rest)

/-- The greatest number of segments of a key. -/
def maxSegments : Nat := 79

/-- A dotted key: its path, and its last segment. -/
def scanKey : Scan (List String × String) := fun cs => do
  let (segments, rest) ← scanSegments maxSegments cs
  let last ← segments.getLast?
  return ((segments.dropLast, last), rest)

/-! ## 4. Numbers -/

/-- Digits that go on a number, each perhaps behind an underscore. -/
def moreDigits (isDigit : Char → Bool) : List Char → List Char × List Char
  | [] => ([], [])
  | '_' :: c :: rest =>
    if isDigit c then
      let r := moreDigits isDigit rest
      (c :: r.1, r.2)
    else ([], '_' :: c :: rest)
  | c :: rest =>
    if isDigit c then
      let r := moreDigits isDigit rest
      (c :: r.1, r.2)
    else ([], c :: rest)

/-- One digit or more. -/
def scanDigits (isDigit : Char → Bool) : Scan (List Char)
  | [] => none
  | c :: rest =>
    if isDigit c then
      let r := moreDigits isDigit rest
      some (c :: r.1, r.2)
    else none

/-- The whole part of a decimal number: a lone zero, or digits that do not begin with one. -/
def scanWhole : Scan (List Char)
  | '0' :: rest => some (['0'], rest)
  | cs => scanDigits Char.isDigit cs

/-- The magnitude of the least signed number of 64 bits. -/
def maxNegative : Nat := 0x8000000000000000

/-- A signed integer of 64 bits. -/
def integerOf? (negative : Bool) (n : Nat) : Option Int :=
  if negative then (if n ≤ maxNegative then some (-(n : Int)) else none)
  else if n < maxNegative then some n
  else none

/-- An octal digit. -/
def isOctalDigit (c : Char) : Bool := '0' ≤ c && c ≤ '7'

/-- A binary digit. -/
def isBinaryDigit (c : Char) : Bool := c == '0' || c == '1'

/-- Digits of a base as an integer. -/
def scanBased (base : Nat) (isDigit : Char → Bool) : Scan Value := fun cs => do
  let (ds, rest) ← scanDigits isDigit cs
  let n ← integerOf? false (Digits.number base ds)
  return (.integer n, rest)

/-- An integer. -/
def scanInteger : Scan Value
  | '0' :: 'x' :: rest => scanBased 16 Digits.isHex rest
  | '0' :: 'o' :: rest => scanBased 8 isOctalDigit rest
  | '0' :: 'b' :: rest => scanBased 2 isBinaryDigit rest
  | cs => do
    let sign := Digits.sign cs
    let (ds, rest) ← scanWhole sign.2
    let n ← integerOf? sign.1 (Digits.number 10 ds)
    return (.integer n, rest)

/-- The digits behind a point, if there is one. -/
def scanFraction : Scan (Option (List Char))
  | '.' :: rest => do
    let (ds, rest) ← scanDigits Char.isDigit rest
    return (some ds, rest)
  | cs => some (none, cs)

/-- The exponent, if there is one. -/
def scanExponent : Scan (Option Int)
  | c :: rest =>
    if c == 'e' || c == 'E' then do
      let sign := Digits.sign rest
      let (ds, rest) ← scanDigits Char.isDigit sign.2
      let n : Int := Digits.number 10 ds
      return (some (if sign.1 then -n else n), rest)
    else some (none, c :: rest)
  | [] => some (none, [])

/-- The number of a decimal. A positive one beyond the greatest magnitude is refused. -/
def floatOf? (negative : Bool) (whole fraction : List Char) (exponent : Int) :
    Option FloatValue :=
  let digits := Digits.number 10 (whole ++ fraction)
  match Binary.ofDecimal? digits (exponent - fraction.length) with
  | some b => some (.finite negative b)
  | none => if negative then some (.infinite true) else none

/-- A number with a fraction, an exponent or both. -/
def scanDecimal : Scan Value := fun cs => do
  let sign := Digits.sign cs
  let (whole, rest) ← scanWhole sign.2
  let (fraction, rest) ← scanFraction rest
  let (exponent, rest) ← scanExponent rest
  if fraction.isNone && exponent.isNone then none
  else do
    let x ← floatOf? sign.1 whole (fraction.getD []) (exponent.getD 0)
    return (.float x, rest)

/-- One of the numbers that have a name. -/
def scanNamed : Scan Value := fun cs =>
  let sign := Digits.sign cs
  match sign.2 with
  | 'i' :: 'n' :: 'f' :: rest => some (.float (.infinite sign.1), rest)
  | 'n' :: 'a' :: 'n' :: rest => some (.float .notANumber, rest)
  | _ => none

/-! ## 5. Dates and times -/

/-- The number that so many digits spell. -/
def scanFixed (count : Nat) : Scan Nat := fun cs =>
  let ds := cs.take count
  if ds.length = count ∧ ds.all Char.isDigit then some (Digits.number 10 ds, cs.drop count)
  else none

/-- A given character. -/
def scanChar (c : Char) : List Char → Option (List Char)
  | d :: rest => if c = d then some rest else none
  | [] => none

/-- The days of a month. -/
def daysIn (year month : Nat) : Nat :=
  if month = 2 then
    (if year % 4 = 0 ∧ (year % 100 ≠ 0 ∨ year % 400 = 0) then 29 else 28)
  else if month = 4 ∨ month = 6 ∨ month = 9 ∨ month = 11 then 30
  else 31

/-- The text behind a date. -/
def scanDate (cs : List Char) : Option (List Char) := do
  let (year, rest) ← scanFixed 4 cs
  let rest ← scanChar '-' rest
  let (month, rest) ← scanFixed 2 rest
  let rest ← scanChar '-' rest
  let (day, rest) ← scanFixed 2 rest
  if 1 ≤ month ∧ month ≤ 12 ∧ 1 ≤ day ∧ day ≤ daysIn year month then some rest else none

/-- The text behind the fraction of a second, if there is one. -/
def scanSecondFraction : List Char → List Char
  | '.' :: c :: rest => if c.isDigit then rest.dropWhile Char.isDigit else '.' :: c :: rest
  | cs => cs

/-- The text behind hours and minutes. -/
def scanHourMinute (cs : List Char) : Option (List Char) := do
  let (hour, rest) ← scanFixed 2 cs
  let rest ← scanChar ':' rest
  let (minute, rest) ← scanFixed 2 rest
  if hour ≤ 23 ∧ minute ≤ 59 then some rest else none

/-- The text behind a time. -/
def scanTime (cs : List Char) : Option (List Char) := do
  let rest ← scanHourMinute cs
  let rest ← scanChar ':' rest
  let (second, rest) ← scanFixed 2 rest
  if second ≤ 60 then some (scanSecondFraction rest) else none

/-- The text behind an offset, if there is one. -/
def scanOffset : List Char → List Char
  | [] => []
  | c :: rest =>
    if c == 'Z' || c == 'z' then rest
    else if c == '+' || c == '-' then (scanHourMinute rest).getD (c :: rest)
    else c :: rest

/-- The text behind a date, a time, or a date with a time. -/
def scanMoment (cs : List Char) : Option (List Char) :=
  match scanDate cs with
  | none => scanTime cs
  | some rest =>
    match rest with
    | c :: behind =>
      if c == 'T' || c == 't' || c == ' ' then
        match scanTime behind with
        | some behind => some (scanOffset behind)
        | none => some rest
      else some rest
    | [] => some []

/-- A value that begins with a digit or a sign. -/
def scanNumber : Scan Value := fun cs =>
  match scanMoment cs with
  | some rest => some (.moment, rest)
  | none => (scanDecimal cs <|> scanNamed cs) <|> scanInteger cs

end HostGlue.Toml
