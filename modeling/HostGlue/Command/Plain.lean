import HostGlue.Command

/-!
# A plain console

The program is run with words of this console where they are not its own. It says little about a text
that is not read, and nothing about arguments. A log goes to a stream that need not be a terminal, so
what would steer a terminal is left out of it. This file holds

* `Mode`, where a reader of control functions stands, with the characters that are shown there
  (`Mode.shows`) and the mode behind one that is not (`Mode.after`);
* `plain`, the text that is left: controls other than blanks are dropped, and so are escape
  sequences, control sequences and control strings with all that belongs to them. A control function
  that does not end swallows the text to its end;
* `Console.plain`, the console.
-/

namespace HostGlue.Text.Control

/-! ## 1. Modes -/

/-- Where a reader stands: in text, behind ESC, or inside the control function it introduced. -/
inductive Mode where
  /-- Outside every control function. -/
  | text
  /-- Behind ESC. -/
  | escape
  /-- Behind an intermediate character of an escape sequence. -/
  | intermediate
  /-- In a control sequence. -/
  | sequence
  /-- In an operating system command. -/
  | command
  /-- At the start of a device control string. -/
  | device
  /-- In the parameters of a device control string. -/
  | deviceParams
  /-- Behind an intermediate character of a device control string. -/
  | deviceIntermediate
  /-- In the body of a control string. -/
  | body
  deriving DecidableEq

/-- A character whose code lies between two bounds. -/
def within (lo hi : Nat) (c : Char) : Bool := lo ≤ c.toNat && c.toNat ≤ hi

/-- The controls that only move on in a text: tab, line feed, form feed and carriage return. -/
def isBlank (c : Char) : Bool := c = '\t' || c = '\n' || c = '\x0c' || c = '\r'

/-- The characters beyond ASCII. -/
def isWide (c : Char) : Bool := 0x80 ≤ c.toNat

/-- Whether the octet that ends a control string is among those that encode a character. -/
def hasTerminator (c : Char) : Bool := (String.utf8EncodeChar c).contains 0x9c

/-- Whether a character is shown. Blanks are carried out inside escape and control sequences too,
    but not inside control strings. -/
def Mode.shows : Mode → Char → Bool
  | .text, c => isBlank c || within 0x20 0x7e c || isWide c
  | .escape, c | .intermediate, c | .sequence, c => isBlank c
  | _, _ => false

/-- The mode that the character behind ESC leads to. -/
def introduced (c : Char) : Mode :=
  if within 0x20 0x2f c then .intermediate
  else if c = '[' then .sequence
  else if c = ']' then .command
  else if c = 'P' then .device
  else if c = 'X' || c = '^' || c = '_' then .body
  else if within 0x30 0x7e c then .text
  else .escape

/-- The mode behind a character of the parameters or intermediates of a device control string,
    where none other is known. Its final character begins the body, as does one out of place. -/
def deviceBody (m : Mode) (c : Char) : Mode :=
  if within 0x20 0x2f c then .deviceIntermediate
  else if within 0x30 0x7e c then .body
  else m

/-- The mode behind a character that is not shown. CAN and SUB break off every control function,
    and ESC begins one. -/
def Mode.after (m : Mode) (c : Char) : Mode :=
  if c = '\x18' || c = '\x1a' then .text
  else if c = '\x1b' then .escape
  else
    match m with
    | .text => .text
    | .escape => introduced c
    | .intermediate => if within 0x30 0x7e c then .text else .intermediate
    | .sequence => if within 0x40 0x7e c then .text else .sequence
    | .command => if c = '\x07' then .text else .command
    | .device | .deviceParams =>
      if c.isDigit || c = ';' || (m = .device && within 0x3c 0x3f c) then .deviceParams
      else deviceBody m c
    | .deviceIntermediate => deviceBody .deviceIntermediate c
    | .body => if hasTerminator c then .text else .body

/-! ## 2. Plain text -/

/-- What is left of a text that is read in a mode. Behind a shown character the text is shown for
    as long as it is plain, whatever the mode; the first character that is not resumes the mode. A
    character beyond ASCII ends the mode. -/
def plainFrom (m : Mode) (shown : Bool) : List Char → List Char
  | [] => []
  | c :: cs =>
    if (if shown then Mode.text else m).shows c then
      c :: plainFrom (if isWide c then .text else m) true cs
    else plainFrom (m.after c) false cs

/-- A text without its control functions. -/
def plain (text : String) : String :=
  String.ofList (plainFrom .text false text.toList)

end HostGlue.Text.Control

namespace HostGlue.Command

/-! ## 3. The console -/

/-- A record as it is logged: the level between brackets and the wording, without the control
    functions of a terminal. Each record is read anew, so a control function that does not end
    swallows the end of its own record, the line feed included, and none of the next. -/
def plainLine (r : Log.Record) : String :=
  Text.Control.plain ("[" ++ r.level.name ++ "] " ++ hanging "    " r.message ++ "\n")

/-- A console of few words. -/
def Console.plain : Console where
  settings
    | _, .malformed => "malformed TOML"
    | _, .shape p => p.message
  catalog
    | _, .fault .malformed => "malformed JSON"
    | _, .fault .truncated => "unexpected end of JSON"
    | _, .shape p => p.message
  help _ := ""
  usage _ := ""
  filter := none
  log records := String.join (records.map plainLine)

end HostGlue.Command
