import HostGlue.Text.Split

/-!
# Names that may stand in generated script text

Every name of a catalog or a protocol setting is written into the document as it stands, so it has
to be a name there and must not take the place of a name the document uses. This file fixes

* the ASCII identifiers (`isIdentifier`): a letter, `_` or `$`, then letters, digits, `_` and `$`;
* the closed lists of names with a use of their own: reserved words, globals of the host, and the
  variables an ordinary entry or an initializer declares;
* `objection?`: the first reason for which a name cannot be bound, in the order in which reasons
  are reported;
* dotted paths such as `Runtime.dynCall` (`isDottedPath`) and the binding through which a path is
  resolved (`rootSegment`).
-/

namespace HostGlue

/-! ## 1. Reasons against a name -/

/-- Why a name cannot be bound at the place where it was given. -/
inductive Objection where
  | notIdentifier
  | reservedWord
  | shadowsHostGlobal
  | shadowsGlueLocal
  | shadowsInitializerParam
  | shadowsWiringLocal
  | shadowsProtocolFunction
  | duplicateParam
  deriving DecidableEq

/-- The wording of a reason in a diagnostic. -/
def Objection.text : Objection → String
  | .notIdentifier => "not a JS identifier"
  | .reservedWord => "JS reserved word"
  | .shadowsHostGlobal => "shadows a host global"
  | .shadowsGlueLocal => "shadows a local of the generated glue"
  | .shadowsInitializerParam => "shadows an initializer parameter"
  | .shadowsWiringLocal => "shadows a wiring local"
  | .shadowsProtocolFunction => "shadows a protocol function"
  | .duplicateParam => "duplicate parameter name"

namespace Ident

/-! ## 2. Identifiers -/

/-- The characters an identifier may begin with. -/
def isStart (c : Char) : Bool :=
  c.isAlpha || c == '_' || c == '$'

/-- The characters an identifier may go on with. -/
def isPart (c : Char) : Bool :=
  c.isAlphanum || c == '_' || c == '$'

/-- `isIdentifier` on the characters of a name. -/
def spellsIdentifier : List Char → Bool
  | [] => false
  | c :: cs => isStart c && cs.all isPart

/-- A plain ASCII identifier. Reserved words are identifiers too: they may be property keys. -/
def isIdentifier (name : String) : Bool :=
  spellsIdentifier name.toList

/-! ## 3. Names with a use of their own -/

/-- The words that cannot be bound in strict script code. -/
def reservedWords : List String :=
  ["arguments", "await", "break", "case", "catch", "class", "const", "continue",
   "debugger", "default", "delete", "do", "else", "enum", "eval", "export",
   "extends", "false", "finally", "for", "function", "if", "implements", "import",
   "in", "instanceof", "interface", "let", "new", "null", "package", "private",
   "protected", "public", "return", "static", "super", "switch", "this", "throw",
   "true", "try", "typeof", "var", "void", "while", "with", "yield"]

/-- The variables every ordinary entry declares. A parameter of one of these names would be
    overwritten before it is forwarded. -/
def ordinaryLocals : List String :=
  ["context", "ret", "returnStr", "bufferSize", "strBuffer",
   "error", "errString", "strRet", "innerError"]

/-- The variables the initializer declares. -/
def initializerLocals : List String :=
  ["arrayBuilder", "ch", "oac", "orc", "ctr"]

/-- The globals of the host that entries read. -/
def hostGlobals : List String :=
  ["Module", "Runtime", "buffer", "setValue", "console", "String",
   "_malloc", "lengthBytesUTF8", "stringToUTF8"]

/-- A word of the strict-mode list. -/
def isReserved (name : String) : Bool :=
  reservedWords.contains name

/-- Why a name cannot be bound anywhere in the document, if it cannot: it is no identifier, it is a
    reserved word, or the document reads a host global of that name. -/
def objection? (name : String) : Option Objection :=
  if !isIdentifier name then some .notIdentifier
  else if isReserved name then some .reservedWord
  else if hostGlobals.contains name then some .shadowsHostGlobal
  else none

/-! ## 4. Dotted paths -/

/-- The segments of a path, as names. -/
def pathSegments (path : String) : List String :=
  (Text.split '.' path.toList).map String.ofList

/-- A path whose segments are all identifiers. The empty text has one empty segment and is none. -/
def isDottedPath (path : String) : Bool :=
  (Text.split '.' path.toList).all spellsIdentifier

/-- The first segment of a path: the binding a call through the path resolves first. -/
def rootSegment (path : String) : String :=
  String.ofList (path.toList.takeWhile (· != '.'))

end Ident

end HostGlue
