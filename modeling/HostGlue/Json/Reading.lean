import HostGlue.Json.Tree

/-!
# Reading values of wanted shapes

A reader takes the tree of a text and answers a value, or the first error in the order of the text.
Containers that are read may be nested 127 deep; a reader is given the depth that is left. This file
holds the readers of texts, integers and sequences, of records (by name from an object, by position
from an array), and of variants (a bare word, or an object with one member).
-/

namespace HostGlue.Json

open Shape (Found Wanted Problem Record)

/-- What a reader answers. -/
abbrev Result (α : Type) := Except Error α

/-- An error of the text itself. -/
def fail {α : Type} (f : Fault) : Result α := .error (.fault f)

/-- The greatest depth of containers that are read. -/
def maxDepth : Nat := 127

/-! ## 1. Values of the wrong shape -/

/-- The error at a value that is not of the wanted shape. A scalar is read to its end first, so a
    fault in it is reported instead. -/
def mismatch (wanted : Wanted) : Tree → Error
  | .null => .shape (.mismatch .unit wanted)
  | .bool b => .shape (.mismatch (.bool b) wanted)
  | .numeral x =>
    match x.value? with
    | none => .fault .malformed
    | some (.integer n) => .shape (.mismatch (.integer n) wanted)
    | some (.float negative b) => .shape (.mismatch (.float (layout.text negative b)) wanted)
  | .text t =>
    match t.read with
    | .error e => e
    | .ok s => .shape (.mismatch (.text s) wanted)
  | .brokenWord f | .brokenNumeral f | .nothing f => .fault f
  | .array _ _ => .shape (.mismatch .sequence wanted)
  | .object _ _ => .shape (.mismatch .map wanted)

/-- The error at a value where no container may be opened any more. An array could have been a
    sequence or a record, an object a record only. -/
def tooDeep (wanted : Wanted) : Tree → Error
  | .array _ _ => .fault .malformed
  | .object members ending =>
    if wanted = .sequence then mismatch wanted (.object members ending) else .fault .malformed
  | t => mismatch wanted t

/-! ## 2. Scalars -/

/-- Reads a string. -/
def readText : Tree → Result String
  | .text t => t.read
  | t => .error (mismatch .text t)

/-- Reads nothing but `null`. -/
def readUnit : Tree → Result Unit
  | .null => .ok ()
  | t => .error (mismatch .unit t)

/-- Reads an integer of 32 bits. -/
def readInt32 : Tree → Result Int32
  | .numeral x =>
    match x.value? with
    | some (.integer n) =>
      if -0x80000000 ≤ n ∧ n < 0x80000000 then .ok (Int32.ofInt n)
      else .error (.shape (.outOfRange n .int32))
    | _ => .error (mismatch .int32 (.numeral x))
  | t => .error (mismatch .int32 t)

/-! ## 3. Sequences and records -/

variable {α δ : Type}

/-- What to report at the end of a container. -/
def endOf (ending : Option Fault) (a : α) : Result α :=
  match ending with
  | none => .ok a
  | some f => fail f

/-- Reads the elements of an array in order. -/
def readItems (item : Tree → Result α) (ending : Option Fault) : List Tree → Result (List α)
  | [] => endOf ending []
  | t :: ts => do
    let a ← item t
    let as ← readItems item ending ts
    return a :: as

/-- Reads an array whose elements are read alike. -/
def readSequence (item : Tree → Result α) : Tree → Result (List α)
  | .array items ending => readItems item ending items
  | t => .error (mismatch .sequence t)

/-- Reads the key of a member, in a record or in a variant. Only a string is one; anything else in its
    place breaks the form of the text. -/
def readKey : Tree → Result String
  | .text t => t.read
  | .nothing f => fail f
  | _ => fail .malformed

/-- Fills a draft from the members of an object. A name the record does not know is skipped with its
    value; a name it knows must not come twice. -/
def readMembers (r : Record Tree Error δ) (ending : Option Fault) :
    List (Tree × Tree) → δ → Result δ
  | [], d => endOf ending d
  | (k, v) :: ms, d => do
    let name ← readKey k
    match r.field? name with
    | none =>
      match v.skipFault with
      | none => readMembers r ending ms d
      | some f => fail f
    | some field =>
      if field.filled d then .error (.shape (.duplicateField name))
      else do
        let d ← field.fill v d
        readMembers r ending ms d

/-- Fills a draft from an object by name, or from an array by position. An array must not have more
    elements than the record has fields. -/
def readRecord (r : Record Tree Error δ) (draft : δ) : Tree → Result δ
  | .object members ending => readMembers r ending members draft
  | .array items ending => do
    let (d, rest) ← r.fillInOrder .shape (ending.map .fault) items draft
    if rest.isEmpty then endOf ending d else fail .malformed
  | t => .error (mismatch (.record r.name) t)

/-- The value of a field that a document must give. -/
def require (name : String) (a : Option α) : Result α :=
  match Shape.require name a with
  | .ok a => .ok a
  | .error p => .error (.shape p)

/-! ## 4. Variants -/

/-- Reads a variant: `bare` by its word alone, or `content` from an object whose only member has the
    word for a key. Any other value is refused as malformed, and so is an object whose key is no string,
    such as `{1:2}`. -/
def readVariant (bare : String → Result α) (content : String → Tree → Result α) :
    Tree → Result α
  | .text t => do
    let word ← t.read
    bare word
  | .object [] none => fail .malformed
  | .object [] (some f) => fail f
  | .object ((k, v) :: others) ending => do
    let word ← readKey k
    let a ← content word v
    if others.isEmpty then endOf ending a else fail .malformed
  | .nothing f => fail f
  | _ => fail .malformed

/-! ## 5. Whole texts -/

/-- Reads a whole text. Behind the value there may be blanks only. -/
def read (reader : Nat → Tree → Result α) (text : String) : Result α := do
  let document := Document.ofText text
  let a ← reader maxDepth document.tree
  if document.trailing then fail .malformed else return a

end HostGlue.Json
