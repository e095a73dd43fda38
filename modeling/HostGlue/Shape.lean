import HostGlue.Digits
import HostGlue.Text.Visible

/-!
# Shapes of documents

Catalogs and settings are read from documents of two formats by the same rules. A value of a
document either has the wanted shape or there is a problem with it, and both formats word a problem
alike. This file fixes

* `Found` and `Wanted`, the two sides of a mismatch, and `Problem` with its wording;
* `Record`, a named list of fields filled one by one into a draft, and the two ways to fill it:
  by position (`Record.fillInOrder`) and by name (`Record.field?`, `require`);
* `Json.Error` and `Toml.Error`, why a text of either format is not read.
-/

namespace HostGlue.Shape

/-! ## 1. Problems -/

/-- What stands in the document. A number with a fraction is kept as its format writes it. -/
inductive Found where
  | unit
  | bool (b : Bool)
  | integer (n : Int)
  | float (shown : String)
  | text (s : String)
  | sequence
  | map
  | bareVariant
  deriving DecidableEq

/-- What should stand there. -/
inductive Wanted where
  | text
  | sequence
  | int32
  | unit
  | record (name : String)
  | variantContent
  deriving DecidableEq

/-- Why a document has not the wanted shape. -/
inductive Problem where
  | mismatch (found : Found) (wanted : Wanted)
  | outOfRange (n : Int) (wanted : Wanted)
  | missingField (name : String)
  | duplicateField (name : String)
  | shortSequence (length : Nat) (record : String) (fields : Nat)
  | unknownVariant (name : String) (known : List String)
  deriving DecidableEq

/-- A word between backquotes. -/
def ticked (word : String) : String :=
  "`" ++ word ++ "`"

/-- The wording of what was found. -/
def Found.message : Found → String
  | .unit => "null"
  | .bool true => "boolean `true`"
  | .bool false => "boolean `false`"
  | .integer n => "integer " ++ ticked (Digits.ofInt n)
  | .float shown => "floating point " ++ ticked shown
  | .text s => "string " ++ Text.Shown.quoted s
  | .sequence => "sequence"
  | .map => "map"
  | .bareVariant => "unit variant"

/-- The wording of what was wanted. -/
def Wanted.message : Wanted → String
  | .text => "a string"
  | .sequence => "a sequence"
  | .int32 => "i32"
  | .unit => "unit"
  | .record name => "struct " ++ name
  | .variantContent => "newtype variant"

/-- The wording of a choice between known words. -/
def choice : List String → String
  | [] => "there are no variants"
  | [a] => "expected " ++ ticked a
  | [a, b] => "expected " ++ ticked a ++ " or " ++ ticked b
  | words => "expected one of " ++ ", ".intercalate (words.map ticked)

/-- The wording of a problem. -/
def Problem.message : Problem → String
  | .mismatch found wanted => "invalid type: " ++ found.message ++ ", expected " ++ wanted.message
  | .outOfRange n wanted =>
    "invalid value: " ++ (Found.integer n).message ++ ", expected " ++ wanted.message
  | .missingField name => "missing field " ++ ticked name
  | .duplicateField name => "duplicate field " ++ ticked name
  | .shortSequence length record fields =>
    "invalid length " ++ Digits.ofInt length ++ ", expected " ++ (Wanted.record record).message ++
      " with " ++ Digits.ofInt fields ++ (if fields = 1 then " element" else " elements")
  | .unknownVariant name known => "unknown variant " ++ ticked name ++ ", " ++ choice known

/-! ## 2. Records -/

/-- One field of a record: its name, whether a document must give it, whether a draft has it yet,
    and how a value of the document is put into a draft. -/
structure Field (τ ε δ : Type) where
  name : String
  required : Bool
  filled : δ → Bool
  fill : τ → δ → Except ε δ

/-- A record: the name it has in problems, and its fields in declaration order. -/
structure Record (τ ε δ : Type) where
  name : String
  fields : List (Field τ ε δ)

variable {τ ε δ : Type}

/-- The field of a name. -/
def Record.field? (r : Record τ ε δ) (name : String) : Option (Field τ ε δ) :=
  r.fields.find? fun f => f.name == name

/-- Fills the fields from a position on, in order, from the values of a sequence. `ending` is what
    to report where the values end: an error of the sequence itself, or nothing if it is complete;
    then a field that may be left out stays as the draft has it. The values left over are returned
    with the draft. -/
def Record.fillFrom (r : Record τ ε δ) (lift : Problem → ε) (ending : Option ε) :
    Nat → List (Field τ ε δ) → List τ → δ → Except ε (δ × List τ)
  | _, [], rest, d => .ok (d, rest)
  | i, f :: fs, x :: xs, d => do
    let d ← f.fill x d
    r.fillFrom lift ending (i + 1) fs xs d
  | i, f :: fs, [], d =>
    match ending with
    | some e => .error e
    | none =>
      if f.required then .error (lift (.shortSequence i r.name r.fields.length))
      else r.fillFrom lift ending (i + 1) fs [] d

/-- Fills all fields in declaration order from the values of a sequence. -/
def Record.fillInOrder (r : Record τ ε δ) (lift : Problem → ε) (ending : Option ε)
    (values : List τ) (draft : δ) : Except ε (δ × List τ) :=
  r.fillFrom lift ending 0 r.fields values draft

/-- The value of a field that a document must give. -/
def require {α : Type} (name : String) : Option α → Except Problem α
  | some a => .ok a
  | none => .error (.missingField name)

end HostGlue.Shape

/-! ## 3. Texts that are not read -/

namespace HostGlue.Json

/-- A fault of the text alone. Reading goes through a text once, from left to right: it is not
    grammatical somewhere, or it ends too early. -/
inductive Fault where
  | malformed
  | truncated
  deriving DecidableEq

/-- Why a text is not read: the first thing that is wrong with it. -/
inductive Error where
  | fault (f : Fault)
  | shape (p : Shape.Problem)
  deriving DecidableEq

/-- A chain of steps that ends well has a first step that ended well. -/
theorem bind_eq_ok {ε α β : Type} {x : Except ε α} {f : α → Except ε β} {b : β} :
    (x >>= f) = .ok b ↔ ∃ a, x = .ok a ∧ f a = .ok b := by
  cases x with
  | error e => simp [bind, Except.bind]
  | ok a => simp [bind, Except.bind]

end HostGlue.Json

namespace HostGlue.Toml

/-- Why a text is not read. A text that is no document is not looked at any further. A document may
    still not have the wanted shape. -/
inductive Error where
  | malformed
  | shape (p : Shape.Problem)
  deriving DecidableEq

end HostGlue.Toml
