import HostGlue.Catalog
import HostGlue.Json.Reading

/-!
# Catalogs as JSON texts

The records of a catalog, their fields in declaration order, and what stands for a field that is
left out. A type is a word, or an object with the one member `callback`; its signature is a record
of its own, so types and parameter lists are read by mutual recursion on the depth that is left.

* `readTy`, `readParam`, `readExtern`, `readBufferKind`, `readCatalog` read the tree of a text;
* `Catalog.ofJson` reads a whole catalog text.
-/

namespace HostGlue.Json

open Shape (Field Record)

/-! ## 1. Words -/

/-- The words for directions, as diagnostics list them. -/
def directionNames : List String := ["in", "out"]

/-- The word for types with a signature. -/
def callbackName : String := "callback"

/-- The words for types, as diagnostics list them. -/
def tyNames : List String := Plain.all.map Plain.name ++ [callbackName]

/-- The direction of a word. -/
def directionOfName (word : String) : Result Direction :=
  match Direction.ofName? word with
  | some d => .ok d
  | none => .error (.shape (.unknownVariant word directionNames))

/-- Reads a direction. -/
def readDirection : Nat → Tree → Result Direction
  | 0, .object _ _ => fail .malformed
  | _, t =>
    readVariant directionOfName
      (fun word content => do
        let d ← directionOfName word
        readUnit content
        return d)
      t

/-- The type of a bare word. -/
def tyOfName (word : String) : Result Ty :=
  match Plain.ofName? word with
  | some p => .ok (.plain p)
  | none =>
    if word = callbackName then .error (.shape (.mismatch .bareVariant .variantContent))
    else .error (.shape (.unknownVariant word tyNames))

/-- The type of a word with content, given how signatures are read. -/
def tyOfContent (signature : Tree → Result Ty) (word : String) (content : Tree) : Result Ty :=
  match Plain.ofName? word with
  | some p => do
    readUnit content
    return .plain p
  | none =>
    if word = callbackName then signature content
    else .error (.shape (.unknownVariant word tyNames))

/-! ## 2. Parameters and callbacks -/

/-- A parameter that is being read. -/
structure ParamDraft where
  name : Option String := none
  ty : Option Ty := none
  direction : Option Direction := none

/-- The fields of a parameter, given how types and directions are read. -/
def paramRecord (ty : Tree → Result Ty) (direction : Tree → Result Direction) :
    Record Tree Error ParamDraft where
  name := "ParameterDescriptor"
  fields :=
    [⟨"name", true, (·.name.isSome), fun t d => do
        let s ← readText t
        return { d with name := some s }⟩,
     ⟨"type", true, (·.ty.isSome), fun t d => do
        let ty ← ty t
        return { d with ty := some ty }⟩,
     ⟨"direction", false, (·.direction.isSome), fun t d => do
        let direction ← direction t
        return { d with direction := some direction }⟩]

/-- The parameter of a complete draft. Without a direction it carries a value in. -/
def ParamDraft.build (d : ParamDraft) : Result Param := do
  let name ← require "name" d.name
  let ty ← require "type" d.ty
  return ⟨name, ty, d.direction.getD .input⟩

/-- A callback that is being read. -/
structure CallbackDraft where
  params : Option (List Param) := none
  result : Option Ty := none

/-- The fields of a callback, given how parameter lists and types are read. -/
def callbackRecord (params : Tree → Result (List Param)) (ty : Tree → Result Ty) :
    Record Tree Error CallbackDraft where
  name := "CallbackSignature"
  fields :=
    [⟨"params", false, (·.params.isSome), fun t d => do
        let params ← params t
        return { d with params := some params }⟩,
     ⟨"return", false, (·.result.isSome), fun t d => do
        let result ← ty t
        return { d with result := some result }⟩]

/-- The type of a complete draft. -/
def CallbackDraft.build (d : CallbackDraft) : Ty :=
  .callback (d.params.getD []) (d.result.getD Extern.defaultResult)

mutual

/-- Reads a type. -/
def readTy : Nat → Tree → Result Ty
  | 0, .object _ _ => fail .malformed
  | 0, t => readVariant tyOfName (fun _ _ => fail .malformed) t
  | depth + 1, t => readVariant tyOfName (tyOfContent (readCallback depth)) t
termination_by structural depth => depth

/-- Reads the signature of a callback. -/
def readCallback : Nat → Tree → Result Ty
  | 0, t => .error (tooDeep (.record "CallbackSignature") t)
  | depth + 1, t => do
    let d ← readRecord (callbackRecord (readParams depth) (readTy depth)) {} t
    return d.build
termination_by structural depth => depth

/-- Reads a parameter list. -/
def readParams : Nat → Tree → Result (List Param)
  | 0, t => .error (tooDeep .sequence t)
  | depth + 1, t => readSequence (readParam depth) t
termination_by structural depth => depth

/-- Reads a parameter. -/
def readParam : Nat → Tree → Result Param
  | 0, t => .error (tooDeep (.record "ParameterDescriptor") t)
  | depth + 1, t => do
    let d ← readRecord (paramRecord (readTy depth) (readDirection depth)) {} t
    d.build
termination_by structural depth => depth

end

/-! ## 3. Externs, buffer kinds and catalogs -/

/-- An extern that is being read. -/
structure ExternDraft where
  name : Option String := none
  owner : Option String := none
  params : Option (List Param) := none
  result : Option Ty := none

/-- The fields of an extern, at a depth. -/
def externRecord (depth : Nat) : Record Tree Error ExternDraft where
  name := "FunctionDescriptor"
  fields :=
    [⟨"name", true, (·.name.isSome), fun t d => do
        let s ← readText t
        return { d with name := some s }⟩,
     ⟨"owner", false, (·.owner.isSome), fun t d => do
        let s ← readText t
        return { d with owner := some s }⟩,
     ⟨"params", false, (·.params.isSome), fun t d => do
        let params ← readParams depth t
        return { d with params := some params }⟩,
     ⟨"return", false, (·.result.isSome), fun t d => do
        let result ← readTy depth t
        return { d with result := some result }⟩]

/-- The extern of a complete draft. -/
def ExternDraft.build (d : ExternDraft) : Result Extern := do
  let name ← require "name" d.name
  return ⟨name, d.owner.getD Extern.defaultOwner, d.params.getD [],
    d.result.getD Extern.defaultResult⟩

/-- Reads an extern. -/
def readExtern : Nat → Tree → Result Extern
  | 0, t => .error (tooDeep (.record "FunctionDescriptor") t)
  | depth + 1, t => do
    let d ← readRecord (externRecord depth) {} t
    d.build

/-- A buffer kind that is being read. -/
structure BufferKindDraft where
  code : Option Int32 := none
  name : Option String := none

/-- The fields of a buffer kind. -/
def bufferKindRecord : Record Tree Error BufferKindDraft where
  name := "BufferElementKind"
  fields :=
    [⟨"code", true, (·.code.isSome), fun t d => do
        let code ← readInt32 t
        return { d with code := some code }⟩,
     ⟨"name", true, (·.name.isSome), fun t d => do
        let s ← readText t
        return { d with name := some s }⟩]

/-- The buffer kind of a complete draft. -/
def BufferKindDraft.build (d : BufferKindDraft) : Result BufferKind := do
  let code ← require "code" d.code
  let name ← require "name" d.name
  return ⟨code, name⟩

/-- Reads a buffer kind. -/
def readBufferKind : Nat → Tree → Result BufferKind
  | 0, t => .error (tooDeep (.record "BufferElementKind") t)
  | _ + 1, t => do
    let d ← readRecord bufferKindRecord {} t
    d.build

/-- Reads a list of buffer kinds. -/
def readBufferKinds : Nat → Tree → Result (List BufferKind)
  | 0, t => .error (tooDeep .sequence t)
  | depth + 1, t => readSequence (readBufferKind depth) t

/-- Reads a list of externs. -/
def readExterns : Nat → Tree → Result (List Extern)
  | 0, t => .error (tooDeep .sequence t)
  | depth + 1, t => readSequence (readExtern depth) t

/-- A catalog that is being read. -/
structure CatalogDraft where
  externs : Option (List Extern) := none
  bufferKinds : Option (List BufferKind) := none

/-- The fields of a catalog, at a depth. -/
def catalogRecord (depth : Nat) : Record Tree Error CatalogDraft where
  name := "Catalog"
  fields :=
    [⟨"functions", true, (·.externs.isSome), fun t d => do
        let externs ← readExterns depth t
        return { d with externs := some externs }⟩,
     ⟨"buffer_kinds", false, (·.bufferKinds.isSome), fun t d => do
        let kinds ← readBufferKinds depth t
        return { d with bufferKinds := some kinds }⟩]

/-- The catalog of a complete draft. -/
def CatalogDraft.build (d : CatalogDraft) : Result Catalog := do
  let externs ← require "functions" d.externs
  return ⟨externs, d.bufferKinds.getD BufferKind.standard⟩

/-- Reads a catalog. -/
def readCatalog : Nat → Tree → Result Catalog
  | 0, t => .error (tooDeep (.record "Catalog") t)
  | depth + 1, t => do
    let d ← readRecord (catalogRecord depth) {} t
    d.build

end HostGlue.Json

namespace HostGlue

/-- The catalog a JSON text describes. -/
def Catalog.ofJson (text : String) : Except Json.Error Catalog :=
  Json.read Json.readCatalog text

end HostGlue
