import HostGlue.Ty

/-!
# Tags of types

The host asks for two classifications of a type:

* a *dispatch tag*, one character of the signature string of an indirect call (`dispatchTag`,
  `Param.dispatchTag`, `callSignature`);
* a *storage tag*, the memory format of a store through an address (`storageTag`).

Neither is total: there is no calling-convention class for integers of 8 and 16 bits, and no memory
format for `void`. The refusal is an `Untagged`, which names the type and the classification.
-/

namespace HostGlue

/-- The calling-convention classes of an indirect call. -/
inductive DispatchTag where
  | void
  | int
  | int64
  | float
  | double
  deriving DecidableEq

/-- The character of a class in a signature string. -/
def DispatchTag.char : DispatchTag → Char
  | .void => 'v'
  | .int => 'i'
  | .int64 => 'j'
  | .float => 'f'
  | .double => 'd'

/-- The memory formats of a store. -/
inductive StorageTag where
  | i8
  | i16
  | i32
  | i64
  | float
  | double
  | pointer
  deriving DecidableEq

/-- The word for a memory format. -/
def StorageTag.word : StorageTag → String
  | .i8 => "i8"
  | .i16 => "i16"
  | .i32 => "i32"
  | .i64 => "i64"
  | .float => "float"
  | .double => "double"
  | .pointer => "*"

/-- The two classifications. -/
inductive TagKind where
  | dispatch
  | storage
  deriving DecidableEq

/-- What a classification looks for, as diagnostics put it. -/
def TagKind.text : TagKind → String
  | .dispatch => "a dispatch tag"
  | .storage => "a storage tag"

/-- A type that a classification has no tag for. -/
structure Untagged where
  ty : Ty
  kind : TagKind
  deriving DecidableEq

/-- The wording of the refusal. -/
def Untagged.message (u : Untagged) : String :=
  "cannot marshal type " ++ u.ty.text ++ " as " ++ u.kind.text

/-! ## 1. Dispatch -/

/-- The class of a type. References travel as 32-bit addresses, value types go by their width. -/
def Ty.dispatchTag : Ty → Except Untagged DispatchTag
  | .plain .void => .ok .void
  | .plain .string | .plain .handle | .callback _ _ => .ok .int
  | .plain .f32 => .ok .float
  | .plain .f64 => .ok .double
  | ty =>
    match ty.width? with
    | some 4 => .ok .int
    | some 8 => .ok .int64
    | _ => .error ⟨ty, .dispatch⟩

/-- The class of a parameter. What a parameter stores through an address is of no matter: the
    address itself is passed. -/
def Param.dispatchTag (p : Param) : Except Untagged DispatchTag :=
  match p.direction with
  | .output => .ok .int
  | .input => p.ty.dispatchTag

/-- The characters of the parameters of a call, or the first refusal. -/
def argumentTags : List Param → Except Untagged (List Char)
  | [] => .ok []
  | p :: ps => do
    let tag ← p.dispatchTag
    let tags ← argumentTags ps
    return tag.char :: tags

/-- The signature string of an indirect call: the class of the result, then that of each parameter.
    The result is looked at first. -/
def callSignature (result : Ty) (params : List Param) : Except Untagged String := do
  let tag ← result.dispatchTag
  let tags ← argumentTags params
  return String.ofList (tag.char :: tags)

/-! ## 2. Storage -/

/-- The memory format of a type. -/
def Ty.storageTag : Ty → Except Untagged StorageTag
  | .plain .i8 | .plain .u8 => .ok .i8
  | .plain .i16 | .plain .u16 => .ok .i16
  | .plain .i32 | .plain .u32 => .ok .i32
  | .plain .i64 | .plain .u64 => .ok .i64
  | .plain .f32 => .ok .float
  | .plain .f64 => .ok .double
  | .plain .string | .plain .handle | .callback _ _ => .ok .pointer
  | .plain .void => .error ⟨.plain .void, .storage⟩

end HostGlue
