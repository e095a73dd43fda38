import HostGlue.Ident

/-!
# The calling protocol

The glue and the host agree on five names. Each has a standard value, and each is written into the
document as it stands, so a protocol is checked before it is used. This file fixes

* `Protocol` with its standard values;
* `Protocol.fault?`, the first setting that cannot be used: both keys are given and differ, the
  reserved entry has a name that can be bound, the two host functions are dotted paths.
-/

namespace HostGlue

/-- The names the glue and the host agree on: the key under which the host object holds the live
    instance, the key of its constructor, the reserved entry that creates it, and the host
    functions that decode a text and make an indirect call. -/
structure Protocol where
  instanceKey : String := "glueRuntimeInstance"
  constructorKey : String := "GlueRuntime"
  initializeEntry : String := "InitializeInternal"
  stringDecoder : String := "Pointer_stringify"
  dynCall : String := "Runtime.dynCall"
  deriving DecidableEq

namespace Protocol

/-- The settings of a protocol. -/
inductive Setting where
  | instanceKey
  | constructorKey
  | initializeEntry
  | stringDecoder
  | dynCall
  deriving DecidableEq

/-- The name of a setting in a settings document. -/
def Setting.name : Setting → String
  | .instanceKey => "instance_key"
  | .constructorKey => "constructor_key"
  | .initializeEntry => "initialize_entry"
  | .stringDecoder => "string_decoder"
  | .dynCall => "dyncall"

/-- The value a protocol gives a setting. -/
def get (p : Protocol) : Setting → String
  | .instanceKey => p.instanceKey
  | .constructorKey => p.constructorKey
  | .initializeEntry => p.initializeEntry
  | .stringDecoder => p.stringDecoder
  | .dynCall => p.dynCall

/-- Why a setting cannot be used. -/
inductive Reason where
  | empty
  | sameAsInstanceKey
  | name (o : Objection)
  | notDottedPath
  deriving DecidableEq

/-- The wording of a reason. -/
def Reason.text : Reason → String
  | .empty => "must not be empty"
  | .sameAsInstanceKey => "must differ from instance_key"
  | .name o => o.text
  | .notDottedPath => "not a dotted JS path"

/-- The first setting that cannot be used, with the reason. -/
def fault? (p : Protocol) : Option (Setting × Reason) :=
  if p.instanceKey = "" then some (.instanceKey, .empty)
  else if p.constructorKey = "" then some (.constructorKey, .empty)
  else if p.instanceKey = p.constructorKey then some (.constructorKey, .sameAsInstanceKey)
  else
    match Ident.objection? p.initializeEntry with
    | some o => some (.initializeEntry, .name o)
    | none =>
      if !Ident.isDottedPath p.stringDecoder then some (.stringDecoder, .notDottedPath)
      else if !Ident.isDottedPath p.dynCall then some (.dynCall, .notDottedPath)
      else none

/-- The bindings through which the two host functions are called. Names of a catalog must not take
    their place. -/
def roots (p : Protocol) : List String :=
  [Ident.rootSegment p.stringDecoder, Ident.rootSegment p.dynCall]

end Protocol

end HostGlue
