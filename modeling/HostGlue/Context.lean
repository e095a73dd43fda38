import HostGlue.Error
import HostGlue.Script

/-!
# What all entries of a document share

* `Context` is a protocol with a list of buffer kinds, both checked (`Context.error?`). It can only
  be had with a proof that the check found nothing;
* `CallStatus` are the codes an entry stores or returns;
* `Entry.instanceSlot` and `Entry.constructorSlot` are the places of the host object `Module` that hold
  the live instance and its constructor. Ordinary entries read the instance, the initializer stores it;
* `Entry.bindingError?` is the first name of an entry that cannot be used: that of the function, which
  is a property key and may be a reserved word, or that of a parameter, which becomes a variable of the
  function, must be free in all of it and come once.
-/

namespace HostGlue

/-! ## 1. Contexts -/

/-- The first thing wrong with a list of buffer kinds that follow `seen`: a name that cannot be
    bound, or a code that came before. -/
def BufferKind.errorAfter? (seen : List BufferKind) : List BufferKind → Option GlueError
  | [] => none
  | k :: ks =>
    match Ident.objection? k.name with
    | some o => some (.invalidIdentifier k.name .bufferKinds o)
    | none =>
      match seen.find? fun s => s.code == k.code with
      | some first => some (.duplicateBufferKind k.code first.name k.name)
      | none => errorAfter? (seen ++ [k]) ks

namespace Context

/-- The first thing wrong with a protocol and a list of buffer kinds. -/
def error? (protocol : Protocol) (kinds : List BufferKind) : Option GlueError :=
  match protocol.fault? with
  | some (setting, reason) => some (.invalidProtocol setting (protocol.get setting) reason)
  | none => BufferKind.errorAfter? [] kinds

end Context

/-- A checked protocol with a checked list of buffer kinds. -/
structure Context where
  protocol : Protocol
  kinds : List BufferKind
  accepted : Context.error? protocol kinds = none

namespace Context

/-- The context of a protocol and a list of buffer kinds, or the first thing wrong with them. -/
def of (protocol : Protocol) (kinds : List BufferKind) : Except GlueError Context :=
  match h : error? protocol kinds with
  | some e => .error e
  | none => .ok ⟨protocol, kinds, h⟩

/-- Whether a name is that of the reserved entry. -/
def isInitializer (ctx : Context) (name : String) : Bool :=
  name == ctx.protocol.initializeEntry

end Context

/-! ## 2. Status codes -/

/-- How a call ended. The first two are stored through the status parameter, the third is returned,
    so it may share a code with the first. -/
inductive CallStatus where
  | ok
  | threw
  | doubleFault
  deriving DecidableEq

/-- The code of a status. -/
def CallStatus.code : CallStatus → Int
  | .ok => 0
  | .threw => -1
  | .doubleFault => 0

namespace Entry

open Script (Expr)

/-! ## 3. Slots of the host object -/

/-- The value the host object holds under a key. -/
def hostItem (key : String) : Expr := .item (.name "Module") (.text key)

/-- The live instance. -/
def instanceSlot (p : Protocol) : Expr := hostItem p.instanceKey

/-- The constructor of instances. -/
def constructorSlot (p : Protocol) : Expr := hostItem p.constructorKey

/-! ## 4. Names an entry binds -/

/-- Why a parameter name cannot be bound, given the variables and host functions the entry uses and
    the names before it. -/
def paramObjection? (locals roots seen : List String) (name : String) : Option Objection :=
  match Ident.objection? name with
  | some o => some o
  | none =>
    if locals.contains name then some .shadowsGlueLocal
    else if roots.contains name then some .shadowsProtocolFunction
    else if seen.contains name then some .duplicateParam
    else none

/-- The first of some names that cannot be bound, with the reason. -/
def firstObjection? (objection? : List String → String → Option Objection) (seen : List String) :
    List String → Option (String × Objection)
  | [] => none
  | n :: ns =>
    match objection? seen n with
    | some o => some (n, o)
    | none => firstObjection? objection? (seen ++ [n]) ns

/-- The first name of an entry that cannot be used. -/
def bindingError? (locals : List String) (ctx : Context) (e : Extern) : Option GlueError :=
  if !Ident.isIdentifier e.name then some (.badName e e.name .notIdentifier)
  else
    (firstObjection? (paramObjection? locals ctx.protocol.roots) [] (e.params.map (·.name))).map
      fun bad => .badName e bad.1 bad.2

end Entry

end HostGlue
