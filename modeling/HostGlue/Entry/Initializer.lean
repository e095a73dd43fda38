import HostGlue.Context

/-!
# The initializer

The reserved entry creates the runtime instance. It is given three function pointers of the native
side: a handler, and what to do when a handle is acquired or released. This file fixes

* `Trampoline`, a function of the script side that calls such a pointer with the signature of its
  callback type, and `Trampoline.of`, which checks one;
* `Initializer.of`, which accepts an extern or gives the first reason against it;
* `Initializer.property`, the entry as a program: a builder of typed views over the memory, the
  three trampolines, and the construction of the instance from them.
-/

namespace HostGlue.Entry

open Script (Expr Stmt Property)

/-! ## 1. Trampolines -/

/-- The variables of the trampolines, in the order in which the constructor takes them. -/
def trampolineNames : List String := ["ch", "oac", "orc"]

/-- A function of the script side that calls a function pointer. -/
structure Trampoline where
  binding : String
  pointer : String
  args : List String
  signature : String
  deriving DecidableEq

/-- Why an argument of a callback cannot be bound inside its trampoline: it must leave the entry's
    own parameters, its variables and the host functions visible, and come once. -/
def argumentObjection? (params roots seen : List String) (name : String) : Option Objection :=
  match Ident.objection? name with
  | some o => some o
  | none =>
    if params.contains name then some .shadowsInitializerParam
    else if Ident.initializerLocals.contains name then some .shadowsWiringLocal
    else if roots.contains name then some .shadowsProtocolFunction
    else if seen.contains name then some .duplicateParam
    else none

/-- The trampoline of a parameter, or the first reason against it: it is no callback, an argument
    cannot be bound, or a type of its signature has no class. -/
def Trampoline.of (ctx : Context) (e : Extern) (variableName : String) (p : Param) :
    Except GlueError Trampoline :=
  match p.ty with
  | .plain t => .error (.badInitializer e.name e.owner (.notCallback p.name (.plain t)))
  | .callback params result =>
    let args := params.map (·.name)
    match firstObjection?
        (argumentObjection? (e.params.map (·.name)) ctx.protocol.roots) [] args with
    | some (arg, o) => .error (.badInitializer e.name e.owner (.badArgument p.name arg o))
    | none =>
      match callSignature result params with
      | .error u => .error (.untagged e u)
      | .ok signature => .ok ⟨variableName, p.name, args, signature⟩

/-- The trampolines of some parameters, or the first reason against one. -/
def trampolines (ctx : Context) (e : Extern) :
    List (String × Param) → Except GlueError (List Trampoline)
  | [] => .ok []
  | (x, p) :: rest => do
    let t ← Trampoline.of ctx e x p
    let ts ← trampolines ctx e rest
    return t :: ts

/-- A trampoline as a function expression. -/
def Trampoline.function (ctx : Context) (t : Trampoline) : Expr :=
  .lambda t.args
    (.call (.ofPath ctx.protocol.dynCall)
      [.text t.signature, .name t.pointer, .list (Expr.names t.args)])

/-! ## 2. Acceptance -/

/-- An accepted initializer. -/
structure Initializer where
  source : Extern
  trampolines : List Trampoline
  deriving DecidableEq

namespace Initializer

/-- The initializer of an extern, or the first reason against it. Parameters behind the three
    callbacks may be of any type. -/
def of (ctx : Context) (e : Extern) : Except GlueError Initializer :=
  match bindingError? Ident.initializerLocals ctx e with
  | some err => .error err
  | none =>
    if e.params.length < trampolineNames.length then
      .error (.badInitializer e.name e.owner (.tooFewParams e.params.length))
    else do
      let ts ← Entry.trampolines ctx e (trampolineNames.zip e.params)
      return ⟨e, ts⟩

/-! ## 3. The program -/

/-- Builds a typed view: the host constructor of a kind, over the memory, at an address. -/
def viewCase (k : BufferKind) : Int × Expr :=
  (k.code.toInt, .construct (.name k.name) (Expr.names ["buffer", "pointer", "length"]))

/-- Declares the builder of typed views. -/
def declareArrayBuilder (kinds : List BufferKind) : Stmt :=
  .declareFunction "arrayBuilder" ["pointer", "typeCode", "length"]
    [.choose (.name "typeCode") (kinds.map viewCase)]

/-- The entry as a property. -/
def property (ctx : Context) (i : Initializer) : Property where
  name := i.source.name
  params := i.source.params.map (·.name)
  body :=
    declareArrayBuilder ctx.kinds ::
    i.trampolines.map (fun t => .declare t.binding (t.function ctx)) ++
    [.declare "ctr" (constructorSlot ctx.protocol),
     .assign (instanceSlot ctx.protocol)
       (.construct (.name "ctr") (Expr.names ("arrayBuilder" :: trampolineNames)))]

end Initializer

end HostGlue.Entry
