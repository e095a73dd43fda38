import HostGlue.Context

/-!
# Ordinary entries

An ordinary entry forwards a call to the runtime instance. Its first parameter is the address of a
status; the others are handed on, texts decoded before. This file fixes

* `Ordinary.error?`, the first reason for which an extern cannot have an ordinary entry, and
  `Ordinary`, an extern that has none;
* `Ordinary.property`, the entry as a program: in a `try` region it decodes the texts, calls the
  instance, stores the kind of the answer as the status and returns the value; in the `catch`
  region it stores the code of a thrown call and returns the error as a text of the instance, or a
  code of its own if that throws as well.
-/

namespace HostGlue.Entry

open Script (Expr Stmt Property)

/-! ## 1. Acceptance -/

namespace Ordinary

/-- What is wrong with the status parameter, if anything: there has to be a leading one, of 32 bits,
    and no other parameter may store anything. -/
def statusFault? (e : Extern) : Option StatusFault :=
  match e.status? with
  | none => some .notLeading
  | some status =>
    if !status.ty.isIntegral32 then some (.notIntegral32 status.name status.ty)
    else
      (e.params.tail.find? fun p => p.direction == .output).map fun p => .furtherOutput p.name

/-- The first parameter type without a memory format. -/
def storageFault? : List Param → Option Untagged
  | [] => none
  | p :: ps =>
    match p.ty.storageTag with
    | .error u => some u
    | .ok _ => storageFault? ps

/-- The first reason for which an extern has no ordinary entry. -/
def error? (ctx : Context) (e : Extern) : Option GlueError :=
  match statusFault? e with
  | some fault => some (.malformedStatus e.name e.owner fault)
  | none =>
    match storageFault? e.params with
    | some u => some (.untagged e u)
    | none => bindingError? Ident.ordinaryLocals ctx e

end Ordinary

/-- An extern with an ordinary entry in a context. -/
structure Ordinary (ctx : Context) where
  source : Extern
  accepted : Ordinary.error? ctx source = none

namespace Ordinary

variable {ctx : Context}

/-- The ordinary entry of an extern, or the first reason against it. -/
def of (ctx : Context) (e : Extern) : Except GlueError (Ordinary ctx) :=
  match h : error? ctx e with
  | some err => .error err
  | none => .ok ⟨e, h⟩

/-! ## 2. The program -/

/-- The address of the status. An accepted extern has a first parameter. -/
def statusName (o : Ordinary ctx) : String :=
  (o.source.params.head?.map (·.name)).getD ""

/-- The memory format of the status. An accepted extern has a first parameter with one. -/
def statusTag (o : Ordinary ctx) : StorageTag :=
  (o.source.params.head?.bind (·.ty.storageTag.toOption)).getD .i32

/-- Stores a status. -/
def storeStatus (o : Ordinary ctx) (value : Expr) : Stmt :=
  .run (.call (.name "setValue") [.name o.statusName, value, .text o.statusTag.word])

/-- Decodes a text parameter in place. -/
def decodeParam (ctx : Context) (p : Param) : Stmt :=
  .assign (.name p.name) (.call (.ofPath ctx.protocol.stringDecoder) [.name p.name])

/-- The value of the answer. -/
def answerValue : Expr := .member (.name "ret") "value"

/-- Returns the answer: the address of a fresh copy if it is a text, its value otherwise. -/
def returnAnswer (result : Ty) : List Stmt :=
  if result.isString then
    [.declare "returnStr" answerValue,
     .declare "bufferSize"
       (.sum (.call (.name "lengthBytesUTF8") [.name "returnStr"]) (.number 1)),
     .declare "strBuffer" (.call (.name "_malloc") [.name "bufferSize"]),
     .run (.call (.name "stringToUTF8") (Expr.names ["returnStr", "strBuffer", "bufferSize"])),
     .give (.name "strBuffer")]
  else [.give answerValue]

/-- The call and what it needs. -/
def tryBody (o : Ordinary ctx) : List Stmt :=
  (o.source.params.filter (·.ty.isString)).map (decodeParam ctx) ++
    [.declare "context" (instanceSlot ctx.protocol),
     .declare "ret"
       (.call (.member (.name "context") o.source.name)
         (Expr.names (o.source.forwarded.map (·.name)))),
     o.storeStatus (.member (.name "ret") "type")] ++
    returnAnswer o.source.result

/-- What is done about an error of the call: its text is handed out through the instance. -/
def catchBody (o : Ordinary ctx) : List Stmt :=
  [o.storeStatus (.number CallStatus.threw.code),
   .attempt
     [.run (.call (.member (.name "console") "log") [.name "error"]),
      .declare "errString" (.call (.name "String") [.name "error"]),
      .declare "strRet"
        (.call (.member (instanceSlot ctx.protocol) "CreateString") [.name "errString"]),
      .give (.member (.name "strRet") "value")]
     "innerError"
     [.give (.number CallStatus.doubleFault.code)]]

/-- The entry as a property. -/
def property (o : Ordinary ctx) : Property where
  name := o.source.name
  params := o.source.params.map (·.name)
  body := [.attempt o.tryBody "error" o.catchBody]

end Ordinary

end HostGlue.Entry
