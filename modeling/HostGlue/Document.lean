import HostGlue.Entry

/-!
# Documents

A document registers one object with the host: a property per extern, in the order of the catalog.
This file fixes

* `Document.emitAll`, which emits the entries of externs one after another on one writer, up to the
  first extern that is refused: a name that came before, or an extern without an entry;
* `Document.generate` and `Catalog.generate`, all of it: the text or the first error, with the
  records of what was done.
-/

namespace HostGlue

namespace Document

open Entry (Emission)

/-- The comment at the start of every document. -/
def banner : String :=
  "// This file was automatically generated by jsglue-codegen. Do not edit manually."

/-- What stands in front of the registered object. -/
def registration : String := "mergeInto(LibraryManager.library,"

/-- What stands behind the registered object. -/
def registrationEnd : String := ");"

/-- Emits the entries of externs in order, given the names that came before. A name that came before
    is refused whatever else is wrong, and nothing is emitted behind a refusal. -/
def emitAll (ctx : Context) (seen : List String) : List Extern → Writer → Emission
  | [], w => ⟨w, [], none⟩
  | e :: es, w =>
    if seen.contains e.name then ⟨w, [], some (.duplicateFunction e.name)⟩
    else
      let first := Entry.emission ctx (Entry.kindOf ctx e.name) e w
      match first.failure with
      | some err => ⟨first.writer, first.records, some err⟩
      | none =>
        let others := emitAll ctx (seen ++ [e.name]) es first.writer
        ⟨others.writer, first.records ++ others.records, others.failure⟩

/-- The document of a list of externs, or the first error, with the records of what was done. The
    registration is closed behind its entries even if one was refused. -/
def generate (ctx : Context) (externs : List Extern) :
    List Log.Record × Except GlueError String :=
  let opened := (Writer.empty.line banner).openBlock registration
  let inner := emitAll ctx [] externs opened
  let closed := inner.writer.leaveBlock registrationEnd inner.failure
  (.generating externs.length :: inner.records,
    match closed.2 with
    | some err => .error err
    | none => closed.1.finish)

end Document

/-- The document of a catalog under a protocol, or the first error, with the records of what was
    done. -/
def Catalog.generate (c : Catalog) (p : Protocol) : List Log.Record × Except GlueError String :=
  match Context.of p c.bufferKinds with
  | .error err => ([], .error err)
  | .ok ctx => Document.generate ctx c.externs

end HostGlue
