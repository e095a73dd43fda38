import HostGlue.Entry.Ordinary
import HostGlue.Entry.Initializer
import HostGlue.Log
import HostGlue.Writer

/-!
# Entries

An extern has one entry in the document: the initializer if it has the reserved name, an ordinary
one otherwise. This file fixes

* `Entry.of`, which accepts an extern in a context, and `Entry.ofKind`, which does so for a given
  kind of entry;
* `Entry.code`, what an entry is written as, and `Entry.record`, what is reported of it;
* `Entry.emission`, what emitting an entry on a writer leaves: the writer, the records and the error
  if there is one. All reasons against an extern are found before anything is written.
-/

namespace HostGlue

/-- An accepted extern. -/
inductive Entry (ctx : Context) where
  | ordinary (o : Entry.Ordinary ctx)
  | initializer (i : Entry.Initializer)

namespace Entry

/-- The two kinds of entries. -/
inductive Kind where
  | ordinary
  | initializer
  deriving DecidableEq

/-- The kind of entry that belongs to a name. -/
def kindOf (ctx : Context) (name : String) : Kind :=
  if ctx.isInitializer name then .initializer else .ordinary

/-- The entry of a kind that an extern has, or the first reason against it. -/
def ofKind (ctx : Context) (kind : Kind) (e : Extern) : Except GlueError (Entry ctx) :=
  match kind with
  | .ordinary => (Ordinary.of ctx e).map .ordinary
  | .initializer => (Initializer.of ctx e).map .initializer

/-- The entry of an extern, or the first reason against it. -/
def of (ctx : Context) (e : Extern) : Except GlueError (Entry ctx) :=
  ofKind ctx (kindOf ctx e.name) e

/-- An entry as a property of the registered object. -/
def property {ctx : Context} : Entry ctx → Script.Property
  | .ordinary o => o.property
  | .initializer i => i.property ctx

/-- An entry as it is written. -/
def code {ctx : Context} (e : Entry ctx) : Code := e.property.code

/-- What is reported of an entry. -/
def record {ctx : Context} : Entry ctx → Log.Record
  | .ordinary o => .emittingOrdinary o.source.name o.source.params.length
  | .initializer i => .emittingInitializer i.source.name (i.trampolines.map (·.signature))

/-- What an emission leaves, whether or not it failed. -/
structure Emission where
  writer : Writer
  records : List Log.Record
  failure : Option GlueError
  deriving DecidableEq

/-- Emits the entry of a kind that an extern has: it is accepted, reported, and then written. -/
def emission (ctx : Context) (kind : Kind) (e : Extern) (w : Writer) : Emission :=
  match ofKind ctx kind e with
  | .error err => ⟨w, [], some err⟩
  | .ok entry =>
    let written := w.write entry.code
    ⟨written.1, [entry.record], written.2⟩

/-- The writer and the record of an emission that did not fail. -/
def emit (ctx : Context) (kind : Kind) (e : Extern) (w : Writer) :
    Except GlueError (Writer × Log.Record) :=
  let emitted := emission ctx kind e w
  match emitted.failure with
  | some err => .error err
  | none => (ofKind ctx kind e).map fun entry => (emitted.writer, entry.record)

end Entry

end HostGlue
