import HostGlue.Ty

/-!
# Catalogs

A catalog lists the functions the native side declares (`Extern`) and the element kinds of typed
views over its memory (`BufferKind`). What a catalog text leaves out has a value here:

* an extern without an owner is owned by the catalog itself, has no parameters and no result;
* a parameter without a direction carries a value in;
* a catalog without buffer kinds has the eight standard views, numbered from 0.
-/

namespace HostGlue

/-- One declared function. The owner is its declaring type on the native side. -/
structure Extern where
  name : String
  owner : String
  params : List Param
  result : Ty
  deriving DecidableEq

/-- One typed view over linear memory: its code, and the host constructor it is built with. -/
structure BufferKind where
  code : Int32
  name : String
  deriving DecidableEq

/-- A whole catalog. -/
structure Catalog where
  externs : List Extern
  bufferKinds : List BufferKind
  deriving DecidableEq

namespace Extern

/-- The owner of an extern that names none. -/
def defaultOwner : String := "<catalog>"

/-- The result of an extern, or of a callback, that names none. -/
def defaultResult : Ty := .plain .void

/-- The leading parameter, where it is an address to store a status at. -/
def status? (e : Extern) : Option Param :=
  e.params.head?.filter fun p => p.direction == .output

/-- The parameters handed on to the runtime instance: those that carry a value in. -/
def forwarded (e : Extern) : List Param :=
  e.params.filter fun p => p.direction == .input

end Extern

namespace BufferKind

/-- The views a catalog has when it lists none. -/
def standard : List BufferKind :=
  [⟨0, "Int8Array"⟩, ⟨1, "Uint8Array"⟩, ⟨2, "Int16Array"⟩, ⟨3, "Uint16Array"⟩,
   ⟨4, "Int32Array"⟩, ⟨5, "Uint32Array"⟩, ⟨6, "Float32Array"⟩, ⟨7, "Float64Array"⟩]

end BufferKind

end HostGlue
