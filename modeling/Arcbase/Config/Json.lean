import Arcbase.Config
import Arcbase.Error
import Arcbase.Json.Printer
import Arcbase.Json.Reader
set_option autoImplicit false

/-!
# Configurations as JSON

Every member may be missing, for every setting has a default.
-/

namespace Arcbase.Config

open Json (Reader)

def toJson (c : Config) : Json :=
  .record
    [("name", .text c.name),
     ("default_timeout_ms", .ofNat c.defaultTimeout),
     ("recursion_limit", .ofNat c.recursionLimit),
     ("max_identifier_len", .ofNat c.maxIdentifierLength),
     ("max_relationships", .ofNat c.maxRelationships),
     ("max_vertex_types", .ofNat c.maxVertexTypes)]

/-- Settings other than the name and the nesting limit are 64-bit numbers. -/
def read : Reader Config :=
  let number : Reader Nat := Reader.natural UInt64.size
  Reader.record
    ["name", "default_timeout_ms", "recursion_limit", "max_identifier_len", "max_relationships",
      "max_vertex_types"]
    fun depth m => do
      let d : Config := {}
      return {
        name := ← m.withDefault "name" d.name Reader.text depth
        defaultTimeout := ← m.withDefault "default_timeout_ms" d.defaultTimeout number depth
        recursionLimit :=
          ← m.withDefault "recursion_limit" d.recursionLimit (Reader.natural 256) depth
        maxIdentifierLength :=
          ← m.withDefault "max_identifier_len" d.maxIdentifierLength number depth
        maxRelationships := ← m.withDefault "max_relationships" d.maxRelationships number depth
        maxVertexTypes := ← m.withDefault "max_vertex_types" d.maxVertexTypes number depth }

/-- The configuration that a text stands for. -/
def parse (text : String) : Except Error Config :=
  match (Json.parse? text).bind (read Json.nestingLimit) with
  | some c => .ok c
  | none => .error (.data .malformed)

end Arcbase.Config
