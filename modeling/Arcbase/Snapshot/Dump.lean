import Arcbase.Snapshot.Basic
set_option autoImplicit false

/-!
# Snapshots as plain text

One line for every arc, after a heading with the name and the numbers of vertices
and arcs; for reading and for comparing line by line.
-/

namespace Arcbase

namespace ArcSnapshot

/-- What a line says of an arc between its ends. -/
def details (a : ArcSnapshot) : List String :=
  [a.relationship, a.kind.mnemonic] ++ a.value.digits?.toList ++
    (if a.forwardOnly then ["fwd"] else [])

def line (a : ArcSnapshot) : String :=
  a.initial ++ " -[" ++ ", ".intercalate a.details ++ "]-> " ++ a.terminal ++ "\n"

end ArcSnapshot

namespace Snapshot

/-- The lines of a snapshot. -/
def dump (s : Snapshot) : String :=
  "# graph: " ++ s.name ++ "\n" ++
    "# vertices: " ++ toString s.vertices.length ++ "\n" ++
    "# arcs: " ++ toString s.arcs.length ++ "\n" ++
    String.join (s.arcs.map ArcSnapshot.line)

end Snapshot

end Arcbase
