import WasmBuild.FileSystem.Disk

/-! What differs between two file systems, place by place. Places are ordered by the bytes
of their paths, so that a name comes before what lies under it. -/

namespace WasmBuild

namespace Location

def precedes (a b : Location) : Bool := a.bytes.data.toList ≤ b.bytes.data.toList

end Location

namespace FileSystem

/-- The places below `top` whose nodes differ, with the nodes that are there at the end. -/
def changes (before after : FileSystem) (top : Location) : List (Location × Option Node) :=
  let places := (before.locations ++ after.locations).eraseDups.filter fun loc =>
    top.isSuffixOf loc && loc != top && before.node? loc != after.node? loc
  (places.mergeSort Location.precedes).map fun loc => (loc, after.node? loc)

end FileSystem

end WasmBuild
