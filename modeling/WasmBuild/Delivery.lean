import WasmBuild.BuildError
import WasmBuild.FileSystem.Disk

/-! The delivery of an artifact: its content is copied, and the directory for it is made
when it is missing. Nothing is copied onto itself, since that would empty the artifact. -/

namespace WasmBuild

structure Delivery where
  bytes : Nat
  /-- Whether there was something to copy. -/
  copied : Bool
deriving DecidableEq

namespace Disk

def makeParent (d : Disk) (p : Path) : Except BuildError Unit × Disk :=
  match p.parent? with
  | none => (.ok (), d)
  | some dir =>
    match d.makeDirs dir with
    | (.ok (), left) => (.ok (), left)
    | (.error e, left) => (.error (.io dir e), left)

/-- Copies the artifact at `src` to `dst`, unless that is where it is. -/
def place (d : Disk) (src dst : Path) (size : Nat) : Except BuildError Delivery × Disk :=
  if d.same src dst then (.ok ⟨size, false⟩, d)
  else match d.copy src dst with
  | (.ok bytes, left) => (.ok ⟨bytes, true⟩, left)
  | (.error e, left) => (.error (.io dst e), left)

def deliver (d : Disk) (src dst : Path) : Except BuildError Delivery × Disk :=
  match d.size src with
  | .error e => (.error (.io src e), d)
  | .ok size =>
    match d.makeParent dst with
    | (.error e, left) => (.error e, left)
    | (.ok (), left) => left.place src dst size

end Disk

end WasmBuild
