import WasmBuild.BuildError
import WasmBuild.FileSystem.Disk
import WasmBuild.Flags.File

/-! The loading of a flags file. -/

namespace WasmBuild.Flags

def load (d : Disk) (p : Path) : Except BuildError (List Assignment) :=
  match d.readText p with
  | .error e => .error (.io p e)
  | .ok text =>
    match parse text with
    | .ok vars => .ok vars
    | .error fault => .error (.invalidFlags p fault.line fault.message)

end WasmBuild.Flags
