import WasmBuild.Command

/-! The optional step that makes the delivered artifact smaller, in its place. -/

namespace WasmBuild

structure Optimize where
  enabled : Bool
  tool : String
  args : List String
deriving DecidableEq

namespace Optimize

/-- Off unless it is asked for. -/
def standard : Optimize := ⟨false, "wasm-opt", ["-Oz"]⟩

instance : Inhabited Optimize := ⟨standard⟩

def command (o : Optimize) (artifact cwd : Path) : Command :=
  ⟨o.tool, o.args ++ [artifact.text, "-o", artifact.text], cwd, []⟩

end Optimize

end WasmBuild
