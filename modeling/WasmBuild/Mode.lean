/-! The two ways to build: directly, or instrumented for coverage. -/

namespace WasmBuild

inductive Mode where
  | standard
  | coverage
deriving DecidableEq, Inhabited

namespace Mode

/-- Only the literal word `true` asks for coverage. -/
def ofToken (token : Option String) : Mode := if token = some "true" then coverage else standard

def name : Mode → String
  | standard => "standard"
  | coverage => "coverage"

end Mode

end WasmBuild
