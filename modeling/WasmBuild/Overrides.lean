import WasmBuild.Mode
import WasmBuild.Path.Basic

/-! What a caller decides for a configuration, above every other source. -/

namespace WasmBuild

structure Overrides where
  mode : Mode
  manifest : Option Path
  flagsFile : Option Path
  artifact : Option String
  target : Option String
  cargo : Option String
  coverageDir : Option Path
  optimize : Option Bool
deriving DecidableEq

end WasmBuild
