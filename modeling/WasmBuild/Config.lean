import WasmBuild.Mode
import WasmBuild.Optimize

/-! A resolved configuration, and where it puts the artifact. -/

namespace WasmBuild

structure Config where
  mode : Mode
  projectDir : Path
  targetDir : Path
  target : String
  artifact : String
  resDir : Path
  cargo : String
  coverageDir : Path
  flagsFile : Option Path
  /-- The variables of the flags file, exported to the build tool. -/
  extraEnv : List Binding
  optimize : Optimize
deriving DecidableEq, Inhabited

namespace Config

def targetDirKey : String := "CARGO_TARGET_DIR"

/-- The target directory of the build tool; in coverage mode it lies under the
coverage directory. -/
def targetRoot (cfg : Config) : Path :=
  match cfg.mode with
  | .standard => cfg.targetDir
  | .coverage => cfg.coverageDir.join ⟨"target"⟩

/-- Where the build tool leaves the artifact. -/
def source (cfg : Config) : Path :=
  ((cfg.targetRoot.join ⟨cfg.target⟩).join ⟨"release"⟩).join ⟨cfg.artifact⟩

def destination (cfg : Config) : Path := cfg.resDir.join ⟨cfg.artifact⟩

end Config

end WasmBuild
