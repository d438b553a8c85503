import WasmBuild.Config

/-! Who is called to build the artifact. -/

namespace WasmBuild

structure Backend where
  name : String
  command : Config → Command

namespace Backend

def coverageDirKey : String := "WASMCOV_DIR"

def buildArgs (cfg : Config) : List String := ["build", "--target", cfg.target, "--release"]

/-- The variables of the flags file, except that the target directory is the one where
the artifact is looked for. -/
def baseEnv (cfg : Config) : List Binding :=
  cfg.extraEnv.filter (·.1 != Config.targetDirKey) ++ [(Config.targetDirKey, cfg.targetRoot.text)]

def cargo : Backend where
  name := "cargo"
  command cfg := ⟨cfg.cargo, buildArgs cfg, cfg.projectDir, baseEnv cfg⟩

/-- The coverage wrapper, which keeps all its output under its own directory. -/
def wasmcov : Backend where
  name := "wasmcov"
  command cfg :=
    ⟨cfg.cargo, "wasmcov" :: buildArgs cfg, cfg.projectDir,
      baseEnv cfg ++ [(coverageDirKey, cfg.coverageDir.text)]⟩

def ofMode : Mode → Backend
  | .standard => cargo
  | .coverage => wasmcov

end Backend

end WasmBuild
