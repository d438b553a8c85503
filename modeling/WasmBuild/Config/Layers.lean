import WasmBuild.Config
import WasmBuild.Environment
import WasmBuild.Flags.Load
import WasmBuild.Manifest
import WasmBuild.Overrides
import WasmBuild.Package
import WasmBuild.Path.Normal

/-! How a configuration is settled. From the weakest to the strongest, the layers are the
defaults, the manifest of the project, the environment, the flags file, whose variables
win over those of the environment, and the overrides of the caller. Relative paths are
taken from the project directory. -/

namespace WasmBuild.Config

def manifestName : String := "resbuild.toml"

def packageName : String := "Cargo.toml"

def flagsFileKey : String := "RESBUILD_FLAGS_FILE"

def coverageDirKey : String := "RESBUILD_COVERAGE_DIR"

def cargoKey : String := "CARGO"

def defaultTarget : String := "wasm32-unknown-unknown"

def defaultTargetDir : Path := ⟨"target"⟩

def defaultResDir : Path := ⟨"res"⟩

def defaultCoverageDir : Path := ⟨"../wasmcov"⟩

def defaultCargo : String := "cargo"

variable [Toml.Dialect]

/-- The manifest that is asked for, or the one at its usual place, which may be missing. -/
def manifestFor (d : Disk) (project : Path) (o : Overrides) : Except BuildError Manifest :=
  match o.manifest with
  | some p => Manifest.load d (project.resolve p)
  | none => Manifest.loadOrEmpty d (project.join ⟨manifestName⟩)

/-- The flags file, which the flags themselves cannot name. -/
def flagsPath? (project : Path) (o : Overrides) (env : Environment) (m : Manifest) :
    Option Path :=
  (o.flagsFile <|> (env.get? flagsFileKey).map Path.mk <|> m.flagsFile.map Path.mk).map
    project.resolve

def loadFlags (d : Disk) : Option Path → Except BuildError (List Binding)
  | some p => Flags.load d p
  | none => .ok []

def artifactFor (d : Disk) (project : Path) (o : Overrides) (m : Manifest) :
    Except BuildError String :=
  match o.artifact <|> m.artifact with
  | some artifact => .ok artifact
  | none => Package.loadArtifact d (project.join ⟨packageName⟩)

def targetDirFor (project : Path) (env : Environment) : Path :=
  project.resolve (((env.get? targetDirKey).map Path.mk).getD defaultTargetDir)

def coverageDirFor (project : Path) (o : Overrides) (env : Environment) (m : Manifest) : Path :=
  project.resolve ((o.coverageDir <|> (env.get? coverageDirKey).map Path.mk <|>
    m.coverageDir.map Path.mk).getD defaultCoverageDir)

def optimizeFor (o : Overrides) (m : Manifest) : Optimize :=
  let base := Optimize.ofSection m.optimize
  { base with enabled := o.optimize.getD base.enabled }

def settle (d : Disk) (project : Path) (o : Overrides) (env : Environment) (m : Manifest) :
    Except BuildError Config := do
  let flagsFile := flagsPath? project o env m
  let flags ← loadFlags d flagsFile
  let env := env.overlay flags
  let artifact ← artifactFor d project o m
  return {
    mode := o.mode
    projectDir := project
    targetDir := targetDirFor project env
    target := (o.target <|> m.target).getD defaultTarget
    artifact
    resDir := project.resolve ((m.resDir.map Path.mk).getD defaultResDir)
    cargo := (o.cargo <|> env.get? cargoKey).getD defaultCargo
    coverageDir := coverageDirFor project o env m
    flagsFile
    extraEnv := flags
    optimize := optimizeFor o m }

def resolve (d : Disk) (project : Path) (o : Overrides) (env : Environment) :
    Except BuildError Config := do
  settle d project o env (← manifestFor d project o)

end WasmBuild.Config
