import WasmBuild.Overrides

/-! What is asked of the program, once its command line is understood. -/

namespace WasmBuild

namespace CommandLine

/-- The options that take a value. -/
inductive Setting where
  | projectDir
  | manifest
  | flagsFile
  | artifact
  | target
  | coverageDir
deriving DecidableEq

def Setting.all : List Setting :=
  [projectDir, manifest, flagsFile, artifact, target, coverageDir]

def Setting.name : Setting → String
  | projectDir => "project-dir"
  | manifest => "manifest"
  | flagsFile => "flags-file"
  | artifact => "artifact"
  | target => "target"
  | coverageDir => "coverage-dir"

/-- The options without a value. -/
inductive Switch where
  | optimize
  | noOptimize
  | dryRun
  | verbose
  | help
  | version
deriving DecidableEq

def Switch.all : List Switch := [optimize, noOptimize, dryRun, verbose, help, version]

def Switch.name : Switch → String
  | optimize => "optimize"
  | noOptimize => "no-optimize"
  | dryRun => "dry-run"
  | verbose => "verbose"
  | help => "help"
  | version => "version"

end CommandLine

structure Request where
  /-- The token that may ask for coverage. -/
  coverage : Option String
  /-- Tokens after it, which have no effect. -/
  ignored : List String
  value : CommandLine.Setting → Option String
  optimize : Bool
  noOptimize : Bool
  dryRun : Bool
  verbose : Nat

namespace Request

def empty : Request := ⟨none, [], fun _ => none, false, false, false, 0⟩

def mode (r : Request) : Mode := Mode.ofToken r.coverage

def overrides (r : Request) : Overrides where
  mode := r.mode
  manifest := (r.value .manifest).map Path.mk
  flagsFile := (r.value .flagsFile).map Path.mk
  artifact := r.value .artifact
  target := r.value .target
  cargo := none
  coverageDir := (r.value .coverageDir).map Path.mk
  optimize := if r.optimize then some true else if r.noOptimize then some false else none

end Request

end WasmBuild
