import WasmBuild.Delivery
import WasmBuild.Launch
import WasmBuild.Plan

/-! A build: the build tool runs, the artifact that it leaves is delivered, and the
delivered artifact is optimized where that is asked for. A step that fails is the last. -/

namespace WasmBuild

/-- What is told of a build that has succeeded. -/
structure Report where
  mode : Mode
  artifact : Path
  bytes : Nat
  optimized : Bool
deriving DecidableEq

namespace Build

def logTarget : String := "resbuild::runner"

def copyLogTarget : String := "resbuild::util::fs"

def checkArtifact (source : Path) (d : Disk) : Except BuildError Path :=
  if d.isFile source then .ok source else .error (.artifactMissing source)

/-- Runs the build tool, and gives the artifact that it has made. -/
def compile (tools : Tools) (backend : Backend) (cfg : Config) : Run BuildError Path := do
  (backend.command cfg).run tools
  Run.ask (checkArtifact cfg.source)

/-- Delivers an artifact, and gives its size. -/
def deliver (src dst : Path) : Run BuildError Nat := do
  let delivery ← Run.act fun d => d.deliver src dst
  if !delivery.copied then
    Run.log .debug copyLogTarget (dst.text ++ " est déjà l'artefact, copie ignorée")
  return delivery.bytes

def measure (p : Path) (d : Disk) : Except BuildError Nat :=
  match d.size p with
  | .ok bytes => .ok bytes
  | .error e => .error (.io p e)

/-- Optimizes the delivered artifact, and gives its new size. -/
def optimize (tools : Tools) (cfg : Config) : Run BuildError Nat := do
  (cfg.optimize.command cfg.destination cfg.projectDir).run tools
  let bytes ← Run.ask (measure cfg.destination)
  Run.log .info logTarget ("optimisé → " ++ toString bytes ++ " octets")
  return bytes

def run (tools : Tools) (backend : Backend) (cfg : Config) : Run BuildError Report := do
  Run.log .info logTarget
    ("build " ++ cfg.artifact ++ " (" ++ backend.name ++ ") dans " ++ cfg.projectDir.text)
  let source ← compile tools backend cfg
  Run.log .debug logTarget ("artefact produit: " ++ source.text)
  let bytes ← deliver source cfg.destination
  Run.log .info logTarget
    ("copié → " ++ cfg.destination.text ++ " (" ++ toString bytes ++ " octets)")
  if cfg.optimize.enabled then
    return ⟨cfg.mode, cfg.destination, ← optimize tools cfg, true⟩
  else
    return ⟨cfg.mode, cfg.destination, bytes, false⟩

end Build

end WasmBuild
