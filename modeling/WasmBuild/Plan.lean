import WasmBuild.Backend

/-! What a run would do, told without starting anything. -/

namespace WasmBuild

structure Plan where
  mode : Mode
  build : Command
  source : Path
  destination : Path
  optimize : Option Command
deriving DecidableEq

namespace Plan

def ofConfig (backend : Backend) (cfg : Config) : Plan where
  mode := cfg.mode
  build := backend.command cfg
  source := cfg.source
  destination := cfg.destination
  optimize :=
    if cfg.optimize.enabled then some (cfg.optimize.command cfg.destination cfg.projectDir)
    else none

def lines (plan : Plan) : List String :=
  ["mode:  " ++ plan.mode.name,
    "cwd:   " ++ plan.build.cwd.text,
    "build: " ++ plan.build.text,
    "copy:  " ++ plan.source.text ++ " -> " ++ plan.destination.text] ++
  match plan.optimize with
  | some command => ["opt:   " ++ command.text]
  | none => []

def text (plan : Plan) : String := String.join (plan.lines.map (· ++ "\n"))

end Plan

instance : ToString Plan := ⟨Plan.text⟩

end WasmBuild
