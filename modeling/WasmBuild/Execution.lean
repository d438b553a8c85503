import WasmBuild.Build
import WasmBuild.CommandLine.Request
import WasmBuild.Failure
import WasmBuild.Project
import WasmBuild.Text.Listed

/-! The execution of a request. The working directory only serves to find the project. -/

namespace WasmBuild

namespace Run

def within {ε δ α : Type} (around : ε → δ) (run : Run ε α) : Run δ α := ExceptT.adapt around run

end Run

variable [Toml.Dialect]

def Config.logTarget : String := "resbuild::config"

/-- Settles a configuration, and logs which flags file is read. -/
def Config.configure (project : Path) (o : Overrides) (env : Environment) :
    Run BuildError Config := do
  let manifest ← Run.ask fun d => manifestFor d project o
  if let some p := flagsPath? project o env manifest then
    Run.log .debug logTarget ("flags partagés: " ++ p.text)
  Run.ask fun d => settle d project o env manifest

namespace Request

def logTarget : String := "resbuild_cli"

def success (report : Report) : String :=
  "✅ " ++ report.artifact.text ++ " (" ++ toString report.bytes ++ " octets" ++
    (if report.optimized then ", optimisé" else "") ++ ")\n"

def project (r : Request) (cwd : Path) (d : Disk) : Except BuildError Path :=
  Project.find d ((r.value .projectDir).map Path.mk) cwd

def execute (tools : Tools) (r : Request) (cwd : Path) (env : Environment) : Run Failure Unit := do
  if !r.ignored.isEmpty then
    Run.log .debug logTarget ("arguments ignorés: " ++ Text.listed r.ignored)
  let project ← Run.within Failure.ofError (Run.ask (r.project cwd))
  let cfg ← Run.within (fun e => (Failure.ofError e).within ("configuration de " ++ project.text))
    (Config.configure project r.overrides env)
  let backend := Backend.ofMode cfg.mode
  if r.dryRun then
    Run.print .output (Plan.ofConfig backend cfg).text
  else
    let report ← Run.within Failure.ofError (Build.run tools backend cfg)
    Run.print .errors (success report)

end Request

namespace Failure

/-- Tells the user of a failure, or leaves it to the log where a tool has told of it. -/
def events (f : Failure) : List Event :=
  match f.toolError? with
  | some e => [.log ⟨.debug, Request.logTarget, e.message⟩]
  | none => [.print .errors f.text]

end Failure

/-- Executes a request to its end, and gives the status for the calling shell. -/
def Request.carryOut (tools : Tools) (r : Request) (cwd : Path) (env : Environment)
    (w : World) : Nat × World :=
  match r.execute tools cwd env w with
  | (.ok (), w) => (0, w)
  | (.error f, w) => (f.exitCode, { w with trace := w.trace ++ f.events })

end WasmBuild
