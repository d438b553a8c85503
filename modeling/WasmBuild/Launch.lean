import WasmBuild.BuildError
import WasmBuild.World

/-! The start of a command, and the wait for its end. -/

namespace WasmBuild

/-- Any end but that with status 0 is a failure, which the text of the command names. -/
def Ending.check (ending : Ending) (command : Command) : Except BuildError Unit :=
  match ending with
  | .exited status =>
    if status = 0 then .ok () else .error (.commandFailed command.text (some status.toNat))
  | .killed => .error (.commandFailed command.text none)

namespace Command

def logTarget : String := "resbuild::util::process"

def run (tools : Tools) (command : Command) : Run BuildError Unit := do
  Run.log .debug logTarget ("exec: " ++ command.text ++ " (cwd=" ++ command.cwd.text ++ ")")
  let before ← get
  Run.emit [.launch command]
  match tools before.launches before.disk command with
  | .error e => throw (.notStarted command.program e)
  | .ok outcome =>
    modify fun w => { w with disk := { w.disk with tree := outcome.tree } }
    Run.emit [.ran outcome.call outcome.printed]
    outcome.ending.check command

end Command

end WasmBuild
