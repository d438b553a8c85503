import WasmBuild.CommandLine.Reading
import WasmBuild.Execution
import WasmBuild.Log.Filter

/-! A whole invocation of the program, from the words of its command line and the variables
of its process to its status and what it has written. -/

namespace WasmBuild

structure Finished where
  status : Nat
  /-- What was said of the log filter at the start. -/
  complaints : List String
  filter : Log.Filter
  world : World

namespace Finished

def output (f : Finished) : ByteArray := f.world.onChannel .output

/-- What of an event is seen beside the output, log lines included. -/
def errorsOf (f : Finished) : Event → ByteArray
  | .log record => if f.filter.allows record then record.line.toUTF8 else ⟨#[]⟩
  | e => e.onChannel .errors

def errors (f : Finished) : ByteArray :=
  Bytes.concat (f.complaints.map String.toUTF8 ++ f.world.trace.map f.errorsOf)

end Finished

namespace Invocation

def logKey : String := "RESBUILD_LOG"

def defaultFilter (verbose : Nat) : String :=
  match verbose with
  | 0 => "warn"
  | 1 => "info"
  | _ => "debug"

/-- The filter of the log; that of the environment counts even when it is empty. -/
def filterFor (r : Request) (block : Environment.Block) : Log.Filter × List String :=
  Log.Filter.parse
    (((block.first? logKey.toUTF8).bind String.fromUTF8?).getD (defaultFilter r.verbose))

/-- The absolute path of the working directory, which must still be there and must be text. -/
def workingDir (d : Disk) : Except Failure Path :=
  if d.tree.node? d.cwd ≠ some .dir then
    .error ⟨["répertoire courant illisible"], .plain (IoError.os .noEntry).message⟩
  else match Location.path? d.cwd with
  | some cwd => .ok cwd
  | none =>
    .error ⟨[], .plain ("répertoire courant non UTF-8: " ++ Text.lossy (Location.bytes d.cwd))⟩

variable [Toml.Dialect]

/-- Carries a request out in the working directory. -/
def carryOut (tools : Tools) (r : Request) (env : Environment) (w : World) : Nat × World :=
  match workingDir w.disk with
  | .ok cwd => r.carryOut tools cwd env w
  | .error f => (f.exitCode, { w with trace := w.trace ++ f.events })

def run (tools : Tools) (args : List CommandLine.Token) (block : Environment.Block)
    (d : Disk) : Except CommandLine.Usage Finished := do
  let r ← CommandLine.parse args
  let (filter, complaints) := filterFor r block
  let (status, world) := carryOut tools r (Environment.ofProcess block) ⟨d, []⟩
  return ⟨status, complaints, filter, world⟩

end Invocation

end WasmBuild
