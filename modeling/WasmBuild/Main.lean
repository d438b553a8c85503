import WasmBuild.FileSystem.Edit
import WasmBuild.Invocation

/-! The program. It reads the files from which a configuration is settled and tells what
a build would do. It starts no process, so a build that is not a dry run ends where the
build tool would begin. -/

namespace WasmBuild.Program

/-- The options, for a user who asks or who got one wrong. -/
def helpText : String :=
  "Usage: resbuild [OPTIONS] [COVERAGE]\n\n" ++
  String.join (CommandLine.Setting.all.map fun s => "  --" ++ s.name ++ " <VALUE>\n") ++
  String.join (CommandLine.Switch.all.map fun s => "  --" ++ s.name ++ "\n")

/-- The variables that count, here and for the tools. -/
def keys : List String :=
  [Config.targetDirKey, Config.cargoKey, Config.coverageDirKey, Config.flagsFileKey,
    Invocation.logKey]

/-- The package descriptions by which the project is found. -/
def marks (r : Request) (cwd : Path) : List Path :=
  let dirs := match r.value .projectDir with
    | some p => [cwd.resolve ⟨p⟩]
    | none => cwd.ancestors
  dirs.map fun dir => dir.join ⟨Config.packageName⟩

/-- The files of a project that decide which others are read. -/
def manifests (r : Request) (cwd : Path) (d : Disk) : List Path :=
  match r.project cwd d, r.overrides.manifest with
  | .ok project, some p => [project.resolve p]
  | .ok project, none => [project.join ⟨Config.manifestName⟩]
  | .error _, _ => []

def flagsFiles (r : Request) (cwd : Path) (env : Environment) (d : Disk) : List Path :=
  match r.project cwd d with
  | .error _ => []
  | .ok project =>
    match Config.manifestFor d project r.overrides with
    | .error _ => []
    | .ok m => (Config.flagsPath? project r.overrides env m).toList

/-- Puts the files that can be read on a disk. -/
def readAll (d : Disk) (paths : List Path) : IO Disk :=
  paths.foldlM (fun d p => do
    try
      let content ← IO.FS.readBinFile p.text
      return { d with tree := d.tree.edit d.cwd (.write p.text.toUTF8 content) }
    catch _ => return d) d

/-- The disk as far as a request has to know it. -/
def survey (r : Request) (cwd : Path) (env : Environment) : IO Disk := do
  let tree := FileSystem.empty.edit [] (.makeDirs cwd.text.toUTF8)
  let d ← readAll ⟨tree, Location.ofPath cwd⟩ (marks r cwd)
  let d ← readAll d (manifests r cwd d)
  readAll d (flagsFiles r cwd env d)

/-- No tool can be started from here. -/
def noTools : Tools := fun _ _ _ => .error (.os ⟨38⟩)

def start (args : List String) : IO UInt32 := do
  let tokens := args.map CommandLine.Token.ofString
  let vars ← keys.filterMapM fun key => do
    return (← IO.getEnv key).map fun value => (key.toUTF8, value.toUTF8)
  let block := Environment.Block.ofBindings vars
  let cwd : Path := (⟨(← IO.getEnv "PWD").getD "/"⟩ : Path).normalize
  match CommandLine.parse tokens with
  | .error .version => IO.print CommandLine.versionText; return 0
  | .error .help => IO.print helpText; return 0
  | .error u => IO.eprint helpText; return u.exitCode.toUInt32
  | .ok r =>
    let d ← survey r cwd (Environment.ofProcess block)
    match Invocation.run noTools tokens block d with
    | .error u => return u.exitCode.toUInt32
    | .ok finished =>
      (← IO.getStdout).write finished.output
      (← IO.getStderr).write finished.errors
      return finished.status.toUInt32

end WasmBuild.Program

def main (args : List String) : IO UInt32 := WasmBuild.Program.start args
