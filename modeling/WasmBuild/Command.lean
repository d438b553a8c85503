import WasmBuild.Path.Basic
import WasmBuild.Shell.Word

/-! The invocation of an external program, described before it is started. -/

namespace WasmBuild

abbrev Binding := String × String

structure Command where
  program : String
  args : List String
  cwd : Path
  /-- Variables added to the inherited environment; the last one of a name wins. -/
  env : List Binding
deriving DecidableEq, Inhabited

namespace Command

/-- The words of the shell command that has the same effect. -/
def words (c : Command) : List String :=
  c.env.map (fun (key, value) => key ++ "=" ++ Shell.quote value) ++
    Shell.quote c.program :: c.args.map Shell.quote

def text (c : Command) : String := " ".intercalate c.words

end Command

instance : ToString Command := ⟨Command.text⟩

end WasmBuild
