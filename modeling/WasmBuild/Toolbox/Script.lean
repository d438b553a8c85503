import WasmBuild.Environment
import WasmBuild.FileSystem.Edit
import WasmBuild.World

/-! Tools that follow a script. A path in a script may begin with the name of a variable
of the tool's environment after a dollar sign, or with `$LAST` for its last argument. -/

namespace WasmBuild

inductive Action where
  | edit (edit : Edit)
  | print (channel : Channel) (text : ByteArray)

structure Script where
  record : List String
  actions : List Action
  ending : Ending

namespace Script

structure Scene where
  cwd : Location
  args : List String
  env : Environment.Block

/-- The value of a name after a dollar sign; a variable that is not set is empty. -/
def Scene.value (s : Scene) (name : List UInt8) : ByteArray :=
  if name = "LAST".toUTF8.data.toList then (s.args.getLast?.getD "").toUTF8
  else (s.env.last? ⟨name.toArray⟩).getD ⟨#[]⟩

/-- The path that a path in a script stands for. -/
def Scene.path (s : Scene) (path : ByteArray) : ByteArray :=
  let bytes := path.data.toList
  match bytes.takeWhile (· ≠ 0x2F) with
  | 0x24 :: name => s.value name ++ ⟨(bytes.dropWhile (· ≠ 0x2F)).toArray⟩
  | _ => path

def Scene.edit (s : Scene) : Edit → Edit
  | .write path content => .write (s.path path) content
  | .makeDirs path => .makeDirs (s.path path)
  | .link path target => .link (s.path path) target
  | .remove path => .remove (s.path path)

def Scene.act (s : Scene) (state : FileSystem × Printed) : Action → FileSystem × Printed
  | .edit e => (state.1.edit s.cwd (s.edit e), state.2)
  | .print channel text => (state.1, state.2 ++ [(channel, text)])

def run (script : Script) (tool : String) (s : Scene) (tree : FileSystem) : Outcome :=
  let (tree, printed) := script.actions.foldl s.act (tree, [])
  { call := ⟨tool, s.args, s.cwd, script.record.map fun name => (name, s.env.last? name.toUTF8)⟩
    tree
    printed
    ending := script.ending }

end Script

end WasmBuild
