import WasmBuild.Toolbox.Script

/-! A box of scripted tools. A tool lies at a place in the file system, or is found by its
bare name. -/

namespace WasmBuild

inductive Shelf where
  | byName
  | place (loc : Location)
deriving DecidableEq

structure Tool where
  name : String
  shelf : Shelf
  script : Script

/-- The tool that was put in last comes first, and hides others of its name. -/
structure Toolbox where
  contents : List Tool

namespace Toolbox

def empty : Toolbox := ⟨[]⟩

def Tool.content (name : String) : ByteArray := ("tool " ++ name ++ "\n").toUTF8

/-- Puts a tool into the box. One whose name has a slash gets a file, at the end of its
name taken as a path from `base`. -/
def add (box : Toolbox) (tree : FileSystem) (base : Location) (name : String)
    (script : Script) : Toolbox × FileSystem :=
  if name.toList.contains '/' then
    let tree := tree.edit base (.write name.toUTF8 (Tool.content name))
    match tree.reach .find base (Route.ofBytes name.toUTF8) with
    | .ok (.found loc) => (⟨⟨name, .place loc, script⟩ :: box.contents⟩, tree)
    | _ => (box, tree)
  else (⟨⟨name, .byName, script⟩ :: box.contents⟩, tree)

/-- The tool whose file a path denotes. Any other file cannot be executed. -/
def atPath (box : Toolbox) (d : Disk) (p : ByteArray) : Except IoError Tool :=
  match d.locateBytes p with
  | .error e => .error e
  | .ok loc =>
    match box.contents.find? (·.shelf = .place loc) with
    | some tool =>
      if d.tree.node? loc = some (.file (Tool.content tool.name)) then .ok tool
      else .error (.os .permissionDenied)
    | none => .error (.os .permissionDenied)

def byName (box : Toolbox) (name : String) : Except IoError Tool :=
  if name = "." ∨ name = ".." then .error (.os .permissionDenied)
  else if Name.maxSize < name.utf8ByteSize then .error (.os .nameTooLong)
  else match box.contents.find? fun tool => tool.shelf = .byName ∧ tool.name = name with
  | some tool => .ok tool
  | none => .error (.os .noEntry)

def searchKey : String := "PATH"

/-- The directories of a search path. One that is too long for a path counts as empty, and
does not count at the end. -/
def directories (path : ByteArray) : List ByteArray :=
  let dirs := path.data.toList.splitOn 0x3A
  let tooLong (dir : List UInt8) : Bool := FileSystem.maxPath < dir.length
  (if dirs.getLast?.any tooLong then dirs.dropLast else dirs).map fun dir =>
    if tooLong dir then ⟨#[]⟩ else ⟨dir.toArray⟩

/-- The path of a name in a directory of a search path; an empty one stands for the working
directory. Of a name that is too long there is only so much as shows it. -/
def candidate (dir name : ByteArray) : ByteArray :=
  (if dir.isEmpty then dir else dir ++ "/".toUTF8) ++ name.extract 0 (Name.maxSize + 1)

/-- Looks for a name in directories. Where it may not be executed or is not there, the next
directory is tried; the error is that of the last one, unless it could not be executed in
one before. -/
def along (box : Toolbox) (d : Disk) (name : ByteArray) (failure : IoError) :
    List ByteArray → Except IoError Tool
  | [] => .error failure
  | dir :: dirs =>
    match box.atPath d (candidate dir name) with
    | .ok tool => .ok tool
    | .error e =>
      if e = .os .permissionDenied ∨ e = .os .noEntry ∨ e = .os .notDirectory then
        box.along d name (if failure = .os .permissionDenied then failure else e) dirs
      else .error e

/-- Finds the tool of a command from the directory in which it is to run. A name with a
slash is a path. Other names are looked for along the search path of the command, or else
of the program; where neither has one, they are those of the box. -/
def find (box : Toolbox) (inherited : Environment.Block) (d : Disk) (c : Command) :
    Except IoError Tool :=
  if c.program.toList.contains '/' then box.atPath d c.program.toUTF8
  else if c.program = "" then .error (.os .noEntry)
  else match (c.env.reverse.lookup searchKey).map String.toUTF8 <|>
      inherited.first? searchKey.toUTF8 with
  | some path => box.along d c.program.toUTF8 (.os .noEntry) (directories path)
  | none => box.byName c.program

def hasNul (s : String) : Bool := s.toList.contains '\x00'

def enter (d : Disk) (dir : Path) : Except IoError Disk :=
  match d.locate dir with
  | .error e => .error e
  | .ok loc =>
    if d.tree.node? loc = some .dir then .ok { d with cwd := loc }
    else .error (.os .notDirectory)

def tools (box : Toolbox) (inherited : Environment.Block) : Tools := fun _ d c => do
  if hasNul c.program || c.args.any hasNul || hasNul c.cwd.text ||
      c.env.any (fun (key, value) => hasNul key || hasNul value) then
    throw .nulInCommand
  let inside ← enter d c.cwd
  let tool ← box.find inherited inside c
  let own := c.env.map fun (key, value) => (key.toUTF8, value.toUTF8)
  let env := Environment.Block.ofBindings (inherited.bindings ++ own)
  return tool.script.run tool.name ⟨inside.cwd, c.args, env⟩ d.tree

end Toolbox

end WasmBuild
