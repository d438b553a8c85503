import WasmBuild.Config.Layers

/-! The directory of a project: the one that is asked for, or the nearest directory at or
above the working directory that holds a package description. -/

namespace WasmBuild.Project

def isMarked (d : Disk) (dir : Path) : Bool := d.isFile (dir.join ⟨Config.packageName⟩)

def choose (d : Disk) (explicit : Option Path) (cwd : Path) : Except BuildError Path :=
  match explicit with
  | some p => .ok (cwd.resolve p)
  | none =>
    match cwd.ancestors.find? (isMarked d) with
    | some dir => .ok dir
    | none => .error (.projectNotFound cwd)

/-- The path of what `p` denotes, absolute and free of links. -/
def canonical (d : Disk) (p : Path) : Except BuildError Path :=
  match d.trace p with
  | .error e => .error (.io p e)
  | .ok loc =>
    match Location.path? loc with
    | some path => .ok path
    | none => .error (.pathNotText (Location.bytes loc))

def find (d : Disk) (explicit : Option Path) (cwd : Path) : Except BuildError Path := do
  canonical d (← choose d explicit cwd)

end WasmBuild.Project
