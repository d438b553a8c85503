import WasmBuild.FileSystem.Walk

/-! Changes to a file system that make the directories they need, and leave undone what
cannot be done. -/

namespace WasmBuild

inductive Edit where
  | write (path content : ByteArray)
  | makeDirs (path : ByteArray)
  | link (path target : ByteArray)
  | remove (path : ByteArray)
deriving DecidableEq

namespace FileSystem

/-- Makes the directories that are missing on a route. -/
def makeWay (fs : FileSystem) (cwd : Location) (route : Route) : FileSystem :=
  ((List.range (route.steps.length + 1)).map route.steps.take).foldl (fun fs steps =>
    match fs.reach .claim cwd { route with steps } with
    | .ok (.vacant dir name) => fs.put dir name .dir
    | _ => fs) fs

def outer (route : Route) : Route :=
  { route with steps := (route.steps.filter (· ≠ .slash)).dropLast }

def edit (fs : FileSystem) (cwd : Location) : Edit → FileSystem
  | .write path content =>
    let route := Route.ofBytes path
    let fs := fs.makeWay cwd (outer route)
    match fs.reach .write cwd route with
    | .ok (.vacant dir name) => fs.put dir name (.file content)
    | .ok (.found (name :: dir)) => fs.put dir name (.file content)
    | _ => fs
  | .makeDirs path => fs.makeWay cwd (Route.ofBytes path)
  | .link path target =>
    let route := Route.ofBytes path
    let fs := fs.makeWay cwd (outer route)
    match fs.reach .claim cwd route with
    | .ok (.vacant dir name) => fs.put dir name (.link target)
    | _ => fs
  | .remove path =>
    match fs.reach .claim cwd (Route.ofBytes path) with
    | .ok (.found loc) => fs.erase loc
    | _ => fs

end FileSystem

end WasmBuild
