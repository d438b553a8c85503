import WasmBuild.FileSystem.Walk
import WasmBuild.IoError

/-! A file system as a process sees it, which stands in one of its directories: reading,
making directories, writing and copying. An operation that can fail half way says what
it has left behind. -/

namespace WasmBuild

namespace Location

def bytes (loc : Location) : ByteArray :=
  if loc.isEmpty then "/".toUTF8
  else loc.reverse.foldl (fun path name => path ++ "/".toUTF8 ++ name.bytes) ⟨#[]⟩

/-- The absolute path of a place, when all the names on it are text. -/
def path? (loc : Location) : Option Path :=
  (loc.reverse.mapM fun name => String.fromUTF8? name.bytes).map fun names =>
    Path.ofPieces true (names.map String.toList)

end Location

structure Disk where
  tree : FileSystem
  cwd : Location
deriving Inhabited

namespace Disk

def walk (d : Disk) (purpose : Purpose) (route : Route) : Except IoError Spot :=
  match d.tree.reach purpose d.cwd route with
  | .ok spot => .ok spot
  | .error errno => .error (.os errno)

def settled : Except IoError Spot → Except IoError Location
  | .ok (.found loc) => .ok loc
  | .ok (.vacant _ _) => .error (.os .noEntry)
  | .error e => .error e

/-- Follows a path of any length. The system is not asked about one that holds a NUL. -/
def follow (d : Disk) (purpose : Purpose) (p : Path) : Except IoError Spot :=
  if p.chars.contains '\x00' then .error .nulInPath
  else d.walk purpose (Route.ofPath p)

/-- Follows a path that is handed to the system as a whole, and is refused when it is too
long. -/
def reach (d : Disk) (purpose : Purpose) (p : Path) : Except IoError Spot :=
  if FileSystem.maxPath < p.text.utf8ByteSize ∧ '\x00' ∉ p.chars then .error (.os .nameTooLong)
  else d.follow purpose p

/-- The place that a path denotes, free of links. -/
def locate (d : Disk) (p : Path) : Except IoError Location := settled (d.reach .find p)

/-- The place that a path of any length denotes, which is found name by name. No name on
the way may have too long a path. -/
def trace (d : Disk) (p : Path) : Except IoError Location := settled (d.follow .trace p)

/-- The place that a path in bytes denotes, none of which is a NUL. -/
def locateBytes (d : Disk) (p : ByteArray) : Except IoError Location :=
  if FileSystem.maxPath < p.size then .error (.os .nameTooLong)
  else settled (d.walk .find (Route.ofBytes p))

def node? (d : Disk) (p : Path) : Option Node :=
  match d.locate p with
  | .ok loc => d.tree.node? loc
  | .error _ => none

def isDir (d : Disk) (p : Path) : Bool := d.node? p = some .dir

def isFile (d : Disk) (p : Path) : Bool :=
  match d.node? p with
  | some (.file _) => true
  | _ => false

/-- What the system gives as the size of a directory. -/
def dirSize : Nat := 4096

def size (d : Disk) (p : Path) : Except IoError Nat :=
  match d.locate p with
  | .error e => .error e
  | .ok loc =>
    match d.tree.node? loc with
    | some (.file content) => .ok content.size
    | _ => .ok dirSize

def read (d : Disk) (p : Path) : Except IoError ByteArray :=
  match d.locate p with
  | .error e => .error e
  | .ok loc =>
    match d.tree.node? loc with
    | some (.file content) => .ok content
    | _ => .error (.os .isDirectory)

def readText (d : Disk) (p : Path) : Except IoError String :=
  match d.read p with
  | .error e => .error e
  | .ok content =>
    match String.fromUTF8? content with
    | some text => .ok text
    | none => .error .notText

def makeDir (d : Disk) (p : Path) : Except IoError Disk :=
  match d.reach .claim p with
  | .error e => .error e
  | .ok (.found _) => .error (.os .alreadyExists)
  | .ok (.vacant dir name) => .ok { d with tree := d.tree.put dir name .dir }

/-- Makes the first of the paths, and the later ones before it as far as they are
missing; they are its ancestors, the nearest first. -/
def makeAlong (d : Disk) : List Path → Except IoError Unit × Disk
  | [] => (.ok (), d)
  | p :: outer =>
    if p.text = "" then (.ok (), d)
    else match d.makeDir p with
    | .ok made => (.ok (), made)
    | .error e =>
      if e = .os .noEntry then
        match d.makeAlong outer with
        | (.error e, left) => (.error e, left)
        | (.ok (), left) =>
          match left.makeDir p with
          | .ok made => (.ok (), made)
          | .error e => (if left.isDir p then .ok () else .error e, left)
      else (if d.isDir p then .ok () else .error e, d)

def makeDirs (d : Disk) (p : Path) : Except IoError Unit × Disk := d.makeAlong p.ancestors

def setFile (d : Disk) (loc : Location) (content : ByteArray) : Disk :=
  match loc with
  | [] => d
  | name :: dir => { d with tree := d.tree.put dir name (.file content) }

/-- Opens a file for writing, which empties it or creates it. -/
def openEmpty (d : Disk) (p : Path) : Except IoError (Location × Disk) :=
  match d.reach .write p with
  | .error e => .error e
  | .ok (.vacant dir name) => .ok (name :: dir, d.setFile (name :: dir) ⟨#[]⟩)
  | .ok (.found loc) =>
    if d.tree.node? loc = some .dir then .error (.os .isDirectory)
    else .ok (loc, d.setFile loc ⟨#[]⟩)

/-- Copies the content of a file. The source is opened, then the destination is opened
for writing, and only then is the content read: a file that is copied onto itself is lost. -/
def copy (d : Disk) (src dst : Path) : Except IoError Nat × Disk :=
  match d.locate src with
  | .error e => (.error e, d)
  | .ok loc =>
    match d.tree.node? loc with
    | some (.file _) =>
      match d.openEmpty dst with
      | .error e => (.error e, d)
      | .ok (target, opened) =>
        match opened.tree.node? loc with
        | some (.file content) => (.ok content.size, opened.setFile target content)
        | _ => (.ok 0, opened)
    | _ => (.error .notRegularFile, d)

/-- Whether both paths denote one node, as far as their places can be told. -/
def same (d : Disk) (a b : Path) : Bool :=
  match d.trace a, d.trace b with
  | .ok x, .ok y => x = y
  | _, _ => false

end Disk

end WasmBuild
