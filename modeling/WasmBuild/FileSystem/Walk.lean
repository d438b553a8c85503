import WasmBuild.FileSystem.Basic
import WasmBuild.Errno
import WasmBuild.Path.Basic

/-! How a path leads through a file system, step by step, as the operating system walks
it: every step is taken from a directory, a symbolic link is followed where it stands,
and at most forty links are followed on the way. -/

namespace WasmBuild

inductive Step where
  | here
  | up
  | enter (name : Name)
  /-- A piece that is too long for a name. -/
  | tooLong
  | slash
deriving DecidableEq

/-- A path as a walk sees it. Without a step and without a root it is the empty path. -/
structure Route where
  absolute : Bool
  steps : List Step
deriving DecidableEq

namespace Route

variable {α : Type} [DecidableEq α]

def step? (dot : α) (name? : List α → Option Name) (piece : List α) : Option Step :=
  if piece = [] then none
  else if piece = [dot] then some .here
  else if piece = [dot, dot] then some .up
  else some ((name? piece).elim .tooLong .enter)

/-- Reads a path written in letters of any kind. -/
def read (slash dot : α) (name? : List α → Option Name) (text : List α) : Route :=
  let steps := (text.splitOn slash).filterMap (step? dot name?)
  { absolute := text.head? = some slash
    steps := if text.getLast? = some slash ∧ steps ≠ [] then steps ++ [.slash] else steps }

def ofPath (p : Path) : Route :=
  read '/' '.' (fun cs => Name.ofBytes? (String.ofList cs).toUTF8) p.chars

def ofBytes (b : ByteArray) : Route :=
  read 0x2F 0x2E (fun bs => Name.ofBytes? ⟨bs.toArray⟩) b.data.toList

def names (r : Route) : List Name :=
  r.steps.filterMap fun
    | .enter name => some name
    | _ => none

end Route

/-- The place that an absolute path without dots names. -/
def Location.ofPath (p : Path) : Location := (Route.ofPath p).names.reverse

/-- The size in bytes of the absolute path of a place; that of the root counts as empty. -/
def Location.size : Location → Nat
  | [] => 0
  | name :: dir => Location.size dir + 1 + name.bytes.size

inductive Purpose where
  /-- To find what the path denotes. -/
  | find
  /-- To find it name by name, each time by the absolute path of the name. -/
  | trace
  /-- To claim the last name, a link of that name being an obstacle. -/
  | claim
  /-- To write a file, which is created when it is missing. -/
  | write
deriving DecidableEq

inductive Spot where
  | found (loc : Location)
  | vacant (dir : Location) (name : Name)
deriving DecidableEq

namespace FileSystem

def maxLinks : Nat := 40

def maxPath : Nat := 4095

/-- The size of the absolute path that stands for a step; what is to be a directory has a
slash at its end. -/
def askedSize (loc : Location) : Step → Nat
  | .enter name => Location.size (name :: loc)
  | _ => loc.size + 1

/-- A walk that hands every link that it has to follow to `onLink`, with the directory
of the link, its target and the steps after it. -/
def walkWith (fs : FileSystem) (purpose : Purpose)
    (onLink : Location → ByteArray → List Step → Except Errno Spot) :
    Location → List Step → Except Errno Spot
  | loc, [] => .ok (.found loc)
  | loc, step :: rest =>
    if purpose = .trace ∧ maxPath < askedSize loc step then .error .nameTooLong
    else if fs.node? loc ≠ some .dir then .error .notDirectory
    else match step with
    | .here | .slash => walkWith fs purpose onLink loc rest
    | .up => walkWith fs purpose onLink loc.tail rest
    | .tooLong =>
      .error (if purpose = .write ∧ rest = [.slash] then .isDirectory else .nameTooLong)
    | .enter name =>
      if purpose = .write ∧ rest = [.slash] then .error .isDirectory
      else match fs.node? (name :: loc) with
      | none => if rest = [] then .ok (.vacant loc name) else .error .noEntry
      | some (.link target) =>
        if purpose = .claim ∧ rest = [] then .ok (.found (name :: loc))
        else onLink loc target rest
      | some _ => walkWith fs purpose onLink (name :: loc) rest

def walk (fs : FileSystem) (purpose : Purpose) :
    Nat → Location → List Step → Except Errno Spot
  | 0 => fs.walkWith purpose fun _ _ _ => .error .tooManyLinks
  | links + 1 => fs.walkWith purpose fun loc target rest =>
    let route := Route.ofBytes target
    walk fs purpose links (if route.absolute then [] else loc) (route.steps ++ rest)

/-- The steps that count: a name may be claimed with a slash after it. -/
def stepsFor (purpose : Purpose) (steps : List Step) : List Step :=
  if purpose = .claim then steps.filter (· ≠ .slash) else steps

def reach (fs : FileSystem) (purpose : Purpose) (cwd : Location) (route : Route) :
    Except Errno Spot :=
  if route.absolute then fs.walk purpose maxLinks [] (stepsFor purpose route.steps)
  else if route.steps = [] then .error .noEntry
  else fs.walk purpose maxLinks cwd (stepsFor purpose route.steps)

end FileSystem

end WasmBuild
