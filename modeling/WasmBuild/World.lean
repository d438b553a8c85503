import WasmBuild.Command
import WasmBuild.FileSystem.Disk
import WasmBuild.Log.Record

/-! What a build acts upon: the disk, and the trace of what has happened in order. The
external tools are given by what they do, which may be any change of the files followed
by any way to end. -/

namespace WasmBuild

inductive Ending where
  | exited (status : UInt8)
  | killed
deriving DecidableEq

inductive Channel where
  | output
  | errors
deriving DecidableEq

/-- A tool as it was started. -/
structure Call where
  /-- The name by which the tool is known. -/
  tool : String
  args : List String
  cwd : Location
  /-- The variables it takes note of. -/
  seen : List (String × Option ByteArray)
deriving DecidableEq

/-- What a tool has printed, in order. -/
abbrev Printed := List (Channel × ByteArray)

/-- What is left when a tool has run. -/
structure Outcome where
  call : Call
  tree : FileSystem
  printed : Printed
  ending : Ending

/-- What comes of a command on a disk, after the commands that were tried before it: a
tool need not do the same thing twice. An error means that nothing was started. -/
abbrev Tools := List Command → Disk → Command → Except IoError Outcome

inductive Event where
  | log (record : Log.Record)
  /-- A command that is tried. -/
  | launch (command : Command)
  /-- A tool that has run, and what it has printed. -/
  | ran (call : Call) (printed : Printed)
  /-- What the program itself says. -/
  | print (channel : Channel) (text : String)
deriving DecidableEq

/-- What of an event is printed on a channel. -/
def Event.onChannel (channel : Channel) : Event → ByteArray
  | .ran _ printed => Bytes.concat ((printed.filter (·.1 = channel)).map (·.2))
  | .print c text => if c = channel then text.toUTF8 else ⟨#[]⟩
  | .log _ | .launch _ => ⟨#[]⟩

structure World where
  disk : Disk
  trace : List Event

/-- All that is printed on a channel. -/
def World.onChannel (w : World) (channel : Channel) : ByteArray :=
  Bytes.concat (w.trace.map (Event.onChannel channel))

/-- The commands that were tried, in order. -/
def World.launches (w : World) : List Command :=
  w.trace.filterMap fun
    | .launch command => some command
    | _ => none

/-- A part of a run, which may fail and leave the world changed all the same. -/
abbrev Run (ε α : Type) := ExceptT ε (StateM World) α

namespace Run

variable {ε α : Type}

def emit (events : List Event) : Run ε Unit :=
  modify fun w => { w with trace := w.trace ++ events }

def log (level : Log.Level) (target message : String) : Run ε Unit :=
  emit [.log ⟨level, target, message⟩]

def print (channel : Channel) (text : String) : Run ε Unit := emit [.print channel text]

/-- Asks the disk, and changes nothing. -/
def ask (question : Disk → Except ε α) : Run ε α := do
  match question (← get).disk with
  | .ok a => return a
  | .error e => throw e

/-- Changes the disk. -/
def act (change : Disk → Except ε α × Disk) : Run ε α := do
  let (result, disk) := change (← get).disk
  modify fun w => { w with disk }
  match result with
  | .ok a => return a
  | .error e => throw e

end Run

end WasmBuild
