/-! Log lines, and how one is shown. -/

namespace WasmBuild.Log

/-- From the gravest to the most talkative. -/
inductive Level where
  | error
  | warn
  | info
  | debug
  | trace
deriving DecidableEq

def Level.rank : Level → Nat
  | .error => 1
  | .warn => 2
  | .info => 3
  | .debug => 4
  | .trace => 5

def Level.name : Level → String
  | .error => "ERROR"
  | .warn => "WARN"
  | .info => "INFO"
  | .debug => "DEBUG"
  | .trace => "TRACE"

structure Record where
  level : Level
  /-- The part of the program that speaks, which filters select by. -/
  target : String
  message : String
deriving DecidableEq

/-- The later lines of a message stand under its first one, indented. -/
def indent (message : List Char) : List Char :=
  message.flatMap fun c => if c = '\n' then ['\n', ' ', ' ', ' ', ' '] else [c]

/-- The line that a terminal shows, with the level padded to five characters. -/
def Record.line (r : Record) : String :=
  let padding := String.ofList (List.replicate (5 - r.level.name.length) ' ')
  "[" ++ r.level.name ++ padding ++ "] " ++ String.ofList (indent r.message.toList) ++ "\n"

end WasmBuild.Log
