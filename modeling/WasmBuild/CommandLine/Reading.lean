import WasmBuild.CommandLine.Token
import WasmBuild.CommandLine.Request

/-! The reading of a command line, token by token. A value that stands apart from its
option, or a token without an option, is settled only when the next option, the next
token of another role or the end is reached. So of two faults the one that is seen
first in this sense is reported. -/

namespace WasmBuild.CommandLine

/-- Why a command line is not run: it is at fault, or it asks for help or the version. -/
inductive Usage where
  | unknownArgument
  | invalidValue
  | tooManyValues
  | argumentConflict
  | invalidText
  | help
  | version
deriving DecidableEq

def Usage.exitCode : Usage → Nat
  | .help | .version => 0
  | _ => 2

def versionText : String := "resbuild 0.1.0\n"

/-- What has been read and not yet settled. -/
inductive Pending where
  | nothing
  /-- An option, and its value when it has come. -/
  | setting (s : Setting) (value : Option Token)
  | coverage (token : Token)
  | ignored (tokens : List Token)
deriving DecidableEq

structure Reading where
  request : Request
  pending : Pending
  /-- Whether the coverage token has come. -/
  covered : Bool

namespace Reading

def start : Reading := ⟨.empty, .nothing, false⟩

def text (t : Token) : Except Usage String :=
  match t.text? with
  | some s => .ok s
  | none => .error .invalidText

/-- Gives an option its value; no option takes two. -/
def assign (r : Request) (s : Setting) (value : Token) : Except Usage Request :=
  if (r.value s).isSome then .error .argumentConflict
  else match text value with
  | .ok v => .ok { r with value := fun s' => if s' = s then some v else r.value s' }
  | .error e => .error e

/-- Turns a switch on. The two that contradict each other undo each other, and only the
verbosity can be raised twice. -/
def turnOn (r : Request) : Switch → Except Usage Request
  | .optimize =>
    if r.optimize then .error .argumentConflict
    else .ok { r with optimize := true, noOptimize := false }
  | .noOptimize =>
    if r.noOptimize then .error .argumentConflict
    else .ok { r with optimize := false, noOptimize := true }
  | .dryRun => if r.dryRun then .error .argumentConflict else .ok { r with dryRun := true }
  | .verbose => .ok { r with verbose := min (r.verbose + 1) 255 }
  | .help => .error .help
  | .version => .error .version

def settledRequest (r : Request) : Pending → Except Usage Request
  | .nothing => .ok r
  | .setting _ none => .error .invalidValue
  | .setting s (some value) => assign r s value
  | .coverage token => (text token).map fun t => { r with coverage := some t }
  | .ignored tokens => (tokens.mapM text).map fun ts => { r with ignored := r.ignored ++ ts }

def settle (r : Reading) : Except Usage Reading :=
  (settledRequest r.request r.pending).map fun request => ⟨request, .nothing, r.covered⟩

/-- Settles, and then changes the request. -/
def advance (r : Reading) (f : Request → Except Usage Request) : Except Usage Reading := do
  let r ← r.settle
  return { r with request := ← f r.request }

/-- Takes a token that belongs to no option. -/
def take (r : Reading) (t : Token) : Except Usage Reading :=
  if r.covered then
    match r.pending with
    | .ignored tokens => .ok { r with pending := .ignored (tokens ++ [t]) }
    | _ => r.settle.map fun r => { r with pending := .ignored [t] }
  else r.settle.map fun r => { r with pending := .coverage t, covered := true }

/-- Takes a token as the value of the option that waits for one, if there is any. -/
def takeWord (r : Reading) (t : Token) : Except Usage Reading :=
  match r.pending with
  | .setting s none => .ok { r with pending := .setting s (some t) }
  | _ => r.take t

def takeLong (r : Reading) (name : Token) (value : Option Token) : Except Usage Reading :=
  match Setting.all.find? fun s => Token.ofString s.name = name with
  | some s =>
    match value with
    | some v => r.advance fun request => assign request s v
    | none => r.settle.map fun r => { r with pending := .setting s none }
  | none =>
    match Switch.all.find? fun s => Token.ofString s.name = name with
    | some s =>
      match value with
      | some _ => .error .tooManyValues
      | none => r.advance fun request => turnOn request s
    | none => .error .unknownArgument

def short? : Char → Option Switch
  | 'v' => some .verbose
  | 'h' => some .help
  | 'V' => some .version
  | _ => none

def takeCluster (r : Reading) : Token → Except Usage Reading
  | [] => .ok r
  | glyph :: rest =>
    match glyph.char?.bind short? with
    | some s =>
      match r.advance fun request => turnOn request s with
      | .ok r => r.takeCluster rest
      | .error e => .error e
    | none => .error .unknownArgument

/-- Takes tokens after the separator. -/
def takeRest (r : Reading) : List Token → Except Usage Reading
  | [] => .ok r
  | t :: rest =>
    match r.take t with
    | .ok r => r.takeRest rest
    | .error e => .error e

def takeOne (r : Reading) (t : Token) : Except Usage Reading :=
  match t.form with
  | .long name value => r.takeLong name value
  | .cluster shorts => if Token.isNumber shorts then r.takeWord t else r.takeCluster shorts
  | _ => r.takeWord t

def takeAll (r : Reading) : List Token → Except Usage Reading
  | [] => .ok r
  | t :: rest =>
    if t.form = .separator then r.takeRest rest
    else match r.takeOne t with
    | .ok r => r.takeAll rest
    | .error e => .error e

end Reading

/-- Understands the tokens after the name of the program. -/
def parse (tokens : List Token) : Except Usage Request := do
  let r ← Reading.start.takeAll tokens
  return (← r.settle).request

end WasmBuild.CommandLine
