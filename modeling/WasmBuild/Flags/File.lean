import WasmBuild.Flags.Value

/-! Flags files: lines of the form `KEY=value`, which `export` may precede, among
blank lines and comments. The last assignment of a key wins, and takes its place. -/

namespace WasmBuild.Flags

inductive LineFault where
  | noAssignment (line : List Char)
  | badKey (key : List Char)
  | badValue (fault : ValueFault)
deriving DecidableEq

def LineFault.message : LineFault → String
  | .noAssignment line =>
    "affectation attendue (KEY=VALUE), trouvé `" ++ String.ofList line ++ "`"
  | .badKey key => "nom de variable invalide `" ++ String.ofList key ++ "`"
  | .badValue fault => fault.message

/-- The first line that is at fault, counted from one. -/
structure Fault where
  line : Nat
  fault : LineFault
deriving DecidableEq

def Fault.message (f : Fault) : String := f.fault.message

def isIdentifier : List Char → Bool
  | [] => false
  | c :: cs => (c == '_' || c.isAlpha) && cs.all fun d => d == '_' || d.isAlphanum

abbrev Assignment := String × String

/-- Drops the word `export` and the blanks after it. -/
def dropExport (line : List Char) : List Char :=
  match line with
  | 'e' :: 'x' :: 'p' :: 'o' :: 'r' :: 't' :: ' ' :: rest => Text.trimStart rest
  | _ => line

def readAssignment (line : List Char) : Except LineFault Assignment :=
  match line.dropWhile (· != '=') with
  | [] => .error (.noAssignment line)
  | _ :: value =>
    let key := line.takeWhile (· != '=')
    if !isIdentifier key then .error (.badKey key)
    else match readValue .bare value with
      | .error fault => .error (.badValue fault)
      | .ok value => .ok (String.ofList key, String.ofList value)

def readLine (line : List Char) : Except LineFault (Option Assignment) :=
  match Text.trim line with
  | [] | '#' :: _ => .ok none
  | content => (readAssignment (dropExport content)).map some

def assign (vars : List Assignment) (new : Assignment) : List Assignment :=
  vars.filter (·.1 != new.1) ++ [new]

/-- Reads lines of which the first has the number `line`, over variables already set. -/
def readLines (line : Nat) (vars : List Assignment) :
    List (List Char) → Except Fault (List Assignment)
  | [] => .ok vars
  | text :: rest =>
    match readLine text with
    | .error fault => .error ⟨line, fault⟩
    | .ok none => readLines (line + 1) vars rest
    | .ok (some new) => readLines (line + 1) (assign vars new) rest

def parse (text : String) : Except Fault (List Assignment) :=
  readLines 1 [] (text.toList.splitOn '\n')

def get? (vars : List Assignment) (key : String) : Option String := vars.lookup key

end WasmBuild.Flags
