import WasmBuild.Log.Record
import WasmBuild.Text.Blank

/-! Which log lines are shown. A filter is a list of directives, each a level or a
target with a level; of the directives whose name begins the target of a line, the one
with the longest name decides. A text after a slash must occur in every shown line. -/

namespace WasmBuild.Log

structure Directive where
  /-- The beginning of the targets it speaks of; all targets without one. -/
  name : Option (List Char)
  /-- The highest rank that is shown, 0 for none at all. -/
  rank : Nat
deriving DecidableEq

structure Filter where
  /-- By length of name, the shortest first. -/
  directives : List Directive
  needle : Option (List Char)
deriving DecidableEq

namespace Filter

def levelRanks : List (String × Nat) :=
  [("OFF", 0), ("ERROR", 1), ("WARN", 2), ("INFO", 3), ("DEBUG", 4), ("TRACE", 5)]

def rank? (word : List Char) : Option Nat :=
  levelRanks.lookup (String.ofList (word.map Char.toUpper))

/-- A directive, or the part of the text that is none. -/
def readDirective (text : List Char) : Except (List Char) Directive :=
  match text.splitOn '=' with
  | [word] =>
    match rank? word with
    | some rank => .ok ⟨none, rank⟩
    | none => .ok ⟨some word, 5⟩
  | [name, level] =>
    match Text.trim level with
    | [] => .ok ⟨some name, 5⟩
    | level =>
      match rank? level with
      | some rank => .ok ⟨some name, rank⟩
      | none => .error level
  | _ => .error text

/-- A later directive takes the place of an earlier one of the same name. -/
def add (directives : List Directive) (new : Directive) : List Directive :=
  if directives.any (·.name == new.name) then
    directives.map fun d => if d.name == new.name then new else d
  else directives ++ [new]

def nameSize (d : Directive) : Nat := (d.name.getD []).foldl (fun n c => n + c.utf8Size) 0

/-- Sorts directives as a filter holds them; without any, errors alone are shown. -/
def ofDirectives (directives : List Directive) (needle : Option (List Char)) : Filter :=
  if directives.isEmpty then ⟨[⟨none, 1⟩], needle⟩
  else ⟨directives.mergeSort fun a b => nameSize a ≤ nameSize b, needle⟩

def complaint (text : List Char) (remark : String) : String :=
  "warning: invalid logging spec '" ++ String.ofList text ++ "'" ++ remark ++ ", ignoring it\n"

def parse (text : String) : Filter × List String :=
  match text.toList.splitOn '/' with
  | _ :: _ :: _ :: _ => (ofDirectives [] none, [complaint text.toList " (too many '/'s)"])
  | parts =>
    let words := (((parts.headD []).splitOn ',').map Text.trim).filter (!·.isEmpty)
    let read := words.map readDirective
    let complaints := read.filterMap fun r =>
      match r with
      | .ok _ => none
      | .error part => some (complaint part "")
    (ofDirectives ((read.filterMap (·.toOption)).foldl add []) parts.tail.head?, complaints)

def occursIn (needle : List Char) : List Char → Bool
  | [] => needle.isEmpty
  | c :: cs => needle.isPrefixOf (c :: cs) || occursIn needle cs

def rankFor (f : Filter) (target : String) : Nat :=
  match f.directives.reverse.find? fun d => (d.name.getD []).isPrefixOf target.toList with
  | some d => d.rank
  | none => 0

def allows (f : Filter) (r : Record) : Bool :=
  r.level.rank ≤ f.rankFor r.target && f.needle.all fun needle => occursIn needle r.message.toList

end Filter

end WasmBuild.Log
