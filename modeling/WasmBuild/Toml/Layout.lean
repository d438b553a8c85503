import WasmBuild.Toml.Value

/-! Tables while a document is read. How a table came to be decides what may still be
added to it: a header makes a table once, a dotted key goes only through tables that
dotted keys made, and what a value holds is closed. -/

namespace WasmBuild.Toml

inductive Origin where
  /-- Made by a header of its own. -/
  | header
  /-- Made by a header of something below it, and free for a header of its own. -/
  | implied
  /-- Made by a dotted key. -/
  | dotted
deriving DecidableEq

inductive Item where
  | value (v : Value)
  | table (origin : Origin) (entries : List (String × Item))
  /-- The tables of an array to which headers add. -/
  | tables (elements : List (List (String × Item)))

abbrev Entries := List (String × Item)

mutual

def Item.toValue : Item → Value
  | .value v => v
  | .table _ entries => .table (tableOf entries)
  | .tables elements => .array (tablesOf elements)

def tableOf : List (String × Item) → List (String × Value)
  | [] => []
  | (key, item) :: rest => (key, item.toValue) :: tableOf rest

def tablesOf : List (List (String × Item)) → List Value
  | [] => []
  | entries :: rest => .table (tableOf entries) :: tablesOf rest

end

namespace Entries

def replace (entries : Entries) (key : String) (item : Item) : Entries :=
  entries.map fun e => if e.1 = key then (key, item) else e

/-- Whether a dotted key may go through a table, or end in it. -/
def admits (origin : Origin) (ends : Bool) : Bool :=
  match origin with
  | .dotted => true
  | .implied => !ends
  | .header => false

/-- Changes the table at the end of a path, and makes the tables missing on the way. In an
array of tables the way leads through the last one. -/
def within (dotted : Bool) (change : Entries → Option Entries) :
    List String → Entries → Option Entries
  | [], entries => change entries
  | key :: path, entries =>
    match entries.lookup key with
    | none => do
      let inner ← within dotted change path []
      return entries ++ [(key, .table (if dotted then .dotted else .implied) inner)]
    | some (.value _) => none
    | some (.table origin inner) => do
      guard (!dotted || admits origin path.isEmpty)
      return replace entries key (.table origin (← within dotted change path inner))
    | some (.tables elements) => do
      guard (!dotted || !path.isEmpty)
      let inner ← within dotted change path (elements.getLast?.getD [])
      return replace entries key (.tables (elements.dropLast ++ [inner]))

def add (key : String) (value : Value) (entries : Entries) : Option Entries :=
  if (entries.lookup key).isSome then none else some (entries ++ [(key, .value value)])

abbrev Pair := List String × Value

def addPair (entries : Entries) (pair : Pair) : Option Entries := do
  within true (add (← pair.1.getLast?) pair.2) pair.1.dropLast entries

def addPairs (entries : Entries) (pairs : List Pair) : Option Entries :=
  pairs.foldlM addPair entries

def addTable (key : String) (pairs : List Pair) (entries : Entries) : Option Entries :=
  match entries.lookup key with
  | none => do return entries ++ [(key, .table .header (← addPairs [] pairs))]
  | some (.table .implied inner) => do
    return replace entries key (.table .header (← addPairs inner pairs))
  | some _ => none

def addElement (key : String) (pairs : List Pair) (entries : Entries) : Option Entries := do
  let made ← addPairs [] pairs
  match entries.lookup key with
  | none => return entries ++ [(key, .tables [made])]
  | some (.tables elements) => return replace entries key (.tables (elements ++ [made]))
  | some _ => none

end Entries

structure Section where
  path : List String
  isElement : Bool
  pairs : List Entries.Pair

def Entries.addSection (entries : Entries) (s : Section) : Option Entries := do
  let key ← s.path.getLast?
  let change := if s.isElement then addElement key s.pairs else addTable key s.pairs
  within false change s.path.dropLast entries

end WasmBuild.Toml
