import WasmBuild.Toml.Dialect
import WasmBuild.Toml.Layout
import WasmBuild.Toml.Moment
import WasmBuild.Toml.Number
import WasmBuild.Toml.Quoted

/-! The reading of a TOML document into a table. -/

namespace WasmBuild.Toml

open Reader

def boolean : Reader Value :=
  (word "true" *> pure (.boolean true)) <|> (word "false" *> pure (.boolean false))

def scalar : Reader Value := .string <$> string <|> boolean <|> moment <|> float <|> integer

/-- The number of arrays and inline tables that may stand inside one another. -/
def maxDepth : Nat := 79

def arrayOf (item : Reader Value) : Reader Value := do
  char '['
  let items ← maybe (separated ',' (gap *> item <* gap))
  if items.isSome then
    let _ ← maybe (char ',')
  gap
  char ']'
  return .array (items.getD [])

def pairOf (item : Reader Value) : Reader Entries.Pair := do
  let path ← key
  char '='
  spaces
  return (path, ← item)

def inlineTableOf (item : Reader Value) : Reader Value := do
  char '\x7b'
  let pairs ← maybe (separated ',' (pairOf item <* spaces))
  spaces
  char '\x7d'
  return .table (tableOf (← Entries.addPairs [] (pairs.getD [])))

/-- A value in which arrays and inline tables stand at most so deep. -/
def valueWithin : Nat → Reader Value
  | 0 => scalar
  | depth + 1 => scalar <|> arrayOf (valueWithin depth) <|> inlineTableOf (valueWithin depth)

def pair : Reader Entries.Pair := pairOf (valueWithin maxDepth)

/-- Lines that say nothing. -/
def silence : Reader Unit :=
  discard (many (discard (run1 isSpace) <|> newline <|> comment *> (newline <|> ended)))

def pairs : Reader (List Entries.Pair) := many (pair <* lineEnd <* silence)

def header : Reader Section := do
  let isElement ← (word "[[" *> pure true) <|> (char '[' *> pure false)
  let path ← key
  word (if isElement then "]]" else "]")
  lineEnd
  silence
  return ⟨path, isElement, ← pairs⟩

def document : Reader Entries := do
  let _ ← maybe (char '\uFEFF')
  silence
  let root ← Entries.addPairs [] (← pairs)
  let sections ← many header
  ended
  (sections.foldlM Entries.addSection root : Option Entries)

def parse (text : String) : Option Table :=
  (document text.toList).map fun (entries, _) => tableOf entries

/-- The dialect of the program, which says no more than that a text is wrong. -/
instance Dialect.standard : Dialect := ⟨parse, fun _ _ => "TOML parse error"⟩

end WasmBuild.Toml
