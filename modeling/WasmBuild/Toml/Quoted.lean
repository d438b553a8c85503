import WasmBuild.Toml.Reader
import WasmBuild.Toml.Digit

/-! Strings of a TOML document, and its keys. A string stands between quotes, where
escapes are read, or between apostrophes, where nothing is; three of either let it run
over several lines. -/

namespace WasmBuild.Toml

open Reader

/-- A character given by its number, which must be that of one. -/
def numbered (digits : Nat) : Reader Char := do
  let n := numeral 16 (← exactly digits isHexDigit)
  guard (n < 0xD800 || (0xE000 ≤ n && n < 0x110000))
  return Char.ofNat n

def shortEscapes : List (Char × Char) :=
  [('b', '\x08'), ('t', '\t'), ('n', '\n'), ('f', '\x0c'), ('r', '\r'), ('"', '"'), ('\\', '\\')]

def escape : Reader (List Char) := do
  char '\\'
  let c ← oneOf fun _ => true
  match c with
  | 'u' => return [← numbered 4]
  | 'U' => return [← numbered 8]
  | c => return [← (shortEscapes.lookup c : Option Char)]

def isPlainIn (quote : Char) (c : Char) : Bool :=
  isShown c && c != quote && !(quote == '"' && c == '\\')

def piece (quote : Char) : Reader (List Char) :=
  run1 (isPlainIn quote) <|> (guard (quote == '"') *> escape)

def singleLine (quote : Char) : Reader (List Char) := do
  char quote
  let pieces ← many (piece quote)
  char quote
  return pieces.flatten

/-- A backslash at the end of a line takes the blanks after it away. -/
def continuation : Reader (List Char) := do
  char '\\'
  spaces
  newline
  let _ ← many (discard (run1 isSpace) <|> newline)
  return []

/-- One or two quotes that end nothing. -/
def loneQuotes (quote : Char) : Reader (List Char) := do
  let quotes ← run1 (· == quote)
  guard (quotes.length < 3)
  return quotes

/-- The three quotes at the end, before which two more may stand. -/
def closing (quote : Char) : Reader (List Char) := fun cs =>
  let quotes := (cs.takeWhile (· == quote)).take 5
  if 3 ≤ quotes.length then some (quotes.drop 3, cs.drop quotes.length) else none

def multiLine (quote : Char) : Reader (List Char) := do
  word (String.ofList [quote, quote, quote])
  let _ ← maybe newline
  let pieces ← many (run1 (isPlainIn quote) <|> (newline *> pure ['\n']) <|> loneQuotes quote <|>
    (guard (quote == '"') *> (continuation <|> escape)))
  return pieces.flatten ++ (← closing quote)

def quoted (quote : Char) : Reader String :=
  String.ofList <$> (multiLine quote <|> singleLine quote)

def string : Reader String := quoted '"' <|> quoted '\''

def isBare (c : Char) : Bool := c.isAlphanum || c = '_' || c = '-'

def simpleKey : Reader String :=
  String.ofList <$> (run1 isBare <|> singleLine '"' <|> singleLine '\'')

/-- The number of parts that a key must stay below. -/
def maxParts : Nat := 80

def key : Reader (List String) := do
  let parts ← separated '.' (spaces *> simpleKey <* spaces)
  guard (parts.length < maxParts)
  return parts

end WasmBuild.Toml
