import WasmBuild.Toml.Reader
import WasmBuild.Toml.Digit
import WasmBuild.Toml.Value

/-! Dates and times of a TOML document: a date, a time of day, or both, and then perhaps
the distance from universal time. -/

namespace WasmBuild.Toml

open Reader

def field (size low high : Nat) : Reader Nat := do
  let n := numeral 10 (← exactly size Char.isDigit)
  guard (low ≤ n && n ≤ high)
  return n

def isLeap (year : Nat) : Bool := year % 4 = 0 && (year % 100 != 0 || year % 400 = 0)

def daysIn (year month : Nat) : Nat :=
  if month = 2 then (if isLeap year then 29 else 28)
  else if [4, 6, 9, 11].contains month then 30
  else 31

def date : Reader Unit := do
  let year ← field 4 0 9999
  char '-'
  let month ← field 2 1 12
  char '-'
  discard (field 2 1 (daysIn year month))

/-- A time of day, in which a minute may have a leap second. -/
def time : Reader Unit := do
  let _ ← field 2 0 23
  char ':'
  let _ ← field 2 0 59
  char ':'
  let _ ← field 2 0 60
  discard (maybe (char '.' *> run1 Char.isDigit))

def offset : Reader Unit :=
  discard (oneOf fun c => c = 'Z' || c = 'z') <|> do
    let _ ← oneOf fun c => c = '+' || c = '-'
    let _ ← field 2 0 23
    char ':'
    discard (field 2 0 59)

def timeAfterDate : Reader Unit := do
  let _ ← oneOf fun c => c = 'T' || c = 't' || c = ' '
  time
  discard (maybe offset)

def moment : Reader Value := .moment <$> taken ((date *> discard (maybe timeAfterDate)) <|> time)

end WasmBuild.Toml
