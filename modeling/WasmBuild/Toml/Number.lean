import WasmBuild.Toml.Reader
import WasmBuild.Toml.Digit
import WasmBuild.Toml.Value

/-! Numbers of a TOML document. An integer has 64 bits with its sign. A number with a
fraction or an exponent must not exceed the greatest that 64 bits hold; there is no such
bound below zero. -/

namespace WasmBuild.Toml

open Reader

/-- More digits, of which each may follow an underscore. -/
def moreDigits (isDigit : Char → Bool) : Reader (List Char)
  | [] => some ([], [])
  | '_' :: d :: rest =>
    if isDigit d then (moreDigits isDigit rest).map fun (ds, left) => (d :: ds, left) else none
  | c :: rest =>
    if isDigit c then (moreDigits isDigit rest).map fun (ds, left) => (c :: ds, left)
    else some ([], c :: rest)

def digits (isDigit : Char → Bool) : Reader (List Char) := do
  return (← oneOf isDigit) :: (← moreDigits isDigit)

def sign : Reader Bool := (char '-' *> pure true) <|> (char '+' *> pure false) <|> pure false

/-- Decimal digits without needless zeros in front. -/
def wholeDigits : Reader (List Char) := (char '0' *> pure ['0']) <|> digits Char.isDigit

def minInteger : Int := -9223372036854775808

def maxInteger : Int := 9223372036854775807

def integerOf (negative : Bool) (n : Nat) : Reader Value := do
  let n : Int := if negative then -n else n
  guard (minInteger ≤ n && n ≤ maxInteger)
  return .integer n

def based (mark : String) (base : Nat) (isDigit : Char → Bool) : Reader Value := do
  word mark
  integerOf false (numeral base (← digits isDigit))

def integer : Reader Value :=
  based "0x" 16 isHexDigit <|> based "0o" 8 isOctalDigit <|> based "0b" 2 isBinaryDigit <|> do
    let negative ← sign
    integerOf negative (numeral 10 (← wholeDigits))

def fraction : Reader (List Char) := char '.' *> digits Char.isDigit

def exponent : Reader Int := do
  let _ ← oneOf fun c => c = 'e' || c = 'E'
  let negative ← sign
  let n : Int := numeral 10 (← digits Char.isDigit)
  return if negative then -n else n

/-- Whether `m * 10 ^ e` is nearer to `2 ^ 1024` than to the greatest number of 64 bits, or
beyond. The number of digits decides unless the two are of about one size. -/
def isTooLarge (m : Nat) (e : Int) : Bool :=
  let size := (Nat.toDigits 10 m).length + e
  let bound := Nat.pow 2 1024 - Nat.pow 2 970
  m != 0 && (310 < size || (309 ≤ size &&
    (if 0 ≤ e then bound ≤ m * Nat.pow 10 e.toNat else bound * Nat.pow 10 (-e).toNat ≤ m)))

def measured : Reader Unit := do
  let negative ← sign
  let whole ← wholeDigits
  let part ← maybe fraction
  let power ← maybe exponent
  guard (part.isSome || power.isSome)
  let part := part.getD []
  guard (negative || !isTooLarge (numeral 10 (whole ++ part)) (power.getD 0 - part.length))

def special : Reader Unit := sign *> (word "inf" <|> word "nan")

def float : Reader Value := .float <$> taken (measured <|> special)

end WasmBuild.Toml
