import WasmBuild.Text.Printable
import WasmBuild.Text.Extending

/-! Texts shown one after the other in a list, between double quotes, so that each can
be told from what surrounds it: what would not be seen as it is stands escaped. -/

namespace WasmBuild.Text

def hexDigits (n : Nat) : List Char := Nat.toDigits 16 n

def escape (c : Char) : List Char :=
  match c with
  | '\x00' => ['\\', '0']
  | '\t' => ['\\', 't']
  | '\r' => ['\\', 'r']
  | '\n' => ['\\', 'n']
  | '\\' => ['\\', '\\']
  | '"' => ['\\', '"']
  | c =>
    if isExtending c || !isPrintable c then ['\\', 'u', '\x7b'] ++ hexDigits c.toNat ++ ['\x7d']
    else [c]

def quoted (s : String) : String := String.ofList ('"' :: (s.toList.flatMap escape ++ ['"']))

def listed (items : List String) : String := "[" ++ ", ".intercalate (items.map quoted) ++ "]"

end WasmBuild.Text
