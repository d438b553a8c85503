import WasmBuild.Text.Lossy

/-! The words of a command line. A word may hold bytes that are no text. After a hyphen
it is read as a cluster of short options, after two as a long option, which an equals
sign ties to its value. -/

namespace WasmBuild.CommandLine

open Text (Glyph)

abbrev Token := List Glyph

namespace Token

def ofString (s : String) : Token := s.toList.map .char

def ofBytes (b : ByteArray) : Token := Text.glyphs b

def text? (t : Token) : Option String := (t.mapM Glyph.char?).map String.ofList

inductive Form where
  /-- Two hyphens: no option follows. -/
  | separator
  | long (name : Token) (value : Option Token)
  | cluster (shorts : Token)
  | word
deriving DecidableEq

/-- Cuts a token at its first equals sign. -/
def cut (t : Token) : Token × Option Token :=
  (t.takeWhile (· != .char '='), (t.dropWhile (· != .char '=')).tail?)

def form (t : Token) : Form :=
  match t with
  | [.char '-', .char '-'] => .separator
  | .char '-' :: .char '-' :: rest => .long (cut rest).1 (cut rest).2
  | [.char '-'] => .word
  | .char '-' :: rest => .cluster rest
  | _ => .word

/-- Digits with at most one dot among them, not in front, and at most one exponent mark
after them, which is neither the first nor the last character nor before a dot. -/
def isNumberFrom : (first dotted marked : Bool) → Token → Bool
  | _, _, _, [] => true
  | first, dotted, marked, .char c :: rest =>
    if c.isDigit then isNumberFrom false dotted marked rest
    else if c = '.' then !first && !dotted && !marked && isNumberFrom false true marked rest
    else if c = 'e' || c = 'E' then
      !first && !marked && !rest.isEmpty && isNumberFrom false dotted true rest
    else false
  | _, _, _, .stray _ :: _ => false

/-- Whether a cluster makes its token a negative number. -/
def isNumber (shorts : Token) : Bool := isNumberFrom true false false shorts

end Token

end WasmBuild.CommandLine
