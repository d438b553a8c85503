import WasmBuild.Bytes

/-! Bytes read as UTF-8 text as far as they are text. What is not is kept as runs of
bytes, each the longest that could still have begun a character, so that nothing is
lost and a text can be shown with one replacement character for every such run. -/

namespace WasmBuild.Text

/-- A character, or bytes that are none. -/
inductive Glyph where
  | char (c : Char)
  | stray (bytes : List UInt8)
deriving DecidableEq

/-- How many bytes follow a first byte, and between which bounds the next one lies. -/
def leadRange (b : UInt8) : Option (Nat × UInt8 × UInt8) :=
  if b < 0x80 then some (0, 0x80, 0xBF)
  else if b < 0xC2 then none
  else if b < 0xE0 then some (1, 0x80, 0xBF)
  else if b == 0xE0 then some (2, 0xA0, 0xBF)
  else if b == 0xED then some (2, 0x80, 0x9F)
  else if b < 0xF0 then some (2, 0x80, 0xBF)
  else if b == 0xF0 then some (3, 0x90, 0xBF)
  else if b < 0xF4 then some (3, 0x80, 0xBF)
  else if b == 0xF4 then some (3, 0x80, 0x8F)
  else none

/-- The bits that a first byte gives to its character. -/
def leadBits (b : UInt8) : Nat :=
  if b < 0x80 then b.toNat
  else if b < 0xE0 then b.toNat % 0x20
  else if b < 0xF0 then b.toNat % 0x10
  else b.toNat % 0x08

/-- A character begun and not finished: its bytes so far, last first, the bits they
gave, how many are still to come, and the bounds of the next. -/
structure Begun where
  bytes : List UInt8
  bits : Nat
  missing : Nat
  low : UInt8
  high : UInt8

def Begun.stray (b : Begun) : Glyph := .stray b.bytes.reverse

/-- What a first byte is or begins. -/
def start (b : UInt8) : Glyph ⊕ Begun :=
  match leadRange b with
  | none => .inl (.stray [b])
  | some (0, _, _) => .inl (.char (Char.ofNat b.toNat))
  | some (missing, low, high) => .inr ⟨[b], leadBits b, missing, low, high⟩

def glyphsFrom : Option Begun → List UInt8 → List Glyph
  | none, [] => []
  | some begun, [] => [begun.stray]
  | none, b :: rest =>
    match start b with
    | .inl glyph => glyph :: glyphsFrom none rest
    | .inr begun => glyphsFrom (some begun) rest
  | some begun, b :: rest =>
    if begun.low ≤ b ∧ b ≤ begun.high then
      let bits := begun.bits * 0x40 + b.toNat % 0x40
      if begun.missing ≤ 1 then .char (Char.ofNat bits) :: glyphsFrom none rest
      else glyphsFrom (some ⟨b :: begun.bytes, bits, begun.missing - 1, 0x80, 0xBF⟩) rest
    else
      match start b with
      | .inl glyph => begun.stray :: glyph :: glyphsFrom none rest
      | .inr next => begun.stray :: glyphsFrom (some next) rest

def glyphs (bytes : ByteArray) : List Glyph := glyphsFrom none bytes.data.toList

def Glyph.char? : Glyph → Option Char
  | .char c => some c
  | .stray _ => none

def Glyph.shown : Glyph → Char
  | .char c => c
  | .stray _ => '\uFFFD'

/-- The text of the bytes, with a replacement character for each stray run. -/
def lossy (bytes : ByteArray) : String := String.ofList ((glyphs bytes).map Glyph.shown)

end WasmBuild.Text
