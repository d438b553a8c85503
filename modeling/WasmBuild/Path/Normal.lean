import WasmBuild.Path.Basic

/-! The lexical clean-up of paths: idle pieces go, and a `..` takes away the name
before it. Nothing is asked of a file system. -/

namespace WasmBuild.Path

def up : Piece := ['.', '.']

/-- The pieces left of a clean-up, innermost first, over those already kept. At the
root a `..` leads nowhere; at the start of a relative path it stays. -/
def tidy (absolute : Bool) : List Piece → List Piece → List Piece
  | kept, [] => kept
  | kept, piece :: rest =>
    if isIdle piece then tidy absolute kept rest
    else if piece == up then
      match kept with
      | [] => tidy absolute (if absolute then [] else [up]) rest
      | top :: below =>
        if top == up then tidy absolute (up :: kept) rest else tidy absolute below rest
    else tidy absolute (piece :: kept) rest

def normalize (p : Path) : Path :=
  ofPieces p.isAbsolute (tidy p.isAbsolute [] p.pieces).reverse

/-- The clean form of `p`, taken from `base` when `p` is relative. -/
def resolve (base p : Path) : Path :=
  if p.isAbsolute then p.normalize else (base.join p).normalize

end WasmBuild.Path
