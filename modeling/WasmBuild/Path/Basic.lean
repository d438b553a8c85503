/-! Path texts. A path is kept as it was written; joining, the parent and the
ancestors work on the text, so a path that is shown is the path that was given.

A text falls into pieces between slashes. An empty piece and a lone `.` are idle:
they name nothing, except that a relative path may begin with `.`. -/

namespace WasmBuild

structure Path where
  text : String
deriving DecidableEq, Inhabited

namespace Path

abbrev Piece := List Char

def chars (p : Path) : List Char := p.text.toList

def ofChars (cs : List Char) : Path := ⟨String.ofList cs⟩

def isAbsolute (p : Path) : Bool := p.chars.head? == some '/'

/-- The pieces between slashes; those of an absolute path follow its root. -/
def pieces (p : Path) : List Piece :=
  (if p.isAbsolute then p.chars.tail else p.chars).splitOn '/'

def ofPieces (absolute : Bool) (ps : List Piece) : Path :=
  ofChars ((if absolute then ['/'] else []) ++ List.intercalate ['/'] ps)

/-- An absolute right operand replaces the left one; otherwise the two are kept
apart by one slash, unless the left one is empty or already ends in a slash. -/
def join (base rel : Path) : Path :=
  if rel.isAbsolute then rel
  else if base.chars.getLast?.all (· == '/') then ofChars (base.chars ++ rel.chars)
  else ofChars (base.chars ++ '/' :: rel.chars)

def isIdle (piece : Piece) : Bool := piece == [] || piece == ['.']

/-- Whether `piece` is a component, when `outer` are the pieces before it. -/
def isComponent (absolute : Bool) (piece : Piece) (outer : List Piece) : Bool :=
  !isIdle piece || (!absolute && piece == ['.'] && outer.isEmpty)

/-- Drops the idle pieces at the inner end of pieces listed innermost first. -/
def shed (absolute : Bool) : List Piece → List Piece
  | [] => []
  | piece :: outer =>
    if isComponent absolute piece outer then piece :: outer else shed absolute outer

/-- What is left of pieces, listed innermost first, each time a component is taken away. -/
def peel (absolute : Bool) : List Piece → List (List Piece)
  | [] => []
  | piece :: outer =>
    if isComponent absolute piece outer then shed absolute outer :: peel absolute outer
    else peel absolute outer

/-- The proper ancestors, nearest first; the root and the empty path have none. -/
def parents (p : Path) : List Path :=
  (peel p.isAbsolute p.pieces.reverse).map fun ps => ofPieces p.isAbsolute ps.reverse

def parent? (p : Path) : Option Path := p.parents.head?

def ancestors (p : Path) : List Path := p :: p.parents

end Path

instance : ToString Path := ⟨Path.text⟩

end WasmBuild
