/-! Reading a text from left to right: what a reader takes is gone from the text, and a
reader that fails has taken nothing. -/

namespace WasmBuild.Toml

abbrev Reader := StateT (List Char) Option

namespace Reader

variable {α : Type}

def char (c : Char) : Reader Unit
  | [] => none
  | d :: rest => if d = c then some ((), rest) else none

def word (text : String) : Reader Unit := text.toList.forM char

def ended : Reader Unit := fun cs => if cs.isEmpty then some ((), cs) else none

/-- Takes the characters of a class, of which there may be none. -/
def run (inClass : Char → Bool) : Reader (List Char) :=
  fun cs => some (cs.takeWhile inClass, cs.dropWhile inClass)

def run1 (inClass : Char → Bool) : Reader (List Char) := do
  let cs ← run inClass
  guard !cs.isEmpty
  return cs

def oneOf (inClass : Char → Bool) : Reader Char
  | [] => none
  | c :: rest => if inClass c then some (c, rest) else none

def exactly (n : Nat) (inClass : Char → Bool) : Reader (List Char) :=
  fun cs =>
    let taken := cs.take n
    if taken.length = n ∧ taken.all inClass then some (taken, cs.drop n) else none

def maybe (item : Reader α) : Reader (Option α) := some <$> item <|> pure none

/-- Takes an item as long as there is one. -/
def manyFrom (item : Reader α) (cs : List Char) : List α × List Char :=
  match item cs with
  | none => ([], cs)
  | some (a, rest) =>
    if rest.length < cs.length then
      let (more, rest) := manyFrom item rest
      (a :: more, rest)
    else ([a], rest)
termination_by cs.length

def many (item : Reader α) : Reader (List α) := fun cs => some (manyFrom item cs)

/-- Takes one or more items between which a character stands. -/
def separated (mark : Char) (item : Reader α) : Reader (List α) := do
  let first ← item
  return first :: (← many (char mark *> item))

def taken (item : Reader Unit) : Reader String := fun cs =>
  (item cs).map fun (_, rest) => (String.ofList (cs.take (cs.length - rest.length)), rest)

/-! What stands between the parts of a document. -/

def isSpace (c : Char) : Bool := c = ' ' || c = '\t'

def spaces : Reader Unit := discard (run isSpace)

/-- Characters of more than one byte, all of which may stand in strings and comments. -/
def isWide (c : Char) : Bool := 0x80 ≤ c.toNat

/-- Characters that are no control characters, or a tab. -/
def isShown (c : Char) : Bool := c = '\t' || (' ' ≤ c && c ≤ '~') || isWide c

def newline : Reader Unit := char '\n' <|> word "\r\n"

def comment : Reader Unit := char '#' *> discard (run isShown)

/-- The end of a line that has said all it can. -/
def lineEnd : Reader Unit := spaces *> discard (maybe comment) *> (newline <|> ended)

/-- Spaces, ends of lines, and comments that end with their line. -/
def gap : Reader Unit :=
  discard (many (discard (run1 isSpace) <|> newline <|> comment *> newline))

end Reader

end WasmBuild.Toml
